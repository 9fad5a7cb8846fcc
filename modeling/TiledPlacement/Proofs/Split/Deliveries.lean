import TiledPlacement.Proofs.Split.Placing

/-!
What is fed after a split. On a valid graph, each element of an input of a copy is fed by one new
edge, which stands for the edge that fed the element of the cut block; so is each element of a copy
of an operand, each element that the cut block fed, and each addend.
-/

namespace TiledPlacement

namespace Split

/-- The plan has been carried out on a graph whose edges are numbered below what is next. -/
structure Enacts (split : Split) (graph : TaskGraph) (task : TaskId) (vector : SplitVector)
    (plan : SplitPlan) (layout : SplitLayout) (after : IdSource) (left : TaskGraph) : Prop where
  cuts : split.Cuts graph task vector
  plans : split.Plans graph plan layout after
  committed : graph.Committed (split.gone task) plan after.next left
  below : ∀ {id edge}, graph.edge? id = some edge → id.raw < graph.ids.next

namespace Enacts

variable {split : Split} {graph left : TaskGraph} {task : TaskId} {vector : SplitVector}
  {plan : SplitPlan} {layout : SplitLayout} {after : IdSource}

theorem mem_edges_iff (henacts : split.Enacts graph task vector plan layout after left)
    {connection : Connection} :
    connection ∈ plan.edges ↔ layout.Makes split graph connection :=
  henacts.plans.mem_edges_iff henacts.cuts.wellFormed

theorem replaced (henacts : split.Enacts graph task vector plan layout after left) :
    graph.Replaced (split.gone task) plan left :=
  henacts.committed.toReplaced

theorem task_mem_gone : task ∈ split.gone task :=
  List.mem_append_right _ (List.mem_singleton_self task)

/-! Blocks that are new. -/

theorem role_mem_created (henacts : split.Enacts graph task vector plan layout after left)
    {role : SplitRole} (hrole : role ∈ layout.roles) : role.block.id ∈ plan.created :=
  henacts.plans.mem_created_iff.mpr ⟨role, hrole, rfl⟩

theorem payload_role (henacts : split.Enacts graph task vector plan layout after left)
    {role : SplitRole} (hrole : role ∈ layout.roles) :
    left.payload? role.block.id = some role.block.payload :=
  henacts.replaced.made _ (henacts.plans.block_mem hrole)

theorem payload_copy (henacts : split.Enacts graph task vector plan layout after left)
    {copy : SplitCopy} (hcopy : copy ∈ layout.copies) :
    left.payload? copy.block.id = some (.computation
      (copy.part.computation split.computation split.factors split.reduces)) :=
  (henacts.payload_role (SplitLayout.copy_mem_roles hcopy)).trans
    (congrArg some (henacts.plans.planned.payload_copy hcopy).1)

theorem payload_sum (henacts : split.Enacts graph task vector plan layout after left)
    {block : Block} (hblock : layout.accumulator = some block) :
    left.payload? block.id = some (.computation split.accumulation) := by
  obtain ⟨-, hpayload, -⟩ :=
    Block.ofComputation_ok (henacts.plans.planned.accumulator block hblock)
  exact (henacts.payload_role (SplitLayout.accumulator_mem_roles hblock)).trans
    (congrArg some hpayload)

/-- Of the new blocks only the copies of operands store data. -/
theorem operand_of_stored (henacts : split.Enacts graph task vector plan layout after left)
    {role : SplitRole} (hrole : role ∈ layout.roles) {storage : Storage}
    (hstored : left.payload? role.block.id = some (.storage storage)) :
    ∃ copy feed operand, role = .operand copy feed operand := by
  cases role with
  | copy copy =>
      cases hstored.symm.trans (henacts.payload_copy (SplitLayout.mem_roles_iff.mp hrole))
  | operand copy feed operand => exact ⟨copy, feed, operand, rfl⟩
  | accumulator block =>
      cases hstored.symm.trans (henacts.payload_sum (SplitLayout.mem_roles_iff.mp hrole))

/-! Edges that are left. -/

theorem exists_role (henacts : split.Enacts graph task vector plan layout after left)
    {connection : Connection} (hmember : connection ∈ plan.edges) :
    ∃ role ∈ layout.roles, ∃ side, (connection.endAt side).task = role.block.id := by
  cases henacts.mem_edges_iff.mp hmember with
  | delivery hcopy _ => exact ⟨_, SplitLayout.copy_mem_roles hcopy, .input, rfl⟩
  | upstream hcopy hfeed hoperand =>
      exact ⟨_, SplitLayout.operand_mem_roles hcopy hfeed hoperand, .input, rfl⟩
  | output _ hcopy => exact ⟨_, SplitLayout.copy_mem_roles hcopy, .output, rfl⟩
  | addend hblock _ => exact ⟨_, SplitLayout.accumulator_mem_roles hblock, .input, rfl⟩
  | sum hblock _ => exact ⟨_, SplitLayout.accumulator_mem_roles hblock, .output, rfl⟩

theorem edge_cases (henacts : split.Enacts graph task vector plan layout after left)
    {edge : Edge} (hknown : left.edge? edge.id = some edge) :
    edge.connection ∈ plan.edges ∨
      graph.edge? edge.id = some edge ∧ ∀ other ∈ split.gone task, ¬edge.Meets other := by
  have hcases := (henacts.committed.edge edge).mp hknown
  split at hcases
  case isTrue => exact Or.inl (List.mem_of_getElem? hcases)
  case isFalse => exact Or.inr hcases

theorem edge_kept (henacts : split.Enacts graph task vector plan layout after left)
    {edge : Edge} (hknown : graph.edge? edge.id = some edge)
    (hapart : ∀ other ∈ split.gone task, ¬edge.Meets other) :
    left.edge? edge.id = some edge := by
  have hbelow := henacts.below hknown
  have hlater := henacts.plans.numbered.next
  refine (henacts.committed.edge edge).mpr ?_
  rw [if_neg (by omega)]
  exact ⟨hknown, hapart⟩

theorem edge_new (henacts : split.Enacts graph task vector plan layout after left)
    {edge : Edge} (hknown : left.edge? edge.id = some edge) {role : SplitRole}
    (hrole : role ∈ layout.roles) {side : PortSide}
    (hend : (edge.endAt side).task = role.block.id) : edge.connection ∈ plan.edges := by
  refine (henacts.edge_cases hknown).resolve_right fun hold => ?_
  exact henacts.plans.new_ne_end henacts.cuts.wellFormed hrole hold.1 side hend.symm

theorem existsUnique_edge (henacts : split.Enacts graph task vector plan layout after left)
    {connection : Connection} (hmember : connection ∈ plan.edges) :
    ∃! edge : Edge, left.edge? edge.id = some edge ∧ edge.connection = connection := by
  obtain ⟨role, hrole, side, hend⟩ := henacts.exists_role hmember
  obtain ⟨index, hindex⟩ := List.mem_iff_getElem?.mp hmember
  obtain ⟨hless, -⟩ := List.getElem?_eq_some_iff.mp hindex
  refine ⟨⟨⟨after.next + index⟩, connection⟩, ⟨?_, rfl⟩, fun other hother => ?_⟩
  · refine (henacts.committed.edge _).mpr ?_
    rw [if_pos ⟨Nat.le_add_right _ _, Nat.add_lt_add_left hless _⟩]
    dsimp only
    rw [Nat.add_sub_cancel_left]
    exact hindex
  · obtain ⟨hknown, rfl⟩ := hother
    have hcases := (henacts.committed.edge other).mp hknown
    split at hcases
    case isFalse =>
      exact absurd hend.symm
        (henacts.plans.new_ne_end henacts.cuts.wellFormed hrole hcases.1 side)
    case isTrue hrange =>
      have hplace : other.id.raw - after.next = index := by
        obtain ⟨hbelow, hfound⟩ := List.getElem?_eq_some_iff.mp hcases
        obtain ⟨_, hexpected⟩ := List.getElem?_eq_some_iff.mp hindex
        exact (List.Nodup.getElem_inj_iff henacts.plans.nodup_edges).mp
          (hfound.trans hexpected.symm)
      obtain ⟨⟨raw⟩, connection⟩ := other
      dsimp only at hplace hrange ⊢
      congr 2
      omega

/-! Where new edges lead. -/

theorem into_role (henacts : split.Enacts graph task vector plan layout after left)
    {role : SplitRole} (hrole : role ∈ layout.roles) {edge : Edge}
    (hknown : left.edge? edge.id = some edge) (hdst : edge.dst.task = role.block.id) :
    match role with
    | .copy copy => ∃ feed ∈ copy.feeds, edge.connection = feed.delivery copy.block.id
    | .operand _ feed operand => ∃ (upstream : Edge) (piece sent : Window),
        graph.edge? upstream.id = some upstream ∧ upstream.dst.task = feed.edge.src.task ∧
          Split.overlap? upstream.dst.window feed.sent = some piece ∧
            Split.carry upstream upstream.dst.window piece upstream.src.window = .ok sent ∧
              edge.connection = ⟨{ upstream.src with window := sent },
                ⟨operand.block.id, upstream.dst.port, feed.sent.localize piece⟩,
                upstream.rearrange⟩
    | .accumulator block => ∃ copy ∈ layout.copies, edge.connection =
        Split.addendEdge copy.block.id block.id copy.part.addend (split.yield copy.part) := by
  have hmember := @edge_new _ _ _ _ _ _ _ _ henacts _ hknown _ hrole .input hdst
  have hunique : ∀ other ∈ layout.roles, edge.dst.task = other.block.id → role = other :=
    fun other hother hsame => henacts.plans.role_unique hrole hother (hdst.symm.trans hsame)
  have hnew : ∀ old : Edge, graph.edge? old.id = some old → edge.dst.task ≠ old.dst.task :=
    fun old hold hsame => henacts.plans.new_ne_end henacts.cuts.wellFormed hrole hold .input
      (hdst.symm.trans hsame)
  obtain ⟨id, connection⟩ := edge
  cases henacts.mem_edges_iff.mp hmember with
  | delivery hcopy hfeed =>
      obtain rfl := hunique _ (SplitLayout.copy_mem_roles hcopy) rfl
      exact ⟨_, hfeed, rfl⟩
  | upstream hcopy hfeed hoperand hold hend hpiece hsent =>
      obtain rfl := hunique _ (SplitLayout.operand_mem_roles hcopy hfeed hoperand) rfl
      exact ⟨_, _, _, hold, hend, hpiece, hsent, rfl⟩
  | addend hblock hcopy =>
      obtain rfl := hunique _ (SplitLayout.accumulator_mem_roles hblock) rfl
      exact ⟨_, hcopy, rfl⟩
  | output _ _ hedge =>
      exact (hnew _ (henacts.cuts.mem_outputEdges_iff.mp hedge).1 rfl).elim
  | sum _ hedge =>
      exact (hnew _ (henacts.cuts.mem_outputEdges_iff.mp hedge).1 rfl).elim

theorem out_of_operand (henacts : split.Enacts graph task vector plan layout after left)
    {copy : SplitCopy} {feed : Feed} {operand : OperandCopy} (hcopy : copy ∈ layout.copies)
    (hfeed : feed ∈ copy.feeds) (hoperand : feed.operand = some operand) {edge : Edge}
    (hknown : left.edge? edge.id = some edge) (hsrc : edge.src.task = operand.block.id) :
    edge.connection = feed.delivery copy.block.id := by
  have hrole := SplitLayout.operand_mem_roles hcopy hfeed hoperand
  have hmember := @edge_new _ _ _ _ _ _ _ _ henacts _ hknown _ hrole .output hsrc
  have hunique : ∀ other ∈ layout.roles, edge.src.task = other.block.id →
      SplitRole.operand copy feed operand = other :=
    fun other hother hsame => henacts.plans.role_unique hrole hother (hsrc.symm.trans hsame)
  have hnew : ∀ old : Edge, graph.edge? old.id = some old → edge.src.task ≠ old.src.task :=
    fun old hold hsame => henacts.plans.new_ne_end henacts.cuts.wellFormed hrole hold .output
      (hsrc.symm.trans hsame)
  obtain ⟨id, connection⟩ := edge
  cases henacts.mem_edges_iff.mp hmember with
  | @delivery other otherFeed hother hotherFeed =>
      change otherFeed.src.task = _ at hsrc
      unfold Feed.src at hsrc
      cases hotherOperand : otherFeed.operand with
      | none =>
          rw [hotherOperand] at hsrc
          have hold := (henacts.plans.planned.known henacts.cuts hother hotherFeed).1
          exact absurd hsrc.symm
            (henacts.plans.new_ne_end henacts.cuts.wellFormed hrole hold .output)
      | some otherOperand =>
          rw [hotherOperand] at hsrc
          have hsame := henacts.plans.role_unique
            (SplitLayout.operand_mem_roles hother hotherFeed hotherOperand) hrole hsrc
          obtain ⟨rfl, rfl, -⟩ := SplitRole.operand.inj hsame
          rfl
  | upstream _ _ _ hold => exact (hnew _ hold rfl).elim
  | output _ hother => exact nomatch hunique _ (SplitLayout.copy_mem_roles hother) rfl
  | addend _ hother => exact nomatch hunique _ (SplitLayout.copy_mem_roles hother) rfl
  | sum hblock => exact nomatch hunique _ (SplitLayout.accumulator_mem_roles hblock) rfl

/-- An edge into a block that was there is old, or sends on what the cut block sent there. -/
theorem into_kept (henacts : split.Enacts graph task vector plan layout after left)
    {edge : Edge} (hknown : left.edge? edge.id = some edge) {payload : Payload}
    (hpayload : graph.payload? edge.dst.task = some payload) :
    (graph.edge? edge.id = some edge ∧ ∀ other ∈ split.gone task, ¬edge.Meets other) ∨
      ∃ old ∈ split.outputEdges graph,
        (layout.accumulator = none ∧ ∃ copy ∈ layout.copies, ∃ piece received,
          Split.overlap? old.src.window (split.yield copy.part) = some piece ∧
            Split.carry old old.src.window piece old.dst.window = .ok received ∧
              edge.connection = ⟨⟨copy.block.id, 0, (split.yield copy.part).localize piece⟩,
                { old.dst with window := received }, old.rearrange⟩) ∨
        ∃ block, layout.accumulator = some block ∧
          edge.connection = { old.connection with src := ⟨block.id, 0, old.src.window⟩ } := by
  refine (henacts.edge_cases hknown).symm.imp_right fun hmember => ?_
  have hold : ∀ role ∈ layout.roles, edge.dst.task ≠ role.block.id := by
    intro role hrole hsame
    have hnone := henacts.plans.payload?_new henacts.cuts.wellFormed hrole
    rw [← hsame, hpayload] at hnone
    cases hnone
  obtain ⟨id, connection⟩ := edge
  cases henacts.mem_edges_iff.mp hmember with
  | delivery hcopy => exact absurd rfl (hold _ (SplitLayout.copy_mem_roles hcopy))
  | upstream hcopy hfeed hoperand =>
      exact absurd rfl (hold _ (SplitLayout.operand_mem_roles hcopy hfeed hoperand))
  | addend hblock => exact absurd rfl (hold _ (SplitLayout.accumulator_mem_roles hblock))
  | output hnone hcopy hedge hpiece hreceived =>
      exact ⟨_, hedge, Or.inl ⟨hnone, _, hcopy, _, _, hpiece, hreceived, rfl⟩⟩
  | sum hblock hedge => exact ⟨_, hedge, Or.inr ⟨_, hblock, rfl⟩⟩

/-! Elements that are fed once. -/

theorem fedBy_of_mem (henacts : split.Enacts graph task vector plan layout after left)
    {connection : Connection} (hmember : connection ∈ plan.edges) {other : TaskId} {index : Nat}
    {element : Datum} (hnames : connection.dst.Names other index)
    (hcovers : connection.dst.window.Covers element)
    (honly : ∀ edge, left.Feeds edge other index element → edge.connection = connection) :
    left.FedBy connection other index element := by
  obtain ⟨edge, ⟨hknown, rfl⟩, hunique⟩ := henacts.existsUnique_edge hmember
  exact ⟨edge, rfl, ⟨hknown, hnames, hcovers⟩, fun found hfound =>
    hunique found ⟨hfound.known, honly found hfound⟩⟩

/-- Each element that a copy reads is brought by what fed that element of the cut block. -/
theorem fedBy_delivery (henacts : split.Enacts graph task vector plan layout after left)
    (hvalid : graph.Valid) {copy : SplitCopy} (hcopy : copy ∈ layout.copies) {port : Nat}
    {required : Window} (hreads : copy.Reads split port required) {element : Datum}
    (hfull : (Window.full required.size).Covers element) :
    ∃ feed ∈ copy.feeds, feed.required = required ∧
      graph.Feeds feed.edge task port (required.lift element) ∧
        (required.localize feed.piece).Covers element ∧
          left.FedBy (feed.delivery copy.block.id) copy.block.id port element := by
  have hcuts := henacts.cuts
  have hplanned := henacts.plans.planned
  have hbounded := hvalid.bounded
  obtain ⟨extent, hextent, hlies⟩ := hreads.liesIn hcuts hplanned hcopy
  obtain ⟨edge, hfeeds, -⟩ := hvalid.tiled hextent (required.lift element)
    ((Window.covers_lift_iff.mp hfull).1.of_within
      (hreads.bounded hcuts hbounded hplanned hcopy) hlies.within)
  obtain ⟨feed, hfeed, rfl, rfl, rfl, hcovers⟩ :=
    hplanned.exists_feed hcuts hbounded hcopy hreads hfull hfeeds
  refine ⟨feed, hfeed, rfl, hfeeds, hcovers, ?_⟩
  refine henacts.fedBy_of_mem (henacts.mem_edges_iff.mpr (.delivery hcopy hfeed)) ⟨rfl, rfl⟩
    hcovers fun found hfound => ?_
  obtain ⟨other, hother, hconnection⟩ := henacts.into_role (SplitLayout.copy_mem_roles hcopy)
    hfound.known hfound.names.1
  have hdst : found.dst = (other.delivery copy.block.id).dst :=
    congrArg Connection.dst hconnection
  have hport : other.port = feed.port := by
    rw [← hfound.names.2, hdst]
    rfl
  have hrequired : other.required = feed.required := by
    obtain ⟨first, hfirst, hfirstRequired⟩ := (hplanned.reads hcuts hcopy hother).operand
    obtain ⟨second, hsecond, hsecondRequired⟩ := hreads.operand
    rw [hport] at hfirst
    rw [hfirstRequired, hsecondRequired, Option.some.inj (hfirst.symm.trans hsecond)]
  have hotherCovers := hfound.covers
  rw [hdst] at hotherCovers
  obtain ⟨-, hotherFeeds⟩ :=
    (hplanned.covers_feed_iff hcuts hbounded hcopy hother).mp hotherCovers
  rw [hport, hrequired] at hotherFeeds
  have hedge := hcuts.wellFormed.feeds_unique hvalid hotherFeeds hfeeds
  rw [hconnection, hplanned.feed_unique hcuts hcopy hother hfeed hport hedge]

/-- What is sent to a copy of an operand that is fed has no axis that the operand lacks, unless it
has none in common with the operand: what fed the operand would find no place in the copy. -/
theorem has_of_sent (henacts : split.Enacts graph task vector plan layout after left)
    (hvalid : graph.Valid) {copy : SplitCopy} {feed : Feed} {operand : OperandCopy}
    (hcopy : copy ∈ layout.copies) (hfeed : feed ∈ copy.feeds)
    (hoperand : feed.operand = some operand) {storage : Storage}
    (hstorage : graph.payload? feed.edge.src.task = some (.storage storage)) {index : Nat}
    (hextent : graph.extent? .input feed.edge.src.task index = some storage.shape) {shared : Axis}
    (hshared : feed.sent.spans shared = true) (hheld : storage.shape.has shared = true)
    {axis : Axis} (hspan : feed.sent.spans axis = true) : storage.shape.has axis = true := by
  have hcuts := henacts.cuts
  have hplanned := henacts.plans.planned
  obtain ⟨edge, hfeeds, -⟩ := hvalid.tiled hextent (feed.sent.corner storage.shape)
    (hplanned.corner_covers hstorage hcuts hvalid.bounded hcopy hfeed)
  have hknown := hfeeds.known
  have hdst := hfeeds.names.1
  obtain ⟨piece, hpiece⟩ := hplanned.exists_overlap_corner hstorage hcuts hvalid.bounded hcopy hfeed
    hknown hdst hfeeds.covers hshared hheld
  obtain ⟨sent, hsent⟩ := hplanned.carry_upstream hcuts hcopy hfeed hoperand hknown hdst hpiece
  have hmember := henacts.mem_edges_iff.mpr
    (.upstream hcopy hfeed hoperand hknown hdst hpiece hsent)
  obtain ⟨received, hreceived, hroom⟩ := (henacts.committed.joins _ hmember).room .input
  obtain rfl :=
    henacts.plans.extent_operand hcuts henacts.replaced hcopy hfeed hoperand hreceived
  -- The piece has the axes of what feeds the operand, and has to have those of the copy.
  obtain ⟨hlogical, hhas⟩ := Window.spans_iff.mp hspan
  have hpieceSpan : piece.spans axis = true :=
    Window.spans_iff.mpr ⟨hlogical, (Window.within_sameAxes hroom axis hlogical).trans hhas⟩
  have hcommon := (Split.overlap?_eq_some hpiece).1.spans axis
  obtain ⟨hhere, -⟩ := Bool.and_eq_true_iff.mp (hcommon.symm.trans hpieceSpan)
  obtain ⟨extent, hedgeExtent, hwithin⟩ := hcuts.wellFormed.window_within hknown .input
  rw [Edge.endAt_input, hdst] at hedgeExtent
  obtain rfl := hcuts.wellFormed.extent?_storage hstorage hedgeExtent
  exact (Window.within_sameAxes hwithin axis hlogical).symm.trans (Window.spans_iff.mp hhere).2

theorem keepsExtent (henacts : split.Enacts graph task vector plan layout after left)
    (hvalid : graph.Valid) {copy : SplitCopy} {feed : Feed} {operand : OperandCopy}
    (hcopy : copy ∈ layout.copies) (hfeed : feed ∈ copy.feeds)
    (hoperand : feed.operand = some operand) {storage : Storage}
    (hstorage : graph.payload? feed.edge.src.task = some (.storage storage)) {index : Nat}
    (hextent : graph.extent? .input feed.edge.src.task index = some storage.shape)
    (hkeeps : feed.edge.KeepsSpread storage.shape) : feed.edge.KeepsExtent storage.shape := by
  intro hidentity axis hlogical
  obtain ⟨⟨shared, hsharedLogical, hheld, hshared⟩, hspread⟩ := hkeeps hidentity
  have hspans := henacts.plans.planned.spans_sent henacts.cuts hcopy hfeed hidentity
  refine ⟨fun hhas => ?_, hspread axis hlogical⟩
  exact henacts.has_of_sent hvalid hcopy hfeed hoperand hstorage hextent
    ((hspans shared).trans (Window.spans_iff.mpr ⟨hsharedLogical, hshared⟩)) hheld
    ((hspans axis).trans (Window.spans_iff.mpr ⟨hlogical, hhas⟩))

/-- Each element that a copy of an operand holds is brought by what fed that element of the
operand. -/
theorem fedBy_upstream (henacts : split.Enacts graph task vector plan layout after left)
    (hvalid : graph.Valid) {copy : SplitCopy} {feed : Feed} {operand : OperandCopy}
    (hcopy : copy ∈ layout.copies) (hfeed : feed ∈ copy.feeds)
    (hoperand : feed.operand = some operand) {storage : Storage}
    (hstorage : graph.payload? feed.edge.src.task = some (.storage storage))
    (hkeeps : feed.edge.KeepsExtent storage.shape) {index : Nat} {edge : Edge} {element : Datum}
    (hfull : (Window.full feed.sent.size).Covers element)
    (hfeeds : graph.Feeds edge feed.edge.src.task index (feed.sent.lift element)) :
    ∃ piece sent, Split.overlap? edge.dst.window feed.sent = some piece ∧
      Split.carry edge edge.dst.window piece edge.src.window = .ok sent ∧
        (feed.sent.localize piece).Covers element ∧
          left.FedBy ⟨{ edge.src with window := sent },
            ⟨operand.block.id, edge.dst.port, feed.sent.localize piece⟩, edge.rearrange⟩
              operand.block.id index element := by
  have hcuts := henacts.cuts
  have hgraph := hcuts.wellFormed
  have hplanned := henacts.plans.planned
  have hbounded := hvalid.bounded
  have hsentBounded := hplanned.sent_bounded hstorage hcuts hbounded hcopy hfeed hkeeps
  have hextends : ∀ other : Edge, graph.edge? other.id = some other →
      other.dst.task = feed.edge.src.task → other.dst.window.Extends feed.sent :=
    fun other hother hdst =>
      hplanned.upstream_extends hstorage hcuts hbounded hcopy hfeed hkeeps hother hdst
  obtain ⟨piece, hpiece, hcovers⟩ := Split.exists_piece (hbounded.edge hfeeds.known .input)
    hsentBounded (hextends edge hfeeds.known hfeeds.names.1)
    (hplanned.sent_elements_pos hcuts hcopy hfeed hoperand)
    (hplanned.sent_elements_lt hcuts hbounded hcopy hfeed) hfull hfeeds.covers
  obtain ⟨sent, hsent⟩ := hplanned.carry_upstream hcuts hcopy hfeed hoperand hfeeds.known
    hfeeds.names.1 hpiece
  refine ⟨piece, sent, hpiece, hsent, hcovers, ?_⟩
  have hmember := henacts.mem_edges_iff.mpr
    (.upstream hcopy hfeed hoperand hfeeds.known hfeeds.names.1 hpiece hsent)
  refine henacts.fedBy_of_mem hmember ⟨rfl, hfeeds.names.2⟩ hcovers fun found hfound => ?_
  obtain ⟨other, otherPiece, otherSent, hother, hdst, hotherPiece, hotherCarry, hconnection⟩ :=
    henacts.into_role (SplitLayout.operand_mem_roles hcopy hfeed hoperand) hfound.known
      hfound.names.1
  have hfoundDst : found.dst =
      ⟨operand.block.id, other.dst.port, feed.sent.localize otherPiece⟩ :=
    congrArg Connection.dst hconnection
  have hfoundCovers := hfound.covers
  rw [hfoundDst] at hfoundCovers
  obtain ⟨-, hotherCovers⟩ :=
    (Split.covers_piece_iff (hbounded.edge hother .input) hsentBounded
      (hextends other hother hdst) hotherPiece).mp hfoundCovers
  have hport : other.dst.port = index := by
    rw [← hfound.names.2, hfoundDst]
  obtain rfl := hgraph.feeds_unique hvalid
    ⟨hother, ⟨hdst, hport⟩, hotherCovers⟩ hfeeds
  obtain rfl := Option.some.inj (hotherPiece.symm.trans hpiece)
  obtain rfl := Except.ok.inj (hotherCarry.symm.trans hsent)
  exact hconnection

theorem fedBy_addend (henacts : split.Enacts graph task vector plan layout after left)
    {block : Block} (hblock : layout.accumulator = some block) {addend : Nat}
    (haddend : addend < split.factors.r) {element : Datum}
    (helement : (Window.full (Computation.output.shape split.computation.shape)).Covers element) :
    ∃ copy ∈ layout.copies, copy.part.addend = addend ∧
      left.FedBy (Split.addendEdge copy.block.id block.id addend (split.yield copy.part))
        block.id addend element := by
  have hcuts := henacts.cuts
  have hplanned := henacts.plans.planned
  rw [← (hplanned.addends hcuts hblock).1] at haddend
  obtain ⟨copy, ⟨hcopy, rfl, hcovers⟩, honly⟩ :=
    hplanned.existsUnique_copy hcuts helement haddend
  refine ⟨copy, hcopy, rfl, ?_⟩
  refine henacts.fedBy_of_mem (henacts.mem_edges_iff.mpr (.addend hblock hcopy)) ⟨rfl, rfl⟩
    hcovers fun found hfound => ?_
  obtain ⟨other, hother, hconnection⟩ := henacts.into_role
    (SplitLayout.accumulator_mem_roles hblock) hfound.known hfound.names.1
  have hdst : found.dst = ⟨block.id, other.part.addend, split.yield other.part⟩ :=
    congrArg Connection.dst hconnection
  have hport := hfound.names.2
  have hotherCovers := hfound.covers
  rw [hdst] at hport hotherCovers
  rw [hconnection, honly other ⟨hother, hport, hotherCovers⟩]

/-! What the cut block fed. -/

theorem accumulator_eq_none (henacts : split.Enacts graph task vector plan layout after left)
    (hone : split.factors.r = 1) : layout.accumulator = none := by
  have hreduces := henacts.plans.planned.reduces
  rw [reduces, hone] at hreduces
  exact Option.isNone_iff_eq_none.mp (Option.isSome_eq_false_iff.mp hreduces)

/-- Data that leaves unchanged has the same axes at both ends, or a piece of it would not have
found its place. -/
theorem output_sameSize (henacts : split.Enacts graph task vector plan layout after left)
    (hbounded : graph.Bounded) (haccumulator : layout.accumulator = none) {edge : Edge}
    (hedge : edge ∈ split.outputEdges graph) (hidentity : edge.isIdentity = true) :
    edge.src.window.SameSize edge.dst.window := by
  have hcuts := henacts.cuts
  have hgraph := hcuts.wellFormed
  have hplanned := henacts.plans.planned
  obtain ⟨hknown, hsrc⟩ := hcuts.mem_outputEdges_iff.mp hedge
  obtain ⟨element, helement⟩ := edge.src.window.exists_covers
  obtain ⟨copy, hcopy, piece, received, hpiece, hreceived, -⟩ :=
    hplanned.exists_output hcuts hbounded haccumulator hedge helement
  have hmember := henacts.mem_edges_iff.mpr (.output haccumulator hcopy hedge hpiece hreceived)
  obtain ⟨extent, hextent, hreceivedWithin⟩ := (henacts.committed.joins _ hmember).room .input
  have hwithin := @Plans.room_old _ _ _ _ _ _ _ henacts.plans hgraph henacts.replaced edge hknown
    .input extent hextent
  have hsame := hcuts.yield_sameAxes hknown hsrc (hplanned.part_mem hcopy)
  have hpieceAxes := ((Split.overlap?_eq_some hpiece).1.sameAxes (.of_sameAxes hsame)).trans
    hsame.symm
  refine Window.sameSize_of_agreesWith ((hgraph.edge_fits hknown).2 hidentity) ?_
  obtain ⟨-, hsize⟩ := Split.carry_volume hreceived (hgraph.edge_fits hknown).1
  have hreceivedAxes : received.size.SameAxes edge.dst.window.size :=
    (Window.within_sameAxes hreceivedWithin).trans (Window.within_sameAxes hwithin).symm
  rw [hsize hidentity] at hreceivedAxes
  exact hpieceAxes.symm.trans hreceivedAxes

section Kept

variable {edge : Edge} {other : TaskId} {index : Nat} {element : Datum}

private theorem exists_payload (henacts : split.Enacts graph task vector plan layout after left)
    (hfeeds : graph.Feeds edge other index element) {found : Edge}
    (hfound : left.Feeds found other index element) :
    ∃ payload, graph.payload? found.dst.task = some payload := by
  obtain ⟨extent, hextent, -⟩ :=
    henacts.cuts.wellFormed.window_within hfeeds.known .input
  rw [henacts.cuts.wellFormed.extent?_eq, Edge.endAt_input, hfeeds.names.1] at hextent
  obtain ⟨payload, hpayload, -⟩ := Option.bind_eq_some_iff.mp hextent
  rw [hfound.names.1]
  exact ⟨payload, hpayload⟩

private theorem kept_cases (henacts : split.Enacts graph task vector plan layout after left)
    (hvalid : graph.Valid) (hfeeds : graph.Feeds edge other index element) {found : Edge}
    (hfound : left.Feeds found other index element) :
    found = edge ∧ ¬edge.src.task = task ∨ edge ∈ split.outputEdges graph ∧
      ((layout.accumulator = none ∧ ∃ copy ∈ layout.copies, ∃ piece received,
        Split.overlap? edge.src.window (split.yield copy.part) = some piece ∧
          Split.carry edge edge.src.window piece edge.dst.window = .ok received ∧
            received.Covers element ∧
              found.connection = ⟨⟨copy.block.id, 0, (split.yield copy.part).localize piece⟩,
                { edge.dst with window := received }, edge.rearrange⟩) ∨
      ∃ block, layout.accumulator = some block ∧
        found.connection = { edge.connection with src := ⟨block.id, 0, edge.src.window⟩ }) := by
  have hcuts := henacts.cuts
  have hgraph := hcuts.wellFormed
  obtain ⟨payload, hpayload⟩ := henacts.exists_payload hfeeds hfound
  have hcovers := hfound.covers
  have hnames := hfound.names
  rcases henacts.into_kept hfound.known hpayload with ⟨hold, hapart⟩ | ⟨old, hold, hmade⟩
  · obtain rfl := hgraph.feeds_unique hvalid ⟨hold, hnames, hcovers⟩ hfeeds
    exact Or.inl ⟨rfl, fun hsrc => hapart task task_mem_gone (Or.inl hsrc)⟩
  · obtain ⟨hknown, hsrc⟩ := hcuts.mem_outputEdges_iff.mp hold
    rcases hmade with ⟨hnone, copy, hcopy, piece, received, hpiece, hreceived, hconnection⟩ |
      ⟨block, hblock, hconnection⟩
    · have hdst : found.dst = { old.dst with window := received } :=
        congrArg Connection.dst hconnection
      rw [hdst] at hcovers hnames
      have hsame := hcuts.yield_sameAxes hknown hsrc (henacts.plans.planned.part_mem hcopy)
      have hinside := Split.carry_inside (hvalid.bounded.edge hknown .input) hreceived
        ((Split.overlap?_eq_some hpiece).1.inside_left hsame)
        (fun hidentity => henacts.output_sameSize hvalid.bounded hnone hold hidentity)
      obtain rfl := hgraph.feeds_unique hvalid
        ⟨hknown, hnames, hinside.covers hcovers⟩ hfeeds
      exact Or.inr ⟨hold, Or.inl ⟨hnone, copy, hcopy, piece, received, hpiece, hreceived,
        hcovers, hconnection⟩⟩
    · have hdst : found.dst = old.dst := by
        rw [Edge.dst, hconnection]
        rfl
      rw [hdst] at hcovers hnames
      obtain rfl := hgraph.feeds_unique hvalid ⟨hknown, hnames, hcovers⟩ hfeeds
      exact Or.inr ⟨hold, Or.inr ⟨block, hblock, hconnection⟩⟩

/-- What other blocks fed stays as it is. -/
theorem feeds_kept (henacts : split.Enacts graph task vector plan layout after left)
    (hvalid : graph.Valid) (hother : other ∉ split.gone task)
    (hfeeds : graph.Feeds edge other index element) (hsrc : edge.src.task ≠ task) :
    left.Feeds edge other index element ∧
      ∀ found, left.Feeds found other index element → found = edge := by
  have hapart : ∀ task' ∈ split.gone task, ¬edge.Meets task' := by
    intro removed hremoved hmeets
    rcases hmeets with rfl | rfl
    · rcases List.mem_append.mp hremoved with hoperand | hself
      · rw [henacts.cuts.operands] at hoperand
        have hdst := (henacts.cuts.wellFormed.mem_operands_iff.mp hoperand).2.2 edge
          hfeeds.known rfl
        rw [← hfeeds.names.1, hdst] at hother
        exact hother task_mem_gone
      · exact hsrc (List.mem_singleton.mp hself)
    · exact hother (hfeeds.names.1 ▸ hremoved)
  refine ⟨⟨henacts.edge_kept hfeeds.known hapart, hfeeds.names, hfeeds.covers⟩,
    fun found hfound => ?_⟩
  rcases henacts.kept_cases hvalid hfeeds hfound with ⟨hsame, -⟩ | ⟨hedge, -⟩
  · exact hsame
  · exact absurd (henacts.cuts.mem_outputEdges_iff.mp hedge).2 hsrc

theorem fedBy_sum (henacts : split.Enacts graph task vector plan layout after left)
    (hvalid : graph.Valid) {block : Block} (hblock : layout.accumulator = some block)
    (hfeeds : graph.Feeds edge other index element) (hsrc : edge.src.task = task) :
    left.FedBy { edge.connection with src := ⟨block.id, 0, edge.src.window⟩ } other index
      element := by
  have hedge := henacts.cuts.mem_outputEdges_iff.mpr ⟨hfeeds.known, hsrc⟩
  refine henacts.fedBy_of_mem (henacts.mem_edges_iff.mpr (.sum hblock hedge)) hfeeds.names
    hfeeds.covers fun found hfound => ?_
  rcases henacts.kept_cases hvalid hfeeds hfound with ⟨-, hnot⟩ | ⟨-, hmade⟩
  · exact absurd hsrc hnot
  · rcases hmade with ⟨hnone, -⟩ | ⟨made, hmade, hconnection⟩
    · rw [hblock] at hnone
      cases hnone
    · rw [hconnection, Option.some.inj (hmade.symm.trans hblock)]

/-- Without one, it is fed by the copy that yields the element. -/
theorem fedBy_output (henacts : split.Enacts graph task vector plan layout after left)
    (hvalid : graph.Valid) (hone : split.factors.r = 1)
    (hfeeds : graph.Feeds edge other index element) (hsrc : edge.src.task = task) :
    ∃ copy ∈ layout.copies, ∃ piece received,
      Split.overlap? edge.src.window (split.yield copy.part) = some piece ∧
        Split.carry edge edge.src.window piece edge.dst.window = .ok received ∧
          left.FedBy ⟨⟨copy.block.id, 0, (split.yield copy.part).localize piece⟩,
            { edge.dst with window := received }, edge.rearrange⟩ other index element := by
  have hcuts := henacts.cuts
  have hplanned := henacts.plans.planned
  have hedge := hcuts.mem_outputEdges_iff.mpr ⟨hfeeds.known, hsrc⟩
  have hnone := henacts.accumulator_eq_none hone
  have hbounded := hvalid.bounded
  have hsize := fun hidentity => henacts.output_sameSize hbounded hnone hedge hidentity
  have hinside : ∀ {copy : SplitCopy} {piece : Window}, copy ∈ layout.copies →
      Split.overlap? edge.src.window (split.yield copy.part) = some piece →
        piece.Inside edge.src.window ∧ ∀ element, piece.Covers element ↔
          edge.src.window.Covers element ∧ (split.yield copy.part).Covers element := by
    intro copy piece hcopy hpiece
    have hsame := hcuts.yield_sameAxes hfeeds.known hsrc (hplanned.part_mem hcopy)
    have hcommon := (Split.overlap?_eq_some hpiece).1
    exact ⟨hcommon.inside_left hsame, hcommon.covers_iff (hbounded.edge hfeeds.known .output)
      (hcuts.yield_bounded hbounded (hplanned.part_mem hcopy)) (.of_sameAxes hsame)⟩
  obtain ⟨origin, horigin, hcarried⟩ :=
    Split.exists_origin (hbounded.edge hfeeds.known .input) hsize hfeeds.covers
  obtain ⟨copy, hcopy, piece, received, hpiece, hreceived, hcovers⟩ :=
    hplanned.exists_output hcuts hbounded hnone hedge horigin
  refine ⟨copy, hcopy, piece, received, hpiece, hreceived, ?_⟩
  obtain ⟨hpieceInside, hpieceCovers⟩ := hinside hcopy hpiece
  refine henacts.fedBy_of_mem
    (henacts.mem_edges_iff.mpr (.output hnone hcopy hedge hpiece hreceived)) hfeeds.names
    ((hcarried piece received hpieceInside hreceived).mpr hcovers) fun found hfound => ?_
  rcases henacts.kept_cases hvalid hfeeds hfound with ⟨-, hnot⟩ | ⟨-, hmade⟩
  · exact absurd hsrc hnot
  · rcases hmade with ⟨-, twin, htwin, twinPiece, twinReceived, htwinPiece, htwinReceived,
      htwinCovers, hconnection⟩ | ⟨block, hblock, -⟩
    · obtain ⟨htwinInside, htwinPieceCovers⟩ := hinside htwin htwinPiece
      have horiginTwin :=
        (hcarried twinPiece twinReceived htwinInside htwinReceived).mp htwinCovers
      have hsameCopy : twin = copy := by
        obtain ⟨only, -, honly⟩ := hplanned.existsUnique_copy hcuts
          (horigin.of_within (hbounded.edge hfeeds.known .output)
            (hcuts.output_within hfeeds.known hsrc))
          (SplitPart.length_intervals_pos
            (Computation.divides_of_effectiveFactors hcuts.factors) .r)
        have hfirst := honly twin ⟨htwin, hplanned.addend_eq_zero hone htwin,
          ((htwinPieceCovers origin).mp horiginTwin).2⟩
        have hsecond := honly copy ⟨hcopy, hplanned.addend_eq_zero hone hcopy,
          ((hpieceCovers origin).mp hcovers).2⟩
        exact hfirst.trans hsecond.symm
      subst hsameCopy
      obtain rfl := Option.some.inj (htwinPiece.symm.trans hpiece)
      obtain rfl := Except.ok.inj (htwinReceived.symm.trans hreceived)
      exact hconnection
    · rw [hnone] at hblock
      cases hblock

end Kept

end Enacts

end Split

end TiledPlacement
