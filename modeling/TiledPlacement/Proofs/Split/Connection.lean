import TiledPlacement.Proofs.Split.Extent
import TiledPlacement.Proofs.Split.Layout

/-!
The blocks and connections of a layout. Each block is there for one purpose, which its id tells;
a connection brings data to a copy or to a copy of an operand, or takes the output on.
-/

namespace TiledPlacement

theorem mem_of_mapM_ok {ε α β : Type} {list : List α} {change : α → Except ε β} {values : List β}
    (hvalues : list.mapM change = .ok values) {value : β} :
    value ∈ values ↔ ∃ element ∈ list, change element = .ok value := by
  induction list generalizing values with
  | nil =>
      obtain rfl := Except.ok.inj hvalues
      exact ⟨fun hmember => (nomatch hmember), fun ⟨_, hmember, _⟩ => (nomatch hmember)⟩
  | cons first rest induction =>
      rw [List.mapM_cons] at hvalues
      obtain ⟨head, hhead, hvalues⟩ := bind_eq_ok_iff.mp hvalues
      obtain ⟨tail, htail, hvalues⟩ := bind_eq_ok_iff.mp hvalues
      obtain rfl := Except.ok.inj hvalues
      rw [List.mem_cons, induction htail, List.exists_mem_cons_iff, hhead, Except.ok.injEq,
        eq_comm]

theorem exists_of_mapM_ok {ε α β : Type} {list : List α} {change : α → Except ε β}
    {values : List β} (hvalues : list.mapM change = .ok values) {element : α}
    (helement : element ∈ list) : ∃ value, change element = .ok value := by
  induction list generalizing values with
  | nil => cases helement
  | cons first rest induction =>
      rw [List.mapM_cons] at hvalues
      obtain ⟨head, hhead, hvalues⟩ := bind_eq_ok_iff.mp hvalues
      obtain ⟨tail, htail, -⟩ := bind_eq_ok_iff.mp hvalues
      rcases List.mem_cons.mp helement with rfl | hrest
      · exact ⟨head, hhead⟩
      · exact induction htail hrest

private theorem mem_take_zipIdx_iff {α : Type} {list : List α} {count : Nat} {entry : α × Nat} :
    entry ∈ list.zipIdx.take count ↔ entry.2 < count ∧ list[entry.2]? = some entry.1 := by
  rw [List.mem_iff_getElem?]
  simp only [List.getElem?_take, List.getElem?_zipIdx, Nat.zero_add, Option.ite_none_right_eq_some,
    Option.map_eq_some_iff]
  constructor
  · intro hfound
    obtain ⟨index, hless, element, helement, rfl⟩ := hfound
    exact ⟨hless, helement⟩
  · intro hfound
    exact ⟨entry.2, hfound.1, entry.1, hfound.2, rfl⟩

namespace Split

theorem mem_meeting_iff {edges : List Edge} {side : Edge → Endpoint} {window piece : Window}
    {edge : Edge} :
    (edge, piece) ∈ meeting edges side window ↔
      edge ∈ edges ∧ overlap? (side edge).window window = some piece := by
  unfold meeting
  rw [List.mem_filterMap]
  constructor
  · intro hmember
    obtain ⟨other, hother, hpiece⟩ := hmember
    obtain ⟨found, hfound, hequal⟩ := Option.map_eq_some_iff.mp hpiece
    obtain ⟨rfl, rfl⟩ := Prod.mk.inj hequal
    exact ⟨hother, hfound⟩
  · intro hmember
    obtain ⟨hedge, hpiece⟩ := hmember
    exact ⟨edge, hedge, Option.map_eq_some_iff.mpr ⟨piece, hpiece, rfl⟩⟩

theorem nodup_meeting {edges : List Edge} (hedges : edges.Nodup) (side : Edge → Endpoint)
    (window : Window) : (meeting edges side window).Nodup := by
  refine List.Pairwise.filterMap _ ?_ hedges
  intro left right hdiffer first hfirst second hsecond hsame
  obtain ⟨_, -, rfl⟩ := Option.map_eq_some_iff.mp hfirst
  obtain ⟨_, -, rfl⟩ := Option.map_eq_some_iff.mp hsecond
  exact hdiffer (congrArg Prod.fst hsame)

/-- The split that a request to cut a computation of a graph leads to. -/
structure Cuts (split : Split) (graph : TaskGraph) (task : TaskId) (vector : SplitVector) :
    Prop where
  wellFormed : graph.WellFormed
  block : graph.block? task = some split.block
  payload : split.block.payload = .computation split.computation
  factors : split.computation.effectiveFactors task vector = .ok split.factors
  operands : split.operands = graph.operands task

section Cuts

variable {split : Split} {graph : TaskGraph} {task : TaskId} {vector : SplitVector}

theorem Cuts.valid (hcuts : split.Cuts graph task vector) :
    split.computation.shapeFault? = none := by
  have hvalid := (hcuts.wellFormed.block_shaped hcuts.block).valid
  rw [hcuts.payload] at hvalid
  exact hvalid.1

theorem Cuts.input (hcuts : split.Cuts graph task vector) (index : Nat) :
    (split.block.inputs[index]?).map Port.shape =
      (split.computation.inputs[index]?).map fun operand =>
        operand.2.shape split.computation.shape := by
  have hshapes := (hcuts.wellFormed.block_shaped hcuts.block).shapes .input
  rw [hcuts.payload] at hshapes
  rw [← List.getElem?_map, ← List.getElem?_map]
  exact congrArg (·[index]?) hshapes

theorem mem_intakes_iff (hcuts : split.Cuts graph task vector) {ports : Nat} {window : Window}
    {intake : Intake} :
    intake ∈ split.intakes graph ports window ↔
      intake.port < ports ∧
        (∃ operand, split.computation.inputs[intake.port]? = some operand ∧
          intake.required = operand.2.window window) ∧
        graph.edge? intake.edge.id = some intake.edge ∧
          intake.edge.dst.Names task intake.port ∧
            overlap? intake.edge.dst.window intake.required = some intake.piece := by
  have hport : ∀ {index : Nat} {whole : Port}, split.block.inputs[index]? = some whole →
      graph.port? .input task index = some whole :=
    fun hwhole => TaskGraph.port?_eq_some_iff.mpr ⟨split.block, hcuts.block, hwhole⟩
  unfold intakes
  rw [List.mem_flatMap]
  constructor
  · intro hmember
    obtain ⟨⟨⟨operand, whole⟩, port⟩, hentry, hintake⟩ := hmember
    obtain ⟨hless, hzip⟩ := mem_take_zipIdx_iff.mp hentry
    obtain ⟨hoperand, hwhole⟩ := List.getElem?_zip_eq_some.mp hzip
    obtain ⟨⟨edge, piece⟩, hmeets, rfl⟩ := List.mem_map.mp hintake
    obtain ⟨hedge, hpiece⟩ := mem_meeting_iff.mp hmeets
    obtain ⟨hknown, hnames⟩ :=
      (hcuts.wellFormed.mem_edgesAt_iff (hport hwhole)).mp hedge
    exact ⟨hless, ⟨operand, hoperand, rfl⟩, hknown, hnames, hpiece⟩
  · intro hintake
    obtain ⟨hless, ⟨operand, hoperand, hrequired⟩, hknown, hnames, hpiece⟩ := hintake
    have hshape := hcuts.input intake.port
    rw [hoperand, Option.map_some] at hshape
    obtain ⟨whole, hwhole, -⟩ := Option.map_eq_some_iff.mp hshape
    refine ⟨((operand, whole), intake.port), ?_,
      List.mem_map.mpr ⟨(intake.edge, intake.piece), ?_, ?_⟩⟩
    · exact mem_take_zipIdx_iff.mpr ⟨hless, List.getElem?_zip_eq_some.mpr ⟨hoperand, hwhole⟩⟩
    · rw [hrequired] at hpiece
      exact mem_meeting_iff.mpr
        ⟨(hcuts.wellFormed.mem_edgesAt_iff (hport hwhole)).mpr ⟨hknown, hnames⟩, hpiece⟩
    · rw [← hrequired]

theorem intake_unique (hcuts : split.Cuts graph task vector) {ports : Nat} {window : Window}
    {left right : Intake} (hleft : left ∈ split.intakes graph ports window)
    (hright : right ∈ split.intakes graph ports window) (hport : left.port = right.port)
    (hedge : left.edge = right.edge) : left = right := by
  obtain ⟨-, ⟨leftOperand, hleftOperand, hleftRequired⟩, -, -, hleftPiece⟩ :=
    (mem_intakes_iff hcuts).mp hleft
  obtain ⟨-, ⟨rightOperand, hrightOperand, hrightRequired⟩, -, -, hrightPiece⟩ :=
    (mem_intakes_iff hcuts).mp hright
  obtain ⟨port, required, edge, piece⟩ := left
  obtain ⟨otherPort, otherRequired, otherEdge, otherPiece⟩ := right
  dsimp only at *
  subst hport
  subst hedge
  obtain rfl := Option.some.inj (hleftOperand.symm.trans hrightOperand)
  subst hleftRequired
  subst hrightRequired
  obtain rfl := Option.some.inj (hleftPiece.symm.trans hrightPiece)
  rfl

theorem nodup_intakes (hcuts : split.Cuts graph task vector) (ports : Nat) (window : Window) :
    (split.intakes graph ports window).Nodup := by
  unfold intakes
  refine List.nodup_flatMap.mpr ⟨fun entry hentry => ?_, ?_⟩
  · obtain ⟨⟨operand, whole⟩, port⟩ := entry
    obtain ⟨-, hzip⟩ := mem_take_zipIdx_iff.mp hentry
    obtain ⟨-, hwhole⟩ := List.getElem?_zip_eq_some.mp hzip
    have hport : graph.port? .input task port = some whole :=
      TaskGraph.port?_eq_some_iff.mpr ⟨split.block, hcuts.block, hwhole⟩
    have hedges := hcuts.wellFormed.nodup_edgesAt hport
    refine List.Nodup.map (fun left right hequal => ?_) (nodup_meeting hedges _ _)
    exact Prod.ext (congrArg Intake.edge hequal) (congrArg Intake.piece hequal)
  · have hports : ((split.computation.inputs.zip split.block.inputs).zipIdx.take ports).Pairwise
        fun left right => left.2 ≠ right.2 := by
      refine List.Pairwise.sublist (List.take_sublist _ _) (List.pairwise_map.mp ?_)
      rw [List.zipIdx_map_snd]
      exact List.nodup_range' _
    refine hports.imp fun hdiffer intake hleft hright => ?_
    obtain ⟨_, -, rfl⟩ := List.mem_map.mp hleft
    obtain ⟨_, -, hequal⟩ := List.mem_map.mp hright
    exact hdiffer (congrArg Intake.port hequal).symm

end Cuts

end Split

/-! Blocks. -/

/-- What a block of a layout is there for. -/
inductive SplitRole
  | copy (copy : SplitCopy)
  | operand (copy : SplitCopy) (feed : Feed) (operand : OperandCopy)
  | accumulator (block : Block)

namespace SplitRole

def block : SplitRole → Block
  | .copy made => made.block
  | .operand _ _ made => made.block
  | .accumulator made => made

end SplitRole

namespace SplitLayout

def rolesOf (copy : SplitCopy) : List SplitRole :=
  copy.feeds.flatMap (fun feed => (feed.operand.map (SplitRole.operand copy feed)).toList) ++
    [.copy copy]

def roles (layout : SplitLayout) : List SplitRole :=
  layout.copies.flatMap rolesOf ++ (layout.accumulator.map SplitRole.accumulator).toList

variable {split : Split} {graph : TaskGraph} {layout : SplitLayout}

theorem copy_mem_roles {copy : SplitCopy} (hcopy : copy ∈ layout.copies) :
    .copy copy ∈ layout.roles := by
  refine List.mem_append_left _ (List.mem_flatMap.mpr ⟨copy, hcopy, ?_⟩)
  exact List.mem_append_right _ (List.mem_singleton_self _)

theorem operand_mem_roles {copy : SplitCopy} {feed : Feed} {operand : OperandCopy}
    (hcopy : copy ∈ layout.copies) (hfeed : feed ∈ copy.feeds)
    (hoperand : feed.operand = some operand) : .operand copy feed operand ∈ layout.roles := by
  refine List.mem_append_left _ (List.mem_flatMap.mpr ⟨copy, hcopy, ?_⟩)
  refine List.mem_append_left _ (List.mem_flatMap.mpr ⟨feed, hfeed, ?_⟩)
  rw [hoperand]
  exact List.mem_singleton_self _

theorem accumulator_mem_roles {block : Block} (hblock : layout.accumulator = some block) :
    .accumulator block ∈ layout.roles := by
  refine List.mem_append_right _ ?_
  rw [hblock]
  exact List.mem_singleton_self _

theorem mem_roles_iff {role : SplitRole} :
    role ∈ layout.roles ↔
      match role with
      | .copy copy => copy ∈ layout.copies
      | .operand copy feed operand =>
          copy ∈ layout.copies ∧ feed ∈ copy.feeds ∧ feed.operand = some operand
      | .accumulator block => layout.accumulator = some block := by
  constructor
  · intro hrole
    rcases List.mem_append.mp hrole with hcopies | haccumulator
    · obtain ⟨copy, hcopy, hrole⟩ := List.mem_flatMap.mp hcopies
      rcases List.mem_append.mp hrole with hfeeds | hself
      · obtain ⟨feed, hfeed, hrole⟩ := List.mem_flatMap.mp hfeeds
        obtain ⟨operand, hoperand, rfl⟩ := Option.map_eq_some_iff.mp (Option.mem_toList.mp hrole)
        exact ⟨hcopy, hfeed, hoperand⟩
      · rw [List.mem_singleton.mp hself]
        exact hcopy
    · obtain ⟨block, hblock, rfl⟩ := Option.map_eq_some_iff.mp (Option.mem_toList.mp haccumulator)
      exact hblock
  · intro hrole
    cases role with
    | copy copy => exact copy_mem_roles hrole
    | operand copy feed operand => exact operand_mem_roles hrole.1 hrole.2.1 hrole.2.2
    | accumulator block => exact accumulator_mem_roles hrole

theorem blocks_plan : (layout.plan split graph).blocks = layout.roles.map SplitRole.block := by
  have hfeed : ∀ (copy : SplitCopy) (feed : Feed), (feed.plan copy.block.id).blocks =
      (feed.operand.map (SplitRole.operand copy feed)).toList.map SplitRole.block := by
    intro copy feed
    unfold Feed.plan
    cases feed.operand <;> rfl
  have hcopy : ∀ copy : SplitCopy, copy.plan.blocks = (rolesOf copy).map SplitRole.block := by
    intro copy
    change (SplitPlan.concat (copy.feeds.map (Feed.plan copy.block.id))).blocks ++ [copy.block] = _
    rw [SplitPlan.blocks_concat, rolesOf, List.map_append, List.map_flatMap, List.flatMap_map]
    simp only [hfeed]
    rfl
  change (SplitPlan.concat (layout.copies.map SplitCopy.plan)).blocks ++
    (layout.sums split graph).blocks = _
  rw [SplitPlan.blocks_concat, roles, List.map_append, List.map_flatMap, List.flatMap_map]
  simp only [hcopy]
  refine congrArg (_ ++ ·) ?_
  unfold sums
  cases layout.accumulator <;> rfl

/-! Connections. -/

inductive Makes (split : Split) (graph : TaskGraph) (layout : SplitLayout) : Connection → Prop
  | delivery {copy : SplitCopy} {feed : Feed} (hcopy : copy ∈ layout.copies)
      (hfeed : feed ∈ copy.feeds) : Makes split graph layout (feed.delivery copy.block.id)
  | upstream {copy : SplitCopy} {feed : Feed} {operand : OperandCopy} {edge : Edge}
      {piece sent : Window} (hcopy : copy ∈ layout.copies) (hfeed : feed ∈ copy.feeds)
      (hoperand : feed.operand = some operand) (hknown : graph.edge? edge.id = some edge)
      (hdst : edge.dst.task = feed.edge.src.task)
      (hpiece : Split.overlap? edge.dst.window feed.sent = some piece)
      (hsent : Split.carry edge edge.dst.window piece edge.src.window = .ok sent) :
      Makes split graph layout ⟨{ edge.src with window := sent },
        ⟨operand.block.id, edge.dst.port, feed.sent.localize piece⟩, edge.rearrange⟩
  | output {copy : SplitCopy} {edge : Edge} {piece received : Window}
      (haccumulator : layout.accumulator = none) (hcopy : copy ∈ layout.copies)
      (hedge : edge ∈ split.outputEdges graph)
      (hpiece : Split.overlap? edge.src.window (split.yield copy.part) = some piece)
      (hreceived : Split.carry edge edge.src.window piece edge.dst.window = .ok received) :
      Makes split graph layout ⟨⟨copy.block.id, 0, (split.yield copy.part).localize piece⟩,
        { edge.dst with window := received }, edge.rearrange⟩
  | addend {copy : SplitCopy} {block : Block} (haccumulator : layout.accumulator = some block)
      (hcopy : copy ∈ layout.copies) :
      Makes split graph layout
        (Split.addendEdge copy.block.id block.id copy.part.addend (split.yield copy.part))
  | sum {block : Block} {edge : Edge} (haccumulator : layout.accumulator = some block)
      (hedge : edge ∈ split.outputEdges graph) :
      Makes split graph layout { edge.connection with src := ⟨block.id, 0, edge.src.window⟩ }

private theorem Planned.mem_feed_iff (hplanned : layout.Planned split graph)
    (hgraph : graph.WellFormed) {copy : SplitCopy} {feed : Feed} (hcopy : copy ∈ layout.copies)
    (hfeed : feed ∈ copy.feeds) {connection : Connection} :
    connection ∈ (feed.plan copy.block.id).edges ↔
      connection = feed.delivery copy.block.id ∨
        ∃ operand, feed.operand = some operand ∧ ∃ edge piece sent,
          graph.edge? edge.id = some edge ∧ edge.dst.task = feed.edge.src.task ∧
            Split.overlap? edge.dst.window feed.sent = some piece ∧
              Split.carry edge edge.dst.window piece edge.src.window = .ok sent ∧
                connection = ⟨{ edge.src with window := sent },
                  ⟨operand.block.id, edge.dst.port, feed.sent.localize piece⟩,
                  edge.rearrange⟩ := by
  unfold Feed.plan
  cases hoperand : feed.operand with
  | none => simp
  | some operand =>
      obtain ⟨-, original, horiginal, -, hfeeds⟩ :=
        ((hplanned.copies copy hcopy).feeds feed hfeed).operand operand hoperand
      obtain hid := hgraph.block_id horiginal
      simp only [List.mem_append, List.mem_singleton, Option.some.injEq, exists_eq_left']
      rw [or_comm]
      refine or_congr Iff.rfl ((mem_of_mapM_ok hfeeds).trans ?_)
      constructor
      · intro hmember
        obtain ⟨⟨edge, piece⟩, hmeets, hconnection⟩ := hmember
        obtain ⟨hedge, hpiece⟩ := Split.mem_meeting_iff.mp hmeets
        obtain ⟨hknown, hdst⟩ := hgraph.mem_inputEdges_iff.mp hedge
        obtain ⟨sent, hsent, hconnection⟩ := bind_eq_ok_iff.mp hconnection
        exact ⟨edge, piece, sent, hknown, hdst.trans hid, hpiece, hsent,
          (Except.ok.inj hconnection).symm⟩
      · intro hmember
        obtain ⟨edge, piece, sent, hknown, hdst, hpiece, hsent, rfl⟩ := hmember
        refine ⟨(edge, piece), Split.mem_meeting_iff.mpr ⟨?_, hpiece⟩, ?_⟩
        · exact hgraph.mem_inputEdges_iff.mpr ⟨hknown, hdst.trans hid.symm⟩
        · exact bind_eq_ok_iff.mpr ⟨sent, hsent, rfl⟩

private theorem mem_copy_iff {copy : SplitCopy} {connection : Connection} :
    connection ∈ copy.plan.edges ↔
      (∃ feed ∈ copy.feeds, connection ∈ (feed.plan copy.block.id).edges) ∨
        connection ∈ copy.outputs := by
  change connection ∈ (SplitPlan.concat (copy.feeds.map (Feed.plan copy.block.id))).edges ++
    copy.outputs ↔ _
  rw [List.mem_append, SplitPlan.mem_edges_concat_iff]

private theorem Planned.mem_outputs_iff (hplanned : layout.Planned split graph) {copy : SplitCopy}
    (hcopy : copy ∈ layout.copies) {connection : Connection} :
    connection ∈ copy.outputs ↔
      (∃ block, layout.accumulator = some block ∧ connection =
        Split.addendEdge copy.block.id block.id copy.part.addend (split.yield copy.part)) ∨
      layout.accumulator = none ∧ ∃ edge piece received, edge ∈ split.outputEdges graph ∧
        Split.overlap? edge.src.window (split.yield copy.part) = some piece ∧
          Split.carry edge edge.src.window piece edge.dst.window = .ok received ∧
            connection = ⟨⟨copy.block.id, 0, (split.yield copy.part).localize piece⟩,
              { edge.dst with window := received }, edge.rearrange⟩ := by
  have houtputs := (hplanned.copies copy hcopy).outputs
  cases haccumulator : layout.accumulator with
  | some block =>
      rw [haccumulator] at houtputs
      change copy.outputs = _ at houtputs
      simp [houtputs]
  | none =>
      rw [haccumulator] at houtputs
      refine (mem_of_mapM_ok houtputs).trans ?_
      constructor
      · intro hmember
        obtain ⟨⟨edge, piece⟩, hmeets, hconnection⟩ := hmember
        obtain ⟨hedge, hpiece⟩ := Split.mem_meeting_iff.mp hmeets
        obtain ⟨received, hreceived, hconnection⟩ := bind_eq_ok_iff.mp hconnection
        exact Or.inr ⟨rfl, edge, piece, received, hedge, hpiece, hreceived,
          (Except.ok.inj hconnection).symm⟩
      · intro hmember
        obtain ⟨_, hblock, -⟩ | ⟨-, edge, piece, received, hedge, hpiece, hreceived, rfl⟩ := hmember
        · cases hblock
        · exact ⟨(edge, piece), Split.mem_meeting_iff.mpr ⟨hedge, hpiece⟩,
            bind_eq_ok_iff.mpr ⟨received, hreceived, rfl⟩⟩

private theorem mem_sums_iff {connection : Connection} :
    connection ∈ (layout.sums split graph).edges ↔
      ∃ block edge, layout.accumulator = some block ∧ edge ∈ split.outputEdges graph ∧
        connection = { edge.connection with src := ⟨block.id, 0, edge.src.window⟩ } := by
  unfold sums
  cases layout.accumulator with
  | none => simp [SplitPlan.empty]
  | some block => simp [eq_comm]

theorem Planned.mem_edges_iff (hplanned : layout.Planned split graph)
    (hgraph : graph.WellFormed) {connection : Connection} :
    connection ∈ (layout.plan split graph).edges ↔ layout.Makes split graph connection := by
  change connection ∈ (SplitPlan.concat (layout.copies.map SplitCopy.plan)).edges ++
    (layout.sums split graph).edges ↔ _
  rw [List.mem_append, SplitPlan.mem_edges_concat_iff, mem_sums_iff]
  constructor
  · intro hmember
    rcases hmember with ⟨copy, hcopy, hmember⟩ | ⟨block, edge, haccumulator, hedge, rfl⟩
    · rcases mem_copy_iff.mp hmember with ⟨feed, hfeed, hmember⟩ | houtput
      · rcases (hplanned.mem_feed_iff hgraph hcopy hfeed).mp hmember with rfl | hupstream
        · exact .delivery hcopy hfeed
        · obtain ⟨operand, hoperand, edge, piece, sent, hknown, hdst, hpiece, hsent, rfl⟩ :=
            hupstream
          exact .upstream hcopy hfeed hoperand hknown hdst hpiece hsent
      · rcases (hplanned.mem_outputs_iff hcopy).mp houtput with
          ⟨block, haccumulator, rfl⟩ |
          ⟨haccumulator, edge, piece, received, hedge, hpiece, hreceived, rfl⟩
        · exact .addend haccumulator hcopy
        · exact .output haccumulator hcopy hedge hpiece hreceived
    · exact .sum haccumulator hedge
  · intro hmakes
    cases hmakes with
    | @delivery copy feed hcopy hfeed =>
        refine Or.inl ⟨copy, hcopy, mem_copy_iff.mpr (Or.inl ⟨feed, hfeed, ?_⟩)⟩
        exact (hplanned.mem_feed_iff hgraph hcopy hfeed).mpr (Or.inl rfl)
    | @upstream copy feed operand edge piece sent hcopy hfeed hoperand hknown hdst hpiece hsent =>
        refine Or.inl ⟨copy, hcopy, mem_copy_iff.mpr (Or.inl ⟨feed, hfeed, ?_⟩)⟩
        exact (hplanned.mem_feed_iff hgraph hcopy hfeed).mpr (Or.inr
          ⟨operand, hoperand, edge, piece, sent, hknown, hdst, hpiece, hsent, rfl⟩)
    | @output copy edge piece received haccumulator hcopy hedge hpiece hreceived =>
        refine Or.inl ⟨copy, hcopy, mem_copy_iff.mpr (Or.inr ?_)⟩
        exact (hplanned.mem_outputs_iff hcopy).mpr (Or.inr
          ⟨haccumulator, edge, piece, received, hedge, hpiece, hreceived, rfl⟩)
    | @addend copy block haccumulator hcopy =>
        refine Or.inl ⟨copy, hcopy, mem_copy_iff.mpr (Or.inr ?_)⟩
        exact (hplanned.mem_outputs_iff hcopy).mpr (Or.inl ⟨block, haccumulator, rfl⟩)
    | @sum block edge haccumulator hedge => exact Or.inr ⟨block, edge, haccumulator, hedge, rfl⟩

end SplitLayout

end TiledPlacement
