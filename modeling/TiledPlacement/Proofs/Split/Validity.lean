import TiledPlacement.Proofs.Split.Deliveries

/-!
Splits keep graphs valid. Every element of every input that is left is fed once, and the new blocks
find ranks between the old ones; what it takes is that operands send along their own axes, that no
two parts yield the same output and that the numbers of the graph are words.
-/

namespace TiledPlacement

open Execution

/-- Operands of the block that are fed themselves send data unchanged along one of its axes at
least, and along each of them that has more than one element. -/
def TaskGraph.OperandsKeepSpread (graph : TaskGraph) (task : TaskId) : Prop :=
  ∀ edge storage, graph.edge? edge.id = some edge → edge.src.task ∈ graph.operands task →
    graph.payload? edge.src.task = some (.storage storage) → 0 < storage.kind.inputPorts →
      edge.KeepsSpread storage.shape

theorem TaskGraph.WellFormed.operandsKeepSpread {graph : TaskGraph} (hgraph : graph.WellFormed)
    {task : TaskId} (hkeeps : ∀ edge, graph.edge? edge.id = some edge →
      edge.src.task ∈ graph.operands task → edge.KeepsAxes) : graph.OperandsKeepSpread task := by
  intro edge storage hknown hoperand hstorage _
  obtain ⟨extent, hextent, hwithin⟩ := hgraph.window_within hknown .output
  obtain rfl := hgraph.extent?_storage hstorage hextent
  exact (hkeeps edge hknown hoperand).keepsSpread hwithin
    (hgraph.window_elements_pos hknown .input)

/-! Ranks. -/

/-- Old ranks are doubled, so that one between two of them is free for the accumulator. -/
def SplitRole.rank (task : TaskId) (rank : TaskId → Nat) : SplitRole → Nat
  | .copy _ => 2 * rank task
  | .operand _ feed _ => 2 * rank feed.edge.src.task
  | .accumulator _ => 2 * rank task + 1

def SplitLayout.rank (layout : SplitLayout) (task : TaskId) (rank : TaskId → Nat)
    (other : TaskId) : Nat :=
  match layout.roles.find? fun role => decide (role.block.id = other) with
  | some role => role.rank task rank
  | none => 2 * rank other

namespace Split.Enacts

variable {split : Split} {graph left : TaskGraph} {task : TaskId} {vector : SplitVector}
  {plan : SplitPlan} {layout : SplitLayout} {after : IdSource}

theorem rank_role (henacts : split.Enacts graph task vector plan layout after left)
    {role : SplitRole} (hrole : role ∈ layout.roles) (rank : TaskId → Nat) :
    layout.rank task rank role.block.id = role.rank task rank := by
  unfold SplitLayout.rank
  cases hfound : layout.roles.find? fun other => decide (other.block.id = role.block.id) with
  | none => exact absurd (decide_eq_true rfl) (List.find?_eq_none.mp hfound role hrole)
  | some other =>
      have hid := List.find?_some hfound
      rw [henacts.plans.role_unique (List.mem_of_find?_eq_some hfound) hrole
        (of_decide_eq_true hid)]

theorem rank_end (henacts : split.Enacts graph task vector plan layout after left) {edge : Edge}
    (hknown : graph.edge? edge.id = some edge) (side : PortSide) (rank : TaskId → Nat) :
    layout.rank task rank (edge.endAt side).task = 2 * rank (edge.endAt side).task := by
  unfold SplitLayout.rank
  cases hfound :
      layout.roles.find? fun role => decide (role.block.id = (edge.endAt side).task) with
  | none => rfl
  | some role =>
      have hid := List.find?_some hfound
      exact absurd (of_decide_eq_true hid) (henacts.plans.new_ne_end henacts.cuts.wellFormed
        (List.mem_of_find?_eq_some hfound) hknown side)

theorem ranked (henacts : split.Enacts graph task vector plan layout after left)
    {rank : TaskId → Nat} (hranked : graph.Ranked rank) : left.Ranked (layout.rank task rank) := by
  have hcuts := henacts.cuts
  have hplanned := henacts.plans.planned
  have hsrc : ∀ edge, graph.edge? edge.id = some edge →
      layout.rank task rank edge.src.task = 2 * rank edge.src.task :=
    fun edge hknown => henacts.rank_end hknown .output rank
  have hdst : ∀ edge, graph.edge? edge.id = some edge →
      layout.rank task rank edge.dst.task = 2 * rank edge.dst.task :=
    fun edge hknown => henacts.rank_end hknown .input rank
  have hcopy : ∀ copy ∈ layout.copies, layout.rank task rank copy.block.id = 2 * rank task :=
    fun copy hcopy => henacts.rank_role (SplitLayout.copy_mem_roles hcopy) rank
  have haccumulator : ∀ block, layout.accumulator = some block →
      layout.rank task rank block.id = 2 * rank task + 1 :=
    fun block hblock => henacts.rank_role (SplitLayout.accumulator_mem_roles hblock) rank
  have hoperand : ∀ copy ∈ layout.copies, ∀ feed ∈ copy.feeds, ∀ operand,
      feed.operand = some operand →
        layout.rank task rank operand.block.id = 2 * rank feed.edge.src.task :=
    fun copy hcopy feed hfeed operand hoperand =>
      henacts.rank_role (SplitLayout.operand_mem_roles hcopy hfeed hoperand) rank
  intro edge hknown
  rcases henacts.edge_cases hknown with hmember | ⟨hold, -⟩
  · obtain ⟨id, connection⟩ := edge
    change layout.rank task rank connection.src.task < layout.rank task rank connection.dst.task
    cases henacts.mem_edges_iff.mp hmember with
    | @delivery copy feed hmade hfeed =>
        obtain ⟨hfed, hnames⟩ := hplanned.known hcuts hmade hfeed
        have hless := hranked feed.edge hfed
        rw [hnames.1] at hless
        change layout.rank task rank feed.src.task < layout.rank task rank copy.block.id
        have hfrom : layout.rank task rank feed.src.task = 2 * rank feed.edge.src.task := by
          unfold Feed.src
          cases hcopied : feed.operand with
          | none => exact hsrc feed.edge hfed
          | some operand => exact hoperand copy hmade feed hfeed operand hcopied
        rw [hfrom, hcopy copy hmade]
        omega
    | @upstream copy feed operand upstream _ _ hmade hfeed hcopied hfed hinto =>
        have hless := hranked upstream hfed
        rw [hinto] at hless
        change layout.rank task rank upstream.src.task < layout.rank task rank operand.block.id
        rw [hsrc upstream hfed, hoperand copy hmade feed hfeed operand hcopied]
        omega
    | @output copy out _ _ _ hmade hout =>
        obtain ⟨hsent, hfrom⟩ := hcuts.mem_outputEdges_iff.mp hout
        have hless := hranked out hsent
        rw [hfrom] at hless
        change layout.rank task rank copy.block.id < layout.rank task rank out.dst.task
        rw [hdst out hsent, hcopy copy hmade]
        omega
    | @addend copy block hblock hmade =>
        change layout.rank task rank copy.block.id < layout.rank task rank block.id
        rw [haccumulator block hblock, hcopy copy hmade]
        exact Nat.lt_succ_self _
    | @sum block out hblock hout =>
        obtain ⟨hsent, hfrom⟩ := hcuts.mem_outputEdges_iff.mp hout
        have hless := hranked out hsent
        rw [hfrom] at hless
        change layout.rank task rank block.id < layout.rank task rank out.dst.task
        rw [hdst out hsent, haccumulator block hblock]
        omega
  · have hless := hranked edge hold
    rw [hsrc edge hold, hdst edge hold]
    omega

/-! Words. -/

private theorem bounded_payload (henacts : split.Enacts graph task vector plan layout after left)
    (hbounded : graph.Bounded) {role : SplitRole} (hrole : role ∈ layout.roles) :
    role.block.payload.Bounded := by
  have hcuts := henacts.cuts
  have hplanned := henacts.plans.planned
  have houtput := hcuts.output_elements_lt hbounded
  intro side extent hextent
  cases role with
  | copy copy =>
      have hcopy := SplitLayout.mem_roles_iff.mp hrole
      cases side
      · obtain ⟨port, hport⟩ := List.mem_iff_getElem?.mp hextent
        obtain ⟨required, hreads, rfl⟩ := (hcuts.shapes_copy hplanned hcopy).mp hport
        exact hreads.elements_lt hcuts hbounded hplanned hcopy
      · rw [SplitRole.block, hplanned.output_copy hcopy] at hextent
        obtain rfl := List.mem_singleton.mp hextent
        exact hcuts.yield_elements_lt hbounded (hplanned.part_mem hcopy)
  | operand copy feed operand =>
      obtain ⟨hcopy, hfeed, hoperand⟩ := SplitLayout.mem_roles_iff.mp hrole
      obtain ⟨storage, -, hpayload, -⟩ :=
        hplanned.operand_storage hcuts hcopy hfeed hoperand
      have hsent := hplanned.sent_elements_lt hcuts hbounded hcopy hfeed
      rw [SplitRole.block, hpayload] at hextent
      cases side <;> rwa [List.eq_of_mem_replicate hextent]
  | accumulator block =>
      have hblock := SplitLayout.mem_roles_iff.mp hrole
      obtain ⟨hinputs, houtputs⟩ := hplanned.shapes_accumulator hblock
      cases side
      · rw [SplitRole.block, hinputs] at hextent
        rwa [List.eq_of_mem_replicate hextent]
      · rw [SplitRole.block, houtputs] at hextent
        rwa [List.mem_singleton.mp hextent]

/-- What is carried to a block that was there ends where a word can say it. -/
private theorem bounded_carried (henacts : split.Enacts graph task vector plan layout after left)
    (hbounded : graph.Bounded) {edge : Edge} (hknown : graph.edge? edge.id = some edge)
    (side : PortSide) {here piece carried : Window} (hpart : piece.PartOf here)
    (hagrees : edge.isIdentity = true →
      here.size.agreesWith (edge.endAt side).window.size = true)
    (hcarry : Split.carry edge here piece (edge.endAt side).window = .ok carried)
    (hroom : ∃ extent, left.extent? side (edge.endAt side).task (edge.endAt side).port =
      some extent ∧ carried.within extent = true) : carried.Bounded := by
  obtain ⟨extent, hextent, hwithin⟩ := hroom
  have hthere := @Plans.room_old _ _ _ _ _ _ _ henacts.plans henacts.cuts.wellFormed
    henacts.replaced edge hknown side extent hextent
  exact Split.carry_bounded (hbounded.edge hknown side) hcarry hpart hagrees
    ((Window.within_sameAxes hwithin).trans (Window.within_sameAxes hthere).symm)

private theorem bounded_connection
    (henacts : split.Enacts graph task vector plan layout after left) (hbounded : graph.Bounded)
    {connection : Connection} (hmember : connection ∈ plan.edges) (side : PortSide) :
    (connection.endAt side).window.Bounded := by
  have hcuts := henacts.cuts
  have hgraph := hcuts.wellFormed
  have hplanned := henacts.plans.planned
  have hroom := (henacts.committed.joins _ hmember).room
  have hcomm := @Shape.agreesWith_comm
  cases henacts.mem_edges_iff.mp hmember with
  | @delivery copy feed hcopy hfeed =>
      obtain ⟨hknown, -⟩ := hplanned.known hcuts hcopy hfeed
      have hcommon := (Split.overlap?_eq_some (hplanned.piece hcuts hcopy hfeed)).1
      cases side
      · exact hcommon.bounded_localize
      · have hsent := ((hplanned.copies copy hcopy).feeds feed hfeed).sent
        have hsender := hroom .output
        change ∃ extent, left.extent? .output feed.src.task feed.src.port = some extent ∧
          feed.src.window.within extent = true at hsender
        change feed.src.window.Bounded
        unfold Feed.src at hsender ⊢
        cases hoperand : feed.operand with
        | none =>
            rw [hoperand] at hsender
            exact henacts.bounded_carried hbounded hknown .output hcommon.partOf_left
              (fun hidentity => (hcomm _ _).trans ((hgraph.edge_fits hknown).2 hidentity)) hsent
              hsender
        | some operand =>
            exact (Window.liesIn_full _).bounded
              (hplanned.sent_elements_lt hcuts hbounded hcopy hfeed)
  | upstream hcopy hfeed hoperand hknown hdst hpiece hsent =>
      have hcommon := (Split.overlap?_eq_some hpiece).1
      cases side
      · exact hcommon.bounded_localize
      · exact henacts.bounded_carried hbounded hknown .output hcommon.partOf_left
          (fun hidentity => (hcomm _ _).trans ((hgraph.edge_fits hknown).2 hidentity)) hsent
          (hroom .output)
  | output _ hcopy hedge hpiece hreceived =>
      have hcommon := (Split.overlap?_eq_some hpiece).1
      have hknown := (hcuts.mem_outputEdges_iff.mp hedge).1
      cases side
      · exact henacts.bounded_carried hbounded hknown .input hcommon.partOf_left
          (hgraph.edge_fits hknown).2 hreceived (hroom .input)
      · exact hcommon.bounded_localize
  | addend _ hcopy =>
      have hpart := hplanned.part_mem hcopy
      cases side
      · exact hcuts.yield_bounded hbounded hpart
      · exact (Window.liesIn_full _).bounded (hcuts.yield_elements_lt hbounded hpart)
  | sum _ hedge =>
      have hknown := (hcuts.mem_outputEdges_iff.mp hedge).1
      cases side
      · exact hbounded.edge hknown .input
      · exact hbounded.edge hknown .output

/-! Inputs. -/

theorem fed_copy (henacts : split.Enacts graph task vector plan layout after left)
    (hvalid : graph.Valid) {copy : SplitCopy} (hcopy : copy ∈ layout.copies) {index : Nat}
    {extent : Shape} (hextent : left.extent? .input copy.block.id index = some extent)
    {element : Datum} (hfull : (Window.full extent).Covers element) :
    ∃! edge, left.Feeds edge copy.block.id index element := by
  have hshape := @Plans.extent_new _ _ _ _ _ henacts.plans _ _ henacts.replaced _
    (SplitLayout.copy_mem_roles hcopy) .input index
  obtain ⟨required, hreads, rfl⟩ :=
    (henacts.cuts.shapes_copy henacts.plans.planned hcopy).mp (hshape.symm.trans hextent)
  obtain ⟨feed, -, -, -, -, hfed⟩ := henacts.fedBy_delivery hvalid hcopy hreads hfull
  exact hfed.existsUnique

theorem fed_operand (henacts : split.Enacts graph task vector plan layout after left)
    (hvalid : graph.Valid) (hkeeps : graph.OperandsKeepSpread task) {copy : SplitCopy} {feed : Feed}
    {operand : OperandCopy} (hcopy : copy ∈ layout.copies) (hfeed : feed ∈ copy.feeds)
    (hoperand : feed.operand = some operand) {index : Nat} {extent : Shape}
    (hextent : left.extent? .input operand.block.id index = some extent) {element : Datum}
    (hfull : (Window.full extent).Covers element) :
    ∃! edge, left.Feeds edge operand.block.id index element := by
  have hcuts := henacts.cuts
  have hplanned := henacts.plans.planned
  obtain ⟨hmember, -⟩ := ((hplanned.copies copy hcopy).feeds feed hfeed).operand operand hoperand
  rw [hcuts.operands] at hmember
  obtain ⟨storage, hstorage, hpayload, -⟩ :=
    hplanned.operand_storage hcuts hcopy hfeed hoperand
  have hshape := @Plans.extent_new _ _ _ _ _ henacts.plans _ _ henacts.replaced _
    (SplitLayout.operand_mem_roles hcopy hfeed hoperand) .input index
  rw [SplitRole.block, hextent, hpayload] at hshape
  obtain ⟨hport, hsize⟩ := List.getElem?_eq_some_iff.mp hshape.symm
  change index < (List.replicate storage.kind.inputPorts feed.sent.size).length at hport
  rw [List.length_replicate] at hport
  obtain rfl : extent = feed.sent.size := by
    rw [← hsize]
    exact List.getElem_replicate _
  obtain ⟨hknown, -⟩ := hplanned.known hcuts hcopy hfeed
  have hwhole : graph.extent? .input feed.edge.src.task index = some storage.shape := by
    rw [hcuts.wellFormed.extent?_eq, hstorage, Option.bind_some]
    exact List.getElem?_replicate_of_lt hport
  have hfrom := henacts.keepsExtent hvalid hcopy hfeed hoperand hstorage hwhole
    (hkeeps feed.edge storage hknown hmember hstorage (Nat.zero_lt_of_lt hport))
  obtain ⟨edge, hfeeds, -⟩ := hvalid.tiled hwhole (feed.sent.lift element)
    (hplanned.sent_covers hstorage hcuts hvalid.bounded hcopy hfeed hfrom hfull)
  obtain ⟨piece, sent, -, -, -, hfed⟩ :=
    henacts.fedBy_upstream hvalid hcopy hfeed hoperand hstorage hfrom hfull hfeeds
  exact hfed.existsUnique

theorem fed_accumulator (henacts : split.Enacts graph task vector plan layout after left)
    {block : Block} (hblock : layout.accumulator = some block) {index : Nat} {extent : Shape}
    (hextent : left.extent? .input block.id index = some extent) {element : Datum}
    (hfull : (Window.full extent).Covers element) :
    ∃! edge, left.Feeds edge block.id index element := by
  have hplanned := henacts.plans.planned
  have hshape := @Plans.extent_new _ _ _ _ _ henacts.plans _ _ henacts.replaced _
    (SplitLayout.accumulator_mem_roles hblock) .input index
  rw [SplitRole.block, hextent, (hplanned.shapes_accumulator hblock).1] at hshape
  obtain ⟨hport, hsize⟩ := List.getElem?_eq_some_iff.mp hshape.symm
  rw [List.length_replicate] at hport
  rw [List.getElem_replicate] at hsize
  subst hsize
  have hcut := (hplanned.addends henacts.cuts hblock).2
  have haddend : index < split.factors.r :=
    hport.trans_eq (Nat.max_eq_left (Nat.le_of_lt hcut))
  obtain ⟨copy, -, -, hfed⟩ := henacts.fedBy_addend hblock haddend hfull
  exact hfed.existsUnique

theorem fed_kept (henacts : split.Enacts graph task vector plan layout after left)
    (hvalid : graph.Valid)
    (hyields : split.reduces = true ∨ split.factors.r = 1 ∨ split.outputEdges graph = [])
    {other : TaskId} (hother : other ∉ split.gone task) {index : Nat} {extent : Shape}
    (hextent : graph.extent? .input other index = some extent) {element : Datum}
    (hfull : (Window.full extent).Covers element) :
    ∃! edge, left.Feeds edge other index element := by
  have hplanned := henacts.plans.planned
  obtain ⟨edge, hfeeds, -⟩ := hvalid.tiled hextent element hfull
  by_cases hsrc : edge.src.task = task
  · cases haccumulator : layout.accumulator with
    | some block => exact (henacts.fedBy_sum hvalid haccumulator hfeeds hsrc).existsUnique
    | none =>
        rcases hyields with hreduces | hone | hnone
        · have hsome := hplanned.reduces
          rw [haccumulator, hreduces] at hsome
          cases hsome
        · obtain ⟨_, -, _, _, -, -, hfed⟩ := henacts.fedBy_output hvalid hone hfeeds hsrc
          exact hfed.existsUnique
        · have hedge := henacts.cuts.mem_outputEdges_iff.mpr ⟨hfeeds.known, hsrc⟩
          rw [hnone] at hedge
          cases hedge
  · obtain ⟨hleft, honly⟩ := henacts.feeds_kept hvalid hother hfeeds hsrc
    exact ⟨edge, hleft, honly⟩

/-- What stands under a number now is new, or stood there and has not given way. -/
theorem payload_cases (henacts : split.Enacts graph task vector plan layout after left)
    {other : TaskId} {payload : Payload} (hpayload : left.payload? other = some payload) :
    (∃ role ∈ layout.roles, role.block.id = other) ∨
      other ∉ split.gone task ∧ graph.payload? other = some payload := by
  by_cases hrole : ∃ role ∈ layout.roles, role.block.id = other
  · exact Or.inl hrole
  · have hold : ∀ block ∈ plan.blocks, block.id ≠ other := by
      intro block hblock hid
      have hmember := henacts.plans.numbered.blocks.mem_iff.mp (List.mem_map_of_mem hblock)
      exact hrole (henacts.plans.mem_created_iff.mp (hid ▸ hmember))
    rw [henacts.replaced.others other hold] at hpayload
    exact Or.inr (Option.ite_none_left_eq_some.mp hpayload)

/-- Carrying out a plan leads to a graph whose numbers are words, if they were. -/
theorem bounded_left (henacts : split.Enacts graph task vector plan layout after left)
    (hbounded : graph.Bounded) : left.Bounded where
  block := by
    intro other block hblock
    have hpayload : left.payload? other = some block.payload :=
      TaskGraph.payload?_eq_some_iff.mpr ⟨block, hblock, rfl⟩
    rcases henacts.payload_cases hpayload with ⟨role, hrole, rfl⟩ | ⟨-, hold⟩
    · obtain hsame := (henacts.payload_role hrole).symm.trans hpayload
      rw [← Option.some.inj hsame]
      exact henacts.bounded_payload hbounded hrole
    · exact hbounded.payload hold
  edge := by
    intro id edge hedge side
    obtain rfl := henacts.replaced.wellFormed.edge_id hedge
    rcases henacts.edge_cases hedge with hmember | ⟨hknown, -⟩
    · exact henacts.bounded_connection hbounded hmember side
    · exact hbounded.edge hknown side

/-- Carrying out a plan leads to a valid graph. -/
theorem valid_left (henacts : split.Enacts graph task vector plan layout after left)
    (hvalid : graph.Valid) (hkeeps : graph.OperandsKeepSpread task)
    (hyields : split.reduces = true ∨ split.factors.r = 1 ∨ split.outputEdges graph = []) :
    left.Valid := by
  have hgraph := henacts.cuts.wellFormed
  have hnumbered := henacts.plans.numbered
  have hnext := henacts.committed.next
  have hlater : graph.ids.next ≤ left.ids.next := by
    have hfirst := hnumbered.next
    omega
  constructor
  case bounded => exact henacts.bounded_left hvalid.bounded
  case block_below =>
    intro other block hblock
    have hpayload : left.payload? other = some block.payload :=
      TaskGraph.payload?_eq_some_iff.mpr ⟨block, hblock, rfl⟩
    rcases henacts.payload_cases hpayload with ⟨role, hrole, rfl⟩ | ⟨-, hold⟩
    · have hbelow := (hnumbered.id_mem_range (henacts.plans.block_mem hrole)).2
      omega
    · obtain ⟨old, hknown, -⟩ := TaskGraph.payload?_eq_some_iff.mp hold
      have hbelow := hvalid.block_below hknown
      omega
  case edge_below =>
    intro id edge hedge
    obtain rfl := henacts.replaced.wellFormed.edge_id hedge
    have hrange := (henacts.committed.edge edge).mp hedge
    split at hrange
    case isTrue hnew => omega
    case isFalse =>
      have hbelow := hvalid.edge_below hrange.1
      omega
  case tiled =>
    intro other index extent hextent element hfull
    have hshape := hextent
    rw [henacts.replaced.wellFormed.extent?_eq] at hshape
    obtain ⟨payload, hpayload, hshape⟩ := Option.bind_eq_some_iff.mp hshape
    rcases henacts.payload_cases hpayload with ⟨role, hrole, rfl⟩ | ⟨hkept, hold⟩
    · cases role with
      | copy copy =>
          exact henacts.fed_copy hvalid (SplitLayout.mem_roles_iff.mp hrole) hextent hfull
      | operand copy feed operand =>
          obtain ⟨hcopy, hfeed, hoperand⟩ := SplitLayout.mem_roles_iff.mp hrole
          exact henacts.fed_operand hvalid hkeeps hcopy hfeed hoperand hextent hfull
      | accumulator block =>
          exact henacts.fed_accumulator (SplitLayout.mem_roles_iff.mp hrole) hextent hfull
    · refine henacts.fed_kept hvalid hyields hkept ?_ hfull
      rw [hgraph.extent?_eq, hold]
      exact hshape
  case ranked =>
    obtain ⟨rank, hranked⟩ := hvalid.ranked
    exact ⟨_, henacts.ranked hranked⟩

end Split.Enacts

namespace TaskGraph

/-- Splits that return keep a graph valid whose numbers are words, if operands that are fed
themselves send along the axes of their data and no two parts yield the same output. -/
theorem split_validate {graph left : TaskGraph} {task : TaskId} {vector : SplitVector}
    {created : List TaskId} {computation : Computation} (hgraph : graph.Reachable)
    (hbounded : graph.Bounded) (hvalid : graph.validate = .ok ())
    (hpayload : graph.payload? task = some (.computation computation))
    (hkeeps : graph.OperandsKeepSpread task)
    (hyields : computation.operation.isReduction = true ∨
      computation.allowedParts .r vector.r = .ok 1 ∨ graph.outputEdges task = [])
    (hsplit : split task vector graph = .ok created left) (hids : left.ids.next ≤ largestId) :
    left.validate = .ok () := by
  obtain ⟨-, hwellFormed⟩ := hgraph.wellFormed
  obtain ⟨split, hcuts, hdone⟩ :=
    (ends_split hwellFormed hgraph.grouped task vector).of_ok hsplit hids
  rcases hdone with ⟨-, -, rfl⟩ | ⟨plan, layout, after, hplans, -, hcommitted⟩
  · exact hvalid
  · have henacts : split.Enacts graph task vector plan layout after left :=
      ⟨hcuts, hplans, hcommitted, hwellFormed.id_below hvalid⟩
    have hpassed := (hwellFormed.validate_ok_iff hbounded).mp hvalid
    refine (hcommitted.wellFormed.validate_ok_iff (henacts.bounded_left hbounded)).mpr
      (henacts.valid_left hpassed hkeeps ?_)
    have hsame : computation = split.computation := by
      rw [payload?, hcuts.block, Option.map_some, hcuts.payload] at hpayload
      exact (Payload.computation.inj (Option.some.inj hpayload)).symm
    rw [hsame] at hyields
    rcases hyields with hreduction | hallowed | hnone
    · by_cases hcut : 1 < split.factors.r
      · exact Or.inl (Bool.and_eq_true_iff.mpr ⟨decide_eq_true hcut, hreduction⟩)
      · have hpositive : 0 < split.factors.r :=
          (Computation.divides_of_effectiveFactors hcuts.factors).pos .r
        exact Or.inr (Or.inl (by omega))
    · have hfactor : split.computation.allowedParts .r vector.r = .ok split.factors.r :=
        Computation.of_effectiveFactors hcuts.factors .r (by decide)
      rw [hallowed] at hfactor
      exact Or.inr (Or.inl (Except.ok.inj hfactor).symm)
    · refine Or.inr (Or.inr (List.eq_nil_iff_forall_not_mem.mpr fun edge hedge => ?_))
      have hmember := hwellFormed.mem_outputEdges_iff.mpr (hcuts.mem_outputEdges_iff.mp hedge)
      rw [hnone] at hmember
      cases hmember

/-- Four channels that are stored before a computation reads them. -/
def storedChannels : TaskGraph :=
  (empty 0).runAll [
    .addStorage ⟨.input, .vector 4, .int8⟩,
    .addStorage ⟨.activation, .vector 4, .int8⟩,
    .addComputation ⟨.vectorShift 0, .vector 4, .int8, .absent⟩,
    .addStorage ⟨.output, .vector 4, .int8⟩,
    .connectWhole ⟨0⟩ ⟨1⟩ 0,
    .connectWhole ⟨1⟩ ⟨2⟩ 0,
    .connectWhole ⟨2⟩ ⟨3⟩ 0]

theorem reachable_storedChannels : storedChannels.Reachable :=
  (Reachable.empty (Nat.zero_le _)).runAll (by simp [Command.Admits]) (by decide +kernel)

theorem keepsAxes_storedChannels {edge : Edge}
    (hknown : storedChannels.edge? edge.id = some edge) : edge.KeepsAxes := by
  have hall : ∀ edge ∈ storedChannels.edges.values, edge.KeepsAxes := by decide +kernel
  exact hall edge (reachable_storedChannels.wellFormed.2.mem_edges_iff.mpr hknown)

theorem split_validate_storedChannels :
    ∃ created left, split ⟨2⟩ ⟨1, 1, 2, 1⟩ storedChannels = .ok created left ∧
      left.validate = .ok () := by
  have hreturns : fails (split ⟨2⟩ ⟨1, 1, 2, 1⟩) storedChannels = false := by decide +kernel
  obtain ⟨created, hsplit⟩ := run_eq_ok hreturns
  have hpayload : storedChannels.payload? ⟨2⟩ =
      some (.computation ⟨.vectorShift 0, .vector 4, .int8, .absent⟩) := by decide +kernel
  have hkeeps : storedChannels.OperandsKeepSpread ⟨2⟩ :=
    reachable_storedChannels.wellFormed.2.operandsKeepSpread
      fun _ hknown _ => keepsAxes_storedChannels hknown
  exact ⟨created, _, hsplit, split_validate reachable_storedChannels (by decide +kernel)
    (by decide +kernel) hpayload hkeeps (Or.inr (Or.inl rfl)) hsplit (by decide +kernel)⟩

/-- Rows that are stored before a computation reads them as channels. -/
def renamedOperand : TaskGraph :=
  (empty 0).runAll [
    .addStorage ⟨.input, { y := 4 }, .int8⟩,
    .addStorage ⟨.activation, { y := 4 }, .int8⟩,
    .addComputation ⟨.vectorShift 0, .vector 4, .int8, .absent⟩,
    .addStorage ⟨.output, .vector 4, .int8⟩,
    .connect ⟨⟨⟨0⟩, 0, .full { y := 4 }⟩, ⟨⟨1⟩, 0, .full { y := 4 }⟩, []⟩,
    .connect ⟨⟨⟨1⟩, 0, .full { y := 4 }⟩, ⟨⟨2⟩, 0, .full (.vector 4)⟩, []⟩,
    .connectWhole ⟨2⟩ ⟨3⟩ 0]

/-- Two columns that are stored one by one, of which a computation reads the second. -/
def chosenColumn : TaskGraph :=
  (empty 0).runAll [
    .addStorage ⟨.input, .vector 2, .int8⟩,
    .addStorage ⟨.input, .vector 2, .int8⟩,
    .addStorage ⟨.activation, { x := 2, f := 2 }, .int8⟩,
    .addComputation ⟨.vectorShift 0, .vector 2, .int8, .absent⟩,
    .addStorage ⟨.output, .vector 2, .int8⟩,
    .connect ⟨⟨⟨0⟩, 0, .full (.vector 2)⟩, ⟨⟨2⟩, 0, ⟨.zero, { x := 1, f := 2 }⟩⟩, []⟩,
    .connect ⟨⟨⟨1⟩, 0, .full (.vector 2)⟩, ⟨⟨2⟩, 0, ⟨{ x := 1 }, { x := 1, f := 2 }⟩⟩, []⟩,
    .connect ⟨⟨⟨2⟩, 0, ⟨{ x := 1 }, { x := 1, f := 2 }⟩⟩, ⟨⟨3⟩, 0, .full (.vector 2)⟩, []⟩,
    .connectWhole ⟨3⟩ ⟨4⟩ 0]

/-- A computation that has a second axis but yields the same along all of it. -/
def repeatedOutput : TaskGraph :=
  (empty 0).runAll [
    .addStorage ⟨.input, .vector 4, .int8⟩,
    .addComputation ⟨.vectorShift 0, { f := 4, r := 2 }, .int8, .absent⟩,
    .addStorage ⟨.output, .vector 4, .int8⟩,
    .connectWhole ⟨0⟩ ⟨1⟩ 0,
    .connectWhole ⟨1⟩ ⟨2⟩ 0]

/-- A computation on three rows, each half as many elements as there are words, that is fed one of
them: in words the three have as many elements as the one. -/
def firstRowOfThree : TaskGraph :=
  (empty 0).runAll [
    .addStorage ⟨.input, { y := 1, f := 2 ^ 63 }, .int8⟩,
    .addComputation ⟨.vectorShift 0, { y := 3, f := 2 ^ 63 }, .int8, .absent⟩,
    .addStorage ⟨.output, { y := 3, f := 2 ^ 63 }, .int8⟩,
    .connect ⟨⟨⟨0⟩, 0, .full { y := 1, f := 2 ^ 63 }⟩, ⟨⟨1⟩, 0, .full { y := 1, f := 2 ^ 63 }⟩,
      []⟩,
    .connectWhole ⟨1⟩ ⟨2⟩ 0]

/-- Splitting a block of the valid graph returns a graph that is not valid. -/
def SplitBreaks (graph : TaskGraph) (task : TaskId) (vector : SplitVector) : Prop :=
  ∃ created left, graph.Reachable ∧ graph.validate = .ok () ∧
    split task vector graph = .ok created left ∧ left.ids.next ≤ largestId ∧
      left.validate ≠ .ok ()

theorem splitBreaks_runAll {commands : List Command} {task : TaskId} {vector : SplitVector}
    (hadmits : ∀ command ∈ commands, command.Admits)
    (hids : ∀ count ≤ commands.length,
      ((empty 0).runAll (commands.take count)).ids.next ≤ largestId)
    (hvalid : ((empty 0).runAll commands).validate = .ok ())
    (hreturns : fails (split task vector) ((empty 0).runAll commands) = false)
    (hleft : (after (split task vector) ((empty 0).runAll commands)).ids.next ≤ largestId)
    (hinvalid : (after (split task vector) ((empty 0).runAll commands)).validate ≠ .ok ()) :
    ((empty 0).runAll commands).SplitBreaks task vector := by
  obtain ⟨created, hsplit⟩ := run_eq_ok hreturns
  have hreachable := (Reachable.empty (Nat.zero_le _)).runAll hadmits hids
  exact ⟨created, _, hreachable, hvalid, hsplit, hleft, hinvalid⟩

/-- Without these conditions the copies of an operand may be fed less than they hold or several
times over, and what the copies yield may overlap; numbers that are no words let less pass for the
whole. -/
theorem split_invalidates :
    renamedOperand.SplitBreaks ⟨2⟩ ⟨1, 1, 2, 1⟩ ∧ chosenColumn.SplitBreaks ⟨3⟩ ⟨1, 1, 2, 1⟩ ∧
      repeatedOutput.SplitBreaks ⟨1⟩ ⟨1, 1, 1, 2⟩ ∧
        firstRowOfThree.SplitBreaks ⟨1⟩ ⟨3, 1, 1, 1⟩ := by
  refine ⟨?_, ?_, ?_, ?_⟩ <;>
    exact splitBreaks_runAll (by simp [Command.Admits]) (by decide +kernel) (by decide +kernel)
      (by decide +kernel) (by decide +kernel) (by decide +kernel)

end TaskGraph

end TiledPlacement
