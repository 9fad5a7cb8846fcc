import TiledPlacement.Proofs.Split.Feeding
import TiledPlacement.Proofs.Split.Run

/-!
Connections that find their place. Of what a new connection must satisfy, a plan guarantees
everything but two things: that the split does not remove a block at its ends, and that its windows
lie in the ports that they are windows of. As long as volumes and ends are words, windows do so that
have the axes of their ports.
-/

namespace TiledPlacement

namespace Shape

theorem agreesWith_comm (left right : Shape) : left.agreesWith right = right.agreesWith left := by
  unfold agreesWith comparable
  refine congrArg Axis.logical.all (funext fun axis => ?_)
  dsimp only
  rw [Bool.and_comm, decide_eq_decide.mpr (@eq_comm _ (left.get axis) (right.get axis))]

theorem agreesWith_self (shape : Shape) : shape.agreesWith shape = true := by
  refine List.all_eq_true.mpr fun axis _ => ?_
  dsimp only
  rw [decide_eq_true rfl, Bool.or_true]

end Shape

namespace Window

/-- A port suits a window that passes its bounds check. -/
def HasRoom (window : Window) (extent : Shape) : Prop := window.within extent = true

/-- A port suits a window with its axes. -/
def HasAxes (window : Window) (extent : Shape) : Prop := window.size.SameAxes extent

end Window

namespace TaskGraph

/-- Both ends of the connection name ports of the graph that suit its windows. -/
def Places (graph : TaskGraph) (suits : Window → Shape → Prop) (connection : Connection) : Prop :=
  ∀ side, ∃ extent,
    graph.extent? side (connection.endAt side).task (connection.endAt side).port = some extent ∧
      suits (connection.endAt side).window extent

theorem Joins.places {graph : TaskGraph} {connection : Connection}
    (hjoins : graph.Joins connection) : graph.Places Window.HasAxes connection := by
  intro side
  obtain ⟨extent, hextent, hwithin⟩ := hjoins.room side
  exact ⟨extent, hextent, Window.within_sameAxes hwithin⟩

end TaskGraph

namespace Connection

theorem fits_of_sizes {src dst : Endpoint} {rearrange : List Rearrangement}
    (hvolume : src.window.volume = dst.window.volume)
    (hsize : (Connection.mk src dst rearrange).isIdentity = true →
      src.window.size = dst.window.size) : (Connection.mk src dst rearrange).Fits := by
  refine ⟨hvolume, fun hidentity => ?_⟩
  change src.window.size.agreesWith dst.window.size = true
  rw [hsize hidentity]
  exact Shape.agreesWith_self _

end Connection

namespace Split

open TaskGraph

variable {split : Split} {graph left : TaskGraph} {task : TaskId} {vector : SplitVector}
  {plan : SplitPlan} {layout : SplitLayout} {after : IdSource} {gone : List TaskId}

/-- A port that an edge named and that is still there has room for the window of the edge. -/
theorem Plans.room_old (hplans : split.Plans graph plan layout after)
    (hgraph : graph.WellFormed) (hleft : graph.Replaced gone plan left) {edge : Edge}
    (hknown : graph.edge? edge.id = some edge) {side : PortSide} {extent : Shape}
    (hextent : left.extent? side (edge.endAt side).task (edge.endAt side).port = some extent) :
    (edge.endAt side).window.within extent = true := by
  obtain ⟨before, hbefore, hwithin⟩ := hgraph.window_within hknown side
  have hpayload : ∃ payload, graph.payload? (edge.endAt side).task = some payload := by
    rw [hgraph.extent?_eq] at hbefore
    obtain ⟨payload, hpayload, -⟩ := Option.bind_eq_some_iff.mp hbefore
    exact ⟨payload, hpayload⟩
  obtain ⟨payload, hpayload⟩ := hpayload
  rw [hplans.extent_old hgraph hleft hpayload] at hextent
  split at hextent
  case isTrue => cases hextent
  case isFalse =>
    obtain rfl := Option.some.inj (hbefore.symm.trans hextent)
    exact hwithin

theorem Plans.new_ne_end (hplans : split.Plans graph plan layout after)
    (hgraph : graph.WellFormed) {role : SplitRole} (hrole : role ∈ layout.roles) {edge : Edge}
    (hknown : graph.edge? edge.id = some edge) (side : PortSide) :
    role.block.id ≠ (edge.endAt side).task := by
  intro hsame
  obtain ⟨extent, hextent, -⟩ := hgraph.window_within hknown side
  rw [hgraph.extent?_eq, ← hsame, hplans.payload?_new hgraph hrole] at hextent
  cases hextent

theorem Plans.extent_feed (hplans : split.Plans graph plan layout after)
    (hcuts : split.Cuts graph task vector) (hleft : graph.Replaced gone plan left)
    {copy : SplitCopy} {feed : Feed} (hcopy : copy ∈ layout.copies) (hfeed : feed ∈ copy.feeds) :
    left.extent? .input copy.block.id feed.port = some feed.required.size := by
  have hrole := SplitLayout.copy_mem_roles hcopy
  have hextent := hplans.extent_new hleft hrole .input feed.port
  refine hextent.trans ?_
  exact (hcuts.shapes_copy hplans.planned hcopy).mpr
    ⟨feed.required, hplans.planned.reads hcuts hcopy hfeed, rfl⟩

theorem Plans.extent_output (hplans : split.Plans graph plan layout after)
    (hleft : graph.Replaced gone plan left) {copy : SplitCopy} (hcopy : copy ∈ layout.copies) :
    left.extent? .output copy.block.id 0 = some (split.yield copy.part).size := by
  have hextent := hplans.extent_new hleft (SplitLayout.copy_mem_roles hcopy) .output 0
  refine hextent.trans ?_
  rw [SplitRole.block, hplans.planned.output_copy hcopy]
  rfl

theorem Plans.extent_accumulator (hplans : split.Plans graph plan layout after)
    (hleft : graph.Replaced gone plan left) {block : Block}
    (hblock : layout.accumulator = some block) :
    left.extent? .output block.id 0 = some (Computation.output.shape split.computation.shape) := by
  have hextent := hplans.extent_new hleft (SplitLayout.accumulator_mem_roles hblock) .output 0
  refine hextent.trans ?_
  rw [SplitRole.block, (hplans.planned.shapes_accumulator hblock).2]
  rfl

theorem Plans.extent_operand (hplans : split.Plans graph plan layout after)
    (hcuts : split.Cuts graph task vector) (hleft : graph.Replaced gone plan left)
    {copy : SplitCopy} {feed : Feed} {operand : OperandCopy} (hcopy : copy ∈ layout.copies)
    (hfeed : feed ∈ copy.feeds) (hoperand : feed.operand = some operand) {side : PortSide}
    {index : Nat} {extent : Shape}
    (hextent : left.extent? side operand.block.id index = some extent) :
    extent = feed.sent.size := by
  obtain ⟨storage, -, hpayload, -⟩ := hplans.planned.operand_storage hcuts hcopy hfeed hoperand
  have hblock := hleft.made _ (hplans.block_mem
    (SplitLayout.operand_mem_roles hcopy hfeed hoperand))
  rw [SplitRole.block, hpayload] at hblock
  exact hleft.wellFormed.extent?_storage hblock hextent

/-- A planned connection joins two blocks, and its windows may be joined. -/
theorem Plans.apart_fits (hcuts : split.Cuts graph task vector)
    (hplans : split.Plans graph plan layout after) {connection : Connection}
    (hmember : connection ∈ plan.edges) :
    connection.src.task ≠ connection.dst.task ∧ connection.Fits := by
  have hgraph := hcuts.wellFormed
  have hplanned := hplans.planned
  cases (hplans.mem_edges_iff hgraph).mp hmember with
  | @delivery copy feed hcopy hfeed =>
      have hrole := SplitLayout.copy_mem_roles hcopy
      obtain ⟨hknown, -⟩ := hplanned.known hcuts hcopy hfeed
      have hsent := ((hplanned.copies copy hcopy).feeds feed hfeed).sent
      obtain ⟨hvolume, hsize⟩ := Split.carry_volume hsent (hgraph.edge_fits hknown).1.symm
      unfold Feed.delivery Feed.src
      cases hoperand : feed.operand with
      | none =>
          exact ⟨(hplans.new_ne_end hgraph hrole hknown .output).symm,
            Connection.fits_of_sizes hvolume hsize⟩
      | some operand =>
          have hother := SplitLayout.operand_mem_roles hcopy hfeed hoperand
          exact ⟨fun hid => (nomatch hplans.role_unique hother hrole hid),
            Connection.fits_of_sizes hvolume hsize⟩
  | upstream hcopy hfeed hoperand hknown hdst hpiece hsent =>
      have hrole := SplitLayout.operand_mem_roles hcopy hfeed hoperand
      obtain ⟨hvolume, hsize⟩ := Split.carry_volume hsent (hgraph.edge_fits hknown).1.symm
      exact ⟨(hplans.new_ne_end hgraph hrole hknown .output).symm,
        Connection.fits_of_sizes hvolume hsize⟩
  | output hnone hcopy hedge hpiece hreceived =>
      obtain ⟨hknown, -⟩ := hcuts.mem_outputEdges_iff.mp hedge
      obtain ⟨hvolume, hsize⟩ := Split.carry_volume hreceived (hgraph.edge_fits hknown).1
      exact ⟨hplans.new_ne_end hgraph (SplitLayout.copy_mem_roles hcopy) hknown .input,
        Connection.fits_of_sizes hvolume.symm fun hidentity => (hsize hidentity).symm⟩
  | addend hblock hcopy =>
      have hrole := SplitLayout.accumulator_mem_roles hblock
      exact ⟨fun hid => (nomatch hplans.role_unique (SplitLayout.copy_mem_roles hcopy) hrole hid),
        Connection.fits_of_sizes rfl fun _ => rfl⟩
  | sum hblock hedge =>
      obtain ⟨hknown, -⟩ := hcuts.mem_outputEdges_iff.mp hedge
      exact ⟨hplans.new_ne_end hgraph (SplitLayout.accumulator_mem_roles hblock) hknown .input,
        hgraph.edge_fits hknown⟩

/-- A planned connection is refused exactly when a port has no room for its window. -/
theorem Plans.joins_iff_hasRoom (hcuts : split.Cuts graph task vector)
    (hplans : split.Plans graph plan layout after) {connection : Connection}
    (hmember : connection ∈ plan.edges) :
    left.Joins connection ↔ left.Places Window.HasRoom connection := by
  obtain ⟨hapart, hfits⟩ := hplans.apart_fits hcuts hmember
  exact ⟨Joins.room, fun hroom => ⟨hapart, hroom, hfits⟩⟩

private theorem room_delivery (hcuts : split.Cuts graph task vector)
    (hbounded : graph.Bounded) (hplans : split.Plans graph plan layout after)
    (hleft : graph.Replaced gone plan left) {copy : SplitCopy} {feed : Feed}
    (hcopy : copy ∈ layout.copies) (hfeed : feed ∈ copy.feeds)
    (hplaced : left.Places Window.HasAxes (feed.delivery copy.block.id)) :
    left.Places Window.HasRoom (feed.delivery copy.block.id) := by
  have hgraph := hcuts.wellFormed
  have hplanned := hplans.planned
  obtain ⟨hknown, hnames⟩ := hplanned.known hcuts hcopy hfeed
  have hfits := hgraph.edge_fits hknown
  have hsent := ((hplanned.copies copy hcopy).feeds feed hfeed).sent
  obtain ⟨-, hright, houtside⟩ := hplanned.piece_inside hcuts hcopy hfeed
  have hreceived := Window.within_localize hright houtside
  have hroom : ∃ extent, left.extent? .input copy.block.id feed.port = some extent ∧
      (feed.required.localize feed.piece).within extent = true :=
    ⟨_, hplans.extent_feed hcuts hleft hcopy hfeed, hreceived⟩
  obtain ⟨extent, hextent, haxes⟩ := hplaced .output
  have hfrom : (feed.delivery copy.block.id).endAt .output = feed.src := rfl
  rw [hfrom] at hextent haxes
  unfold Feed.src at hextent haxes
  unfold Feed.delivery Feed.src
  cases hoperand : feed.operand with
  | none =>
      rw [hoperand] at hextent haxes
      dsimp only at hextent haxes ⊢
      have hwithin := hplans.room_old hgraph hleft hknown hextent
      have hcarried := Shape.SameAxes.trans haxes (Window.within_sameAxes hwithin).symm
      have hwindows := Split.carry_within (hbounded.edge hknown .output)
        (hplanned.piece hcuts hcopy hfeed) hsent
        (fun hidentity => (Shape.agreesWith_comm _ _).trans (hfits.2 hidentity))
        (Window.sameAxes_of_spans hright.spans) hcarried
      intro side
      cases side
      · exact hroom
      · exact ⟨extent, hextent, hwindows.2 extent hwithin⟩
  | some operand =>
      rw [hoperand] at hextent haxes
      dsimp only at hextent haxes ⊢
      obtain rfl := hplans.extent_operand hcuts hleft hcopy hfeed hoperand hextent
      intro side
      cases side
      · exact hroom
      · exact ⟨_, hextent, Window.within_full _⟩

private theorem room_upstream (hcuts : split.Cuts graph task vector)
    (hbounded : graph.Bounded) (hplans : split.Plans graph plan layout after)
    (hleft : graph.Replaced gone plan left) {copy : SplitCopy} {feed : Feed}
    {operand : OperandCopy} {edge : Edge} {piece sent : Window} (hcopy : copy ∈ layout.copies)
    (hfeed : feed ∈ copy.feeds) (hoperand : feed.operand = some operand)
    (hknown : graph.edge? edge.id = some edge)
    (hpiece : Split.overlap? edge.dst.window feed.sent = some piece)
    (hsent : Split.carry edge edge.dst.window piece edge.src.window = .ok sent)
    (hplaced : left.Places Window.HasAxes ⟨{ edge.src with window := sent },
      ⟨operand.block.id, edge.dst.port, feed.sent.localize piece⟩, edge.rearrange⟩) :
    left.Places Window.HasRoom ⟨{ edge.src with window := sent },
      ⟨operand.block.id, edge.dst.port, feed.sent.localize piece⟩, edge.rearrange⟩ := by
  have hgraph := hcuts.wellFormed
  have hfits := hgraph.edge_fits hknown
  obtain ⟨extent, hextent, haxes⟩ := hplaced .output
  obtain ⟨received, hreceived, hpieceAxes⟩ := hplaced .input
  obtain rfl := hplans.extent_operand hcuts hleft hcopy hfeed hoperand hreceived
  have hwithin := hplans.room_old hgraph hleft hknown hextent
  have hcarried := Shape.SameAxes.trans haxes (Window.within_sameAxes hwithin).symm
  have hwindows := Split.carry_within (hbounded.edge hknown .output) hpiece hsent
    (fun hidentity => (Shape.agreesWith_comm _ _).trans (hfits.2 hidentity)) hpieceAxes hcarried
  intro side
  cases side
  · exact ⟨_, hreceived, hwindows.1⟩
  · exact ⟨extent, hextent, hwindows.2 extent hwithin⟩

private theorem room_output (hcuts : split.Cuts graph task vector)
    (hbounded : graph.Bounded) (hplans : split.Plans graph plan layout after)
    (hleft : graph.Replaced gone plan left) {copy : SplitCopy} {edge : Edge}
    {piece received : Window} (hcopy : copy ∈ layout.copies)
    (hedge : edge ∈ split.outputEdges graph)
    (hpiece : Split.overlap? edge.src.window (split.yield copy.part) = some piece)
    (hreceived : Split.carry edge edge.src.window piece edge.dst.window = .ok received)
    (hplaced : left.Places Window.HasAxes
      ⟨⟨copy.block.id, 0, (split.yield copy.part).localize piece⟩,
        { edge.dst with window := received }, edge.rearrange⟩) :
    left.Places Window.HasRoom ⟨⟨copy.block.id, 0, (split.yield copy.part).localize piece⟩,
      { edge.dst with window := received }, edge.rearrange⟩ := by
  have hgraph := hcuts.wellFormed
  obtain ⟨hknown, hsrc⟩ := hcuts.mem_outputEdges_iff.mp hedge
  have hfits := hgraph.edge_fits hknown
  have hsame := hcuts.yield_sameAxes hknown hsrc (hplans.planned.part_mem hcopy)
  obtain ⟨hcommon, -⟩ := Split.overlap?_eq_some hpiece
  obtain ⟨extent, hextent, haxes⟩ := hplaced .input
  have hwithin := hplans.room_old hgraph hleft hknown hextent
  have hcarried := Shape.SameAxes.trans haxes (Window.within_sameAxes hwithin).symm
  have hwindows := Split.carry_within (hbounded.edge hknown .input) hpiece hreceived
    (fun hidentity => hfits.2 hidentity) (hcommon.sameAxes (.of_sameAxes hsame)) hcarried
  intro side
  cases side
  · exact ⟨extent, hextent, hwindows.2 extent hwithin⟩
  · exact ⟨_, hplans.extent_output hleft hcopy, hwindows.1⟩

private theorem room_addend (hcuts : split.Cuts graph task vector)
    (hplans : split.Plans graph plan layout after) (hleft : graph.Replaced gone plan left)
    {copy : SplitCopy} {block : Block} (hblock : layout.accumulator = some block)
    (hcopy : copy ∈ layout.copies) :
    left.Places Window.HasRoom
      (Split.addendEdge copy.block.id block.id copy.part.addend (split.yield copy.part)) := by
  have hrole := SplitLayout.accumulator_mem_roles hblock
  obtain ⟨hinputs, -⟩ := hplans.planned.shapes_accumulator hblock
  have haddend := hplans.planned.addend_lt hcuts hblock hcopy
  intro side
  cases side
  · refine ⟨Computation.output.shape split.computation.shape, ?_,
      (Split.yield_liesIn (hplans.planned.part_mem hcopy)).within⟩
    refine (hplans.extent_new hleft hrole .input copy.part.addend).trans ?_
    rw [SplitRole.block, hinputs]
    exact List.getElem?_replicate_of_lt (Nat.lt_of_lt_of_le haddend (Nat.le_max_left _ _))
  · exact ⟨_, hplans.extent_output hleft hcopy, Window.within_full _⟩

private theorem room_sum (hcuts : split.Cuts graph task vector)
    (hplans : split.Plans graph plan layout after) (hleft : graph.Replaced gone plan left)
    {block : Block} {edge : Edge} (hblock : layout.accumulator = some block)
    (hedge : edge ∈ split.outputEdges graph)
    (hplaced : left.Places Window.HasAxes
      { edge.connection with src := ⟨block.id, 0, edge.src.window⟩ }) :
    left.Places Window.HasRoom
      { edge.connection with src := ⟨block.id, 0, edge.src.window⟩ } := by
  obtain ⟨hknown, hsrc⟩ := hcuts.mem_outputEdges_iff.mp hedge
  obtain ⟨extent, hextent, -⟩ := hplaced .input
  intro side
  cases side
  · exact ⟨extent, hextent, hplans.room_old hcuts.wellFormed hleft hknown hextent⟩
  · exact ⟨_, hplans.extent_accumulator hleft hblock, hcuts.output_within hknown hsrc⟩

/-- As long as volumes and ends are words, a planned connection is refused only if a block at its
ends goes or its windows do not have the axes of their ports. -/
theorem Plans.joins_iff (hcuts : split.Cuts graph task vector) (hbounded : graph.Bounded)
    (hplans : split.Plans graph plan layout after) (hleft : graph.Replaced gone plan left)
    {connection : Connection} (hmember : connection ∈ plan.edges) :
    left.Joins connection ↔ left.Places Window.HasAxes connection := by
  refine ⟨Joins.places, fun hplaced => (hplans.joins_iff_hasRoom hcuts hmember).mpr ?_⟩
  cases (hplans.mem_edges_iff hcuts.wellFormed).mp hmember with
  | delivery hcopy hfeed => exact room_delivery hcuts hbounded hplans hleft hcopy hfeed hplaced
  | upstream hcopy hfeed hoperand hknown hdst hpiece hsent =>
      exact room_upstream hcuts hbounded hplans hleft hcopy hfeed hoperand hknown hpiece hsent
        hplaced
  | output hnone hcopy hedge hpiece hreceived =>
      exact room_output hcuts hbounded hplans hleft hcopy hedge hpiece hreceived hplaced
  | addend hblock hcopy => exact room_addend hcuts hplans hleft hblock hcopy
  | sum hblock hedge => exact room_sum hcuts hplans hleft hblock hedge hplaced

/-! Where nothing is refused. -/

/-- The end of an edge at a block that stays is a place for what has the axes of its window. -/
theorem Plans.place_old (hplans : split.Plans graph plan layout after)
    (hgraph : graph.WellFormed) (hleft : graph.Replaced gone plan left) (side : PortSide)
    {edge : Edge} (hknown : graph.edge? edge.id = some edge)
    (hstays : (edge.endAt side).task ∉ gone) {window : Window}
    (hsame : window.size.SameAxes (edge.endAt side).window.size) :
    ∃ extent, left.extent? side (edge.endAt side).task (edge.endAt side).port = some extent ∧
      window.size.SameAxes extent := by
  obtain ⟨extent, hextent, hwithin⟩ := hgraph.window_within hknown side
  obtain ⟨payload, hpayload, -⟩ :=
    Option.bind_eq_some_iff.mp ((hgraph.extent?_eq _ _ _).symm.trans hextent)
  refine ⟨extent, ?_, hsame.trans (Window.within_sameAxes hwithin)⟩
  rw [hplans.extent_old hgraph hleft hpayload, if_neg hstays]
  exact hextent

theorem Plans.place_operand (hplans : split.Plans graph plan layout after)
    (hcuts : split.Cuts graph task vector) (hleft : graph.Replaced gone plan left)
    {copy : SplitCopy} {feed : Feed} {operand : OperandCopy} (hcopy : copy ∈ layout.copies)
    (hfeed : feed ∈ copy.feeds) (hoperand : feed.operand = some operand) (side : PortSide)
    {edge : Edge} (hknown : graph.edge? edge.id = some edge)
    (hend : (edge.endAt side).task = feed.edge.src.task) :
    left.extent? side operand.block.id (edge.endAt side).port = some feed.sent.size := by
  obtain ⟨storage, hstorage, hpayload, -⟩ :=
    hplans.planned.operand_storage hcuts hcopy hfeed hoperand
  obtain ⟨extent, hextent, -⟩ := hcuts.wellFormed.window_within hknown side
  rw [hcuts.wellFormed.extent?_eq, hend, hstorage, Option.bind_some] at hextent
  have hshape := hplans.extent_new hleft (SplitLayout.operand_mem_roles hcopy hfeed hoperand) side
    (edge.endAt side).port
  rw [SplitRole.block, hpayload] at hshape
  refine hshape.trans ?_
  have hport := (List.getElem?_eq_some_iff.mp hextent).1
  cases side
  · refine List.getElem?_replicate_of_lt (hport.trans_eq ?_)
    exact List.length_replicate
  · refine List.getElem?_replicate_of_lt (hport.trans_eq ?_)
    exact List.length_replicate

/-- Data keeps its axes around the block and its operands, and the block feeds none of these. -/
structure Separable (graph : TaskGraph) (task : TaskId) : Prop where
  keeps : ∀ edge, graph.edge? edge.id = some edge →
    edge.src.task = task ∨ edge.dst.task = task ∨ edge.dst.task ∈ graph.operands task →
      edge.KeepsAxes
  forward : ∀ edge, graph.edge? edge.id = some edge → edge.src.task = task →
    edge.dst.task ∉ graph.operands task

theorem Cuts.mem_gone_iff (hcuts : split.Cuts graph task vector) {other : TaskId} :
    other ∈ split.gone task ↔ other ∈ graph.operands task ∨ other = task := by
  unfold gone
  rw [hcuts.operands, List.mem_append, List.mem_singleton]

theorem Cuts.receiver_stays (hcuts : split.Cuts graph task vector)
    (hseparable : Separable graph task) {edge : Edge} (hedge : edge ∈ split.outputEdges graph) :
    edge.dst.task ∉ split.gone task := by
  obtain ⟨hknown, hsrc⟩ := hcuts.mem_outputEdges_iff.mp hedge
  intro hgone
  rcases hcuts.mem_gone_iff.mp hgone with hoperand | htask
  · exact hseparable.forward edge hknown hsrc hoperand
  · exact hcuts.wellFormed.edge_apart hknown (hsrc.trans htask.symm)

private theorem places_delivery (hcuts : split.Cuts graph task vector)
    (hbounded : graph.Bounded) (hplans : split.Plans graph plan layout after)
    (hleft : graph.Replaced (split.gone task) plan left) (hseparable : Separable graph task)
    {copy : SplitCopy} {feed : Feed} (hcopy : copy ∈ layout.copies) (hfeed : feed ∈ copy.feeds) :
    left.Places Window.HasAxes (feed.delivery copy.block.id) := by
  have hplanned := hplans.planned
  obtain ⟨hknown, hnames⟩ := hplanned.known hcuts hcopy hfeed
  obtain ⟨-, hrequired, -⟩ := hplanned.piece_inside hcuts hcopy hfeed
  have hkeeps := hseparable.keeps feed.edge hknown (Or.inr (Or.inl hnames.1))
  intro side
  cases side
  · exact ⟨_, hplans.extent_feed hcuts hleft hcopy hfeed,
      Window.sameAxes_of_spans hrequired.spans⟩
  · change ∃ extent, left.extent? .output feed.src.task feed.src.port = some extent ∧
      feed.src.window.size.SameAxes extent
    unfold Feed.src
    cases hoperand : feed.operand with
    | none =>
        have hshared := ((hplanned.copies copy hcopy).feeds feed hfeed).direct hoperand
        have hstays : feed.edge.src.task ∉ split.gone task := by
          rw [hcuts.mem_gone_iff, ← hcuts.operands]
          exact not_or.mpr ⟨hshared,
            fun hsrc => hcuts.wellFormed.edge_apart hknown (hsrc.trans hnames.1.symm)⟩
        have hinside := hplanned.sent_inside hcuts hbounded hcopy hfeed hkeeps
        exact hplans.place_old hcuts.wellFormed hleft .output hknown hstays
          (Window.sameAxes_of_spans hinside.spans)
    | some operand =>
        exact ⟨_, hplans.place_operand hcuts hleft hcopy hfeed hoperand .output hknown rfl,
          Shape.SameAxes.refl _⟩

private theorem places_upstream (hcuts : split.Cuts graph task vector)
    (hbounded : graph.Bounded) (hplans : split.Plans graph plan layout after)
    (hleft : graph.Replaced (split.gone task) plan left) (hseparable : Separable graph task)
    {copy : SplitCopy} {feed : Feed} {operand : OperandCopy} {edge : Edge} {piece sent : Window}
    (hcopy : copy ∈ layout.copies) (hfeed : feed ∈ copy.feeds)
    (hoperand : feed.operand = some operand) (hknown : graph.edge? edge.id = some edge)
    (hdst : edge.dst.task = feed.edge.src.task)
    (hpiece : Split.overlap? edge.dst.window feed.sent = some piece)
    (hsent : Split.carry edge edge.dst.window piece edge.src.window = .ok sent) :
    left.Places Window.HasAxes ⟨{ edge.src with window := sent },
      ⟨operand.block.id, edge.dst.port, feed.sent.localize piece⟩, edge.rearrange⟩ := by
  have hgraph := hcuts.wellFormed
  have hplanned := hplans.planned
  obtain ⟨hfed, hnames⟩ := hplanned.known hcuts hcopy hfeed
  have hkept := hseparable.keeps feed.edge hfed (Or.inr (Or.inl hnames.1))
  obtain ⟨hmember, -⟩ := ((hplanned.copies copy hcopy).feeds feed hfeed).operand operand hoperand
  rw [hcuts.operands, ← hdst] at hmember
  have hkeeps := hseparable.keeps edge hknown (Or.inr (Or.inr hmember))
  obtain ⟨storage, hstorage, -⟩ := hplanned.operand_storage hcuts hcopy hfeed hoperand
  have haxes := hplanned.upstream_sameAxes hcuts hbounded hcopy hfeed hkept hstorage hknown hdst
  have hcommon := (Split.overlap?_eq_some hpiece).1
  intro side
  cases side
  · exact ⟨_, hplans.place_operand hcuts hleft hcopy hfeed hoperand .input hknown hdst,
      Window.sameAxes_of_spans (hcommon.inside_right (.of_sameAxes haxes)).spans⟩
  · have hstays : edge.src.task ∉ split.gone task := by
      intro hgone
      rcases hcuts.mem_gone_iff.mp hgone with hsrc | hsrc
      · -- All that an operand sends goes to the cut block, which is not an operand of itself.
        have hback := (hgraph.mem_operands_iff.mp hsrc).2.2 edge hknown rfl
        exact hgraph.edge_apart hfed ((hdst.symm.trans hback).trans hnames.1.symm)
      · exact hseparable.forward edge hknown hsrc hmember
    have hinside := Split.carry_inside (hbounded.edge hknown .output) hsent
      (hcommon.inside_left haxes)
      (hkeeps.sameSize (hgraph.edge_fits hknown))
    exact hplans.place_old hgraph hleft .output hknown hstays
      (Window.sameAxes_of_spans hinside.spans)

private theorem places_output (hcuts : split.Cuts graph task vector)
    (hbounded : graph.Bounded) (hplans : split.Plans graph plan layout after)
    (hleft : graph.Replaced (split.gone task) plan left) (hseparable : Separable graph task)
    {copy : SplitCopy} {edge : Edge} {piece received : Window} (hcopy : copy ∈ layout.copies)
    (hedge : edge ∈ split.outputEdges graph)
    (hpiece : Split.overlap? edge.src.window (split.yield copy.part) = some piece)
    (hreceived : Split.carry edge edge.src.window piece edge.dst.window = .ok received) :
    left.Places Window.HasAxes ⟨⟨copy.block.id, 0, (split.yield copy.part).localize piece⟩,
      { edge.dst with window := received }, edge.rearrange⟩ := by
  obtain ⟨hknown, hsrc⟩ := hcuts.mem_outputEdges_iff.mp hedge
  have hkeeps := hseparable.keeps edge hknown (Or.inl hsrc)
  have hsame := hcuts.yield_sameAxes hknown hsrc (hplans.planned.part_mem hcopy)
  have hcommon := (Split.overlap?_eq_some hpiece).1
  intro side
  cases side
  · have hinside := Split.carry_inside (hbounded.edge hknown .input) hreceived
      (hcommon.inside_left hsame)
      fun hidentity => (hkeeps.sameSize (hcuts.wellFormed.edge_fits hknown) hidentity).symm
    exact hplans.place_old hcuts.wellFormed hleft .input hknown
      (hcuts.receiver_stays hseparable hedge) (Window.sameAxes_of_spans hinside.spans)
  · exact ⟨_, hplans.extent_output hleft hcopy,
      Window.sameAxes_of_spans (hcommon.inside_right (.of_sameAxes hsame)).spans⟩

private theorem places_sum (hcuts : split.Cuts graph task vector)
    (hplans : split.Plans graph plan layout after)
    (hleft : graph.Replaced (split.gone task) plan left) (hseparable : Separable graph task)
    {block : Block} {edge : Edge} (hblock : layout.accumulator = some block)
    (hedge : edge ∈ split.outputEdges graph) :
    left.Places Window.HasAxes { edge.connection with src := ⟨block.id, 0, edge.src.window⟩ } := by
  obtain ⟨hknown, hsrc⟩ := hcuts.mem_outputEdges_iff.mp hedge
  intro side
  cases side
  · exact hplans.place_old hcuts.wellFormed hleft .input hknown
      (hcuts.receiver_stays hseparable hedge) (Shape.SameAxes.refl _)
  · exact ⟨_, hplans.extent_accumulator hleft hblock,
      Window.within_sameAxes (hcuts.output_within hknown hsrc)⟩

/-- Every connection planned for a separable block has a place. -/
theorem Plans.places (hcuts : split.Cuts graph task vector) (hbounded : graph.Bounded)
    (hplans : split.Plans graph plan layout after)
    (hleft : graph.Replaced (split.gone task) plan left) (hseparable : Separable graph task)
    {connection : Connection} (hmember : connection ∈ plan.edges) :
    left.Places Window.HasAxes connection := by
  cases (hplans.mem_edges_iff hcuts.wellFormed).mp hmember with
  | delivery hcopy hfeed => exact places_delivery hcuts hbounded hplans hleft hseparable hcopy hfeed
  | upstream hcopy hfeed hoperand hknown hdst hpiece hsent =>
      exact places_upstream hcuts hbounded hplans hleft hseparable hcopy hfeed hoperand hknown
        hdst hpiece hsent
  | output _ hcopy hedge hpiece hreceived =>
      exact places_output hcuts hbounded hplans hleft hseparable hcopy hedge hpiece hreceived
  | addend hblock hcopy => exact ((hplans.joins_iff_hasRoom hcuts hmember).mpr
      (room_addend hcuts hplans hleft hblock hcopy)).places
  | sum hblock hedge => exact places_sum hcuts hplans hleft hseparable hblock hedge

end Split

end TiledPlacement
