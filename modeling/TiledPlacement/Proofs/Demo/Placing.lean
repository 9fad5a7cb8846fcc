import TiledPlacement.Proofs.Demo.Layer
import TiledPlacement.Proofs.Demo.Slots
import TiledPlacement.Proofs.Placement.Routing

/-!
The demonstrated layer is cut before anything is placed. Where its computations all have a slot, it
is then placed and routed completely.
-/

namespace TiledPlacement

open Execution

namespace Demo

theorem hardware_onHardware (graph : TaskGraph) (hardware : Hardware) :
    (Placement.onHardware graph hardware).hardware = hardware :=
  Grid.hardware_ofHardware hardware

/-- What the cut leaves of the layer, where nothing is placed. -/
theorem run_splitLayer {vector : SplitVector} {created : List TaskId} {graph : TaskGraph}
    (hgraph : graph.Reachable) (hvalid : graph.Valid)
    (hsplit : TaskGraph.split ⟨4⟩ vector layerGraph = .ok created graph) (hardware : Hardware) :
    splitLayer vector (.onHardware (.empty 0) hardware) =
      .ok (⟨⟨0⟩, ⟨4⟩, ⟨5⟩⟩, created) (.onHardware graph hardware) := by
  have hlayer : Placement.changeGraph layer (.onHardware (.empty 0) hardware) =
      .ok ⟨⟨0⟩, ⟨4⟩, ⟨5⟩⟩ (.onHardware layerGraph hardware) :=
    Placement.changeGraph_eq_ok run_layer
  have hcut := Placement.splitTask_onHardware hgraph hsplit hardware
  refine Ends.eq_ok ?_
  unfold splitLayer
  rw [ends_bind, ends_of_ok_iff hlayer]
  dsimp only
  rw [ends_bind, ends_of_ok_iff hcut]
  rw [ends_bind, ends_get, ends_bind]
  have hchecked : (Placement.onHardware graph hardware).graph.validate = .ok () :=
    (hgraph.wellFormed.2.validate_ok_iff hvalid.bounded).mpr hvalid
  rw [hchecked]
  exact ⟨rfl, rfl⟩

section Place

variable {graph : TaskGraph} {hardware : Hardware} {first : Coordinate} {rest : List Coordinate}
  {computations : List TaskId} {index : Nat} {middle left : Placement}

/-- The memory bank of a slot. -/
def bank (hardware : Hardware) (first : Coordinate) (columns : List Coordinate) (index : Nat) :
    Coordinate :=
  (Grid.ofHardware hardware).unitPlace (slotCell hardware first columns index) .memory

theorem start_eq_bank (hbounded : hardware.Bounded) {columns : List Coordinate}
    (hfirst : hardware.IsColumn first) (hsteps : 0 < hardware.steps)
    (hphases : 0 < hardware.phases) :
    first.atTime 0 0 .memory = bank hardware first (first :: columns) 0 := by
  have hcell : slotCell hardware first (first :: columns) 0 =
      hardware.cell (hardware.number first) 0 0 := by
    simp [slotCell]
  rw [bank, hcell]
  exact Grid.atTime_eq_unitPlace (Grid.hardware_ofHardware hardware) hbounded hfirst hsteps hphases
    .memory

variable (hbounded : hardware.Bounded) (hcut : CutLayer graph computations)
  (hcolumns : hardware.functionalColumns = first :: rest)
  (hroom : computations.length ≤ (first :: rest).length * hardware.pointsPerColumn)

include hbounded hcolumns in
theorem isColumn_listed : ∀ column ∈ first :: rest, hardware.IsColumn column :=
  fun _ hmember => (isColumn_functional hbounded.columns (hcolumns ▸ hmember)).1

include hbounded hcolumns in
theorem memoryAt_slot (hindex : index < (first :: rest).length * hardware.pointsPerColumn) :
    (Placement.onHardware graph hardware).memoryAt
      (slot hardware first (first :: rest) index) = bank hardware first (first :: rest) index := by
  have hslot : slot hardware first (first :: rest) index = (Grid.ofHardware hardware).unitPlace
      (slotCell hardware first (first :: rest) index) .axon :=
    slot_eq_unitPlace hbounded (isColumn_listed hbounded hcolumns) hindex
      (Grid.hardware_ofHardware hardware)
  rw [hslot]
  exact Grid.withUnit_unitPlace _ _ _ _

include hbounded hcut hcolumns in
theorem houses_bank (hindex : index < (first :: rest).length * hardware.pointsPerColumn) :
    (Placement.onHardware graph hardware).Houses [⟨0⟩, ⟨5⟩]
      (bank hardware first (first :: rest) index) where
  bank := by
    have hcell : (Grid.ofHardware hardware).hardware.HasCell
        (slotCell hardware first (first :: rest) index) := by
      rw [Grid.hardware_ofHardware]
      exact hasCell_slotCell hbounded (isColumn_listed hbounded hcolumns) hindex
    have hpresent : ((Grid.ofHardware hardware).pointAt?
        (slotCell hardware first (first :: rest) index)).isSome = true :=
      present_slotCell hbounded (fun column hmember => hcolumns ▸ hmember) hindex
    obtain ⟨point, hpoint⟩ := Option.isSome_iff_exists.mp hpresent
    exact ⟨_, point, Grid.resolve_unitPlace hcell .memory, hpoint⟩
  stored operand hoperand := by
    rcases List.mem_cons.mp hoperand with rfl | hlast
    · exact hcut.input
    · rw [List.mem_singleton.mp hlast]
      exact hcut.output

include hbounded hcut hcolumns hroom in
theorem seats_layer : (Placement.onHardware graph hardware).Seats
    (seats hardware first (first :: rest) computations) := by
  refine seats_onHardware hbounded (fun column hmember => hcolumns ▸ hmember) ?_ hroom hcut.nodup
    fun task htask => ?_
  · rw [← hcolumns]
    exact hardware.nodup_columns.filter _
  · obtain ⟨computation, hpayload⟩ :=
      TaskGraph.isComputation_iff.mp ((hcut.mem_iff task).mp htask)
    exact ⟨computation, hpayload, hcut.axon task computation hpayload⟩

include hbounded hcolumns hroom in
theorem forM_slots : (computations.zipIdx.forM fun (task, index) =>
      Placement.putGroupIn (slot hardware first (first :: rest) index) task) =
    (seats hardware first (first :: rest) computations).forM fun seat =>
      Placement.putGroupIn ((Grid.ofHardware hardware).unitPlace seat.2 .axon) seat.1 := by
  refine forM_map_eq fun entry hentry => ?_
  obtain ⟨task, index⟩ := entry
  obtain ⟨-, hindex, -⟩ := List.mem_zipIdx hentry
  rw [Nat.zero_add] at hindex
  exact congrArg (Placement.putGroupIn · task) (slot_eq_unitPlace hbounded
    (isColumn_listed hbounded hcolumns) (Nat.lt_of_lt_of_le hindex hroom)
      (Grid.hardware_ofHardware hardware))

include hbounded hcut hcolumns hroom

theorem ends_placeComputations :
    Ends (computations.zipIdx.forM fun (task, index) =>
        Placement.putGroupIn (slot hardware first (first :: rest) index) task)
      (.onHardware graph hardware)
      (fun _ left => Placement.Seated (.onHardware graph hardware)
        (seats hardware first (first :: rest) computations) left)
      (fun _ _ => False) := by
  have hagrees := (Placement.Initial.onHardware hcut.reachable hardware).agrees
  rw [forM_slots hbounded hcolumns hroom]
  exact (Placement.seated_nil hagrees fun _ => rfl).ends_putGroupsIn hagrees
    hcut.reachable.wellFormed.1 (seats_layer hbounded hcut hcolumns hroom)

/-- Neither the input nor the output is an operand. -/
theorem unseated (hmiddle : Placement.Seated (.onHardware graph hardware)
      (seats hardware first (first :: rest) computations) middle) {task : TaskId}
    (htask : task = ⟨0⟩ ∨ task = ⟨5⟩) : middle.coordinate? task = none := by
  have hinitial := Placement.Initial.onHardware hcut.reachable hardware
  have hseats := seats_layer hbounded hcut hcolumns hroom
  refine Option.eq_none_iff_forall_ne_some.mpr fun place hplaced => ?_
  obtain ⟨seat, hseat, hat⟩ := (hmiddle.coordinate task place).mp hplaced
  rcases hat with ⟨hself, -⟩ | ⟨hgroup, -⟩
  · obtain ⟨computation, hpayload, -⟩ := hseats.axon seat hseat
    have hstored : ∃ storage, graph.payload? task = some (.storage storage) := by
      rcases htask with rfl | rfl
      · exact hcut.input
      · exact hcut.output
    obtain ⟨storage, hstorage⟩ := hstored
    cases hpayload.symm.trans (hself ▸ hstorage)
  · have hserves := (Placement.mem_group_iff hinitial.agrees hcut.reachable.wellFormed.1
      (hseats.isComputation hseat)).mp hgroup
    rcases htask with rfl | rfl
    · exact (hcut.free seat.1).1 hserves
    · exact (hcut.free seat.1).2 hserves

/-- The tasks as they are once the input and the output are in banks too. -/
def laid (middle : Placement) (start last : Coordinate) (task : TaskId) : Option Coordinate :=
  if task = ⟨5⟩ then some last
  else if task = ⟨0⟩ then some start
  else middle.coordinate? task

theorem ends_placeEnds (hmiddle : Placement.Seated (.onHardware graph hardware)
      (seats hardware first (first :: rest) computations) middle) {start last : Coordinate}
    (hstart : (Placement.onHardware graph hardware).Houses [⟨0⟩, ⟨5⟩] start)
    (hlast : (Placement.onHardware graph hardware).Houses [⟨0⟩, ⟨5⟩] last) :
    Ends (do
        Placement.putIn start ⟨0⟩
        try Placement.putIn last ⟨5⟩
        catch _ => Placement.putIn start ⟨5⟩) middle
      (fun _ left =>
        Placement.Rearranged (.onHardware graph hardware) (laid middle start last) left)
      (fun _ _ => False) := by
  have hinput := unseated hbounded hcut hcolumns hroom hmiddle (Or.inl rfl)
  have houtput := unseated hbounded hcut hcolumns hroom hmiddle (Or.inr rfl)
  rw [ends_bind]
  refine (hmiddle.rearranged.ends_putOperandIn hstart List.mem_cons_self hinput).mono
    (fun _ later hlater => ?_) (fun _ _ hfalse => hfalse)
  rw [ends_tryCatch]
  refine (hlater.ends_putOperandIn hlast (List.mem_cons_of_mem _ List.mem_cons_self) ?_).mono
    (fun _ left hleft => hleft) (fun _ _ hfalse => hfalse.elim)
  rw [if_neg (by decide), houtput]

theorem exists_place_of_block (hmiddle : Placement.Seated (.onHardware graph hardware)
      (seats hardware first (first :: rest) computations) middle) {task : TaskId}
    (hknown : graph.hasBlock task = true) :
    task = ⟨0⟩ ∨ task = ⟨5⟩ ∨ ∃ place, middle.coordinate? task = some place := by
  have hinitial := Placement.Initial.onHardware hcut.reachable hardware
  have hseats := seats_layer hbounded hcut hcolumns hroom
  have hseated : ∀ owner, graph.isComputation owner = true →
      ∃ seat ∈ seats hardware first (first :: rest) computations, seat.1 = owner := by
    intro owner howner
    have hmember : owner ∈
        (seats hardware first (first :: rest) computations).map Prod.fst := by
      rw [map_fst_seats]
      exact (hcut.mem_iff owner).mpr howner
    exact List.mem_map.mp hmember
  obtain ⟨payload, hpayload⟩ := TaskGraph.hasBlock_iff.mp hknown
  cases payload with
  | computation computation =>
      obtain ⟨seat, hseat, rfl⟩ :=
        hseated task (TaskGraph.isComputation_iff.mpr ⟨computation, hpayload⟩)
      exact Or.inr (Or.inr ⟨_, (hmiddle.coordinate _ _).mpr ⟨seat, hseat, Or.inl ⟨rfl, rfl⟩⟩⟩)
  | storage storage =>
      rcases hcut.stored task storage hpayload with hinput | houtput | ⟨owner, hserves⟩
      · exact Or.inl hinput
      · exact Or.inr (Or.inl houtput)
      · have howner := TaskGraph.isComputation_iff.mpr hserves.computes
        obtain ⟨seat, hseat, rfl⟩ := hseated owner howner
        have hgroup := (Placement.mem_group_iff hinitial.agrees hcut.reachable.wellFormed.1
          (hseats.isComputation hseat)).mpr hserves
        exact Or.inr (Or.inr ⟨_, (hmiddle.coordinate _ _).mpr ⟨seat, hseat, Or.inr ⟨hgroup, rfl⟩⟩⟩)

theorem arranged_of_laid (hmiddle : Placement.Seated (.onHardware graph hardware)
      (seats hardware first (first :: rest) computations) middle) {start last : Nat}
    (hstart : start < (first :: rest).length * hardware.pointsPerColumn)
    (hlast : last < (first :: rest).length * hardware.pointsPerColumn)
    (hleft : Placement.Rearranged (.onHardware graph hardware)
      (laid middle (bank hardware first (first :: rest) start)
        (bank hardware first (first :: rest) last)) left) : left.Arranged := by
  have hinitial := Placement.Initial.onHardware hcut.reachable hardware
  have hbank : ∀ {index}, index < (first :: rest).length * hardware.pointsPerColumn →
      ∃ cell, (Grid.ofHardware hardware).hardware.HasCell cell ∧
        bank hardware first (first :: rest) index =
          (Grid.ofHardware hardware).unitPlace cell .memory := fun hindex => by
    refine ⟨slotCell hardware first (first :: rest) _, ?_, rfl⟩
    rw [Grid.hardware_ofHardware]
    exact hasCell_slotCell hbounded (isColumn_listed hbounded hcolumns) hindex
  refine (seats_layer hbounded hcut hcolumns hroom).arranged hinitial.agrees
    hcut.reachable.wellFormed.1 hleft.reseated.graph hleft.reseated.hardware
    (fun task hknown => ?_) (fun {task place} hplaced => ?_)
  · rw [hleft.coordinate, laid]
    split
    case isTrue => exact ⟨_, rfl⟩
    case isFalse hnotOutput =>
      split
      case isTrue => exact ⟨_, rfl⟩
      case isFalse hnotInput =>
        rcases exists_place_of_block hbounded hcut hcolumns hroom hmiddle hknown with
          hinput | houtput | hfound
        · exact absurd hinput hnotInput
        · exact absurd houtput hnotOutput
        · exact hfound
  · rw [hleft.coordinate, laid] at hplaced
    split at hplaced
    case isTrue houtput =>
      obtain rfl := Option.some.inj hplaced
      exact Or.inr ⟨houtput ▸ hcut.output, hbank hlast⟩
    case isFalse =>
      split at hplaced
      case isTrue hinput =>
        obtain rfl := Option.some.inj hplaced
        exact Or.inr ⟨hinput ▸ hcut.input, hbank hstart⟩
      case isFalse => exact Or.inl ((hmiddle.coordinate task place).mp hplaced)

end Place

/-- What is left when a whole graph has been placed and routed. -/
structure Finished (graph : TaskGraph) (hardware : Hardware) (left : Placement) : Prop where
  graph : left.graph = graph
  hardware : left.hardware = hardware
  arranged : left.Arranged
  routed : ∀ edge, left.graph.edge? edge.id = some edge →
    ∃ path, left.route? edge.id = some path
  carried : ∀ id path, left.route? id = some path → left.Carries id path
  consistent : left.checkConsistency = .ok ()

section Route

variable {graph : TaskGraph} {hardware : Hardware} {left : Placement}
  {places : TaskId → Option Coordinate}

/-- Every edge is routed, for both of its ends are placed. -/
theorem ends_route (hbounded : hardware.Bounded)
    (hleft : Placement.Rearranged (.onHardware graph hardware) places left)
    (harranged : left.Arranged) (hgraph : left.graph.WellFormed) :
    Ends (do
        let routed ← Placement.routePlacedEdges
        Placement.ofExcept (← get).checkConsistency
        return routed) left
      (fun _ later => Finished graph hardware later) (fun _ _ => False) := by
  have hagrees := hleft.reseated.agrees
  have hends : ∀ {edge : Edge}, left.graph.edge? edge.id = some edge → ∀ side,
      left.isPlaced (edge.endAt side).task = true := by
    intro edge hedge side
    obtain ⟨block, hblock⟩ := hgraph.end_known hedge side
    rw [Placement.isPlaced_iff, ← harranged.placed_iff, TaskGraph.hasBlock_iff]
    exact ⟨_, TaskGraph.payload?_eq_some_iff.mpr ⟨block, hblock, rfl⟩⟩
  rw [ends_bind]
  refine (Placement.ends_routePlacedEdges hagrees).mono (fun count later hlater => ?_)
    (fun _ _ hfalse => hfalse.elim)
  obtain ⟨-, hrouted⟩ := hlater
  have hrerouted := hrouted.rerouted
  have hlater := harranged.rerouted hrerouted
  have hhardware : later.hardware = hardware := hrerouted.hardware.trans
    (hleft.reseated.hardware.trans (hardware_onHardware graph hardware))
  have hconsistent : later.checkConsistency = .ok () := by
    refine hrouted.agrees.checkConsistency hlater.known ?_ fun task place => hlater.plain
    rw [hhardware]
    exact hbounded
  rw [ends_bind, ends_get, ends_bind, hconsistent]
  refine ⟨hrerouted.graph.trans hleft.reseated.graph,
    hhardware, hlater, fun edge hedge => ?_,
    fun id path hroute => ?_, hconsistent⟩
  · rw [hrerouted.graph] at hedge
    exact hrouted.every edge (hagrees.mem_readyEdges_iff.mpr
      ⟨hedge, hends hedge .output, hends hedge .input⟩)
  · rw [hrerouted.carries_iff]
    refine (hrouted.route hroute).resolve_left fun hold => ?_
    rw [Placement.route?, hleft.routes] at hold
    cases hold

end Route

/-- Every step of placing the layer is a command on placements. -/
theorem keeps_reachable_placeLayer (layer : Layer) (computations : List TaskId)
    (first : Coordinate) (columns : List Coordinate) :
    Keeps Placement.Reachable (placeLayer layer computations first columns) := by
  have hput : ∀ place task, Keeps Placement.Reachable (Placement.putIn place task) :=
    fun place task => Placement.Reachable.keeps_run (.putIn place task)
  have hroute : Keeps Placement.Reachable Placement.routePlacedEdges := fun left hleft =>
    ends_discard.mp (Placement.Reachable.keeps_run .routePlacedEdges left hleft)
  unfold placeLayer
  refine Keeps.get_bind fun origin horigin => ?_
  dsimp only
  refine Keeps.bind (Keeps.forM fun entry _ => ?_) (fun _ => ?_) origin horigin
  · exact Placement.Reachable.keeps_run (.putGroupIn _ entry.1)
  refine Keeps.bind (hput _ _) fun _ => ?_
  refine Keeps.bind (Keeps.tryCatch (hput _ _) fun _ => hput _ _) fun _ => ?_
  refine Keeps.bind hroute fun routed => Keeps.get_bind fun left hleft => ?_
  exact Keeps.bind (Placement.keeps_ofExcept _) (fun _ => Keeps.pure routed) left hleft

section Layer

variable {graph : TaskGraph} {hardware : Hardware} {first : Coordinate} {rest : List Coordinate}
  {computations : List TaskId}

theorem ends_placeLayer (hbounded : hardware.Bounded) (hcut : CutLayer graph computations)
    (hsome : computations ≠ [])
    (hcolumns : hardware.functionalColumns = first :: rest)
    (hroom : computations.length ≤ (first :: rest).length * hardware.pointsPerColumn) :
    Ends (placeLayer ⟨⟨0⟩, ⟨4⟩, ⟨5⟩⟩ computations first (first :: rest))
      (.onHardware graph hardware)
      (fun _ left => left.Reachable ∧ Finished graph hardware left) (fun _ _ => False) := by
  have hreachable := (Placement.Initial.onHardware hcut.reachable hardware).reachable
  have hcount : 0 < computations.length := List.length_pos_of_ne_nil hsome
  have hpoints : 0 < (first :: rest).length * hardware.pointsPerColumn :=
    Nat.lt_of_lt_of_le hcount hroom
  have hlast : computations.length - 1 < (first :: rest).length * hardware.pointsPerColumn :=
    Nat.lt_of_lt_of_le (Nat.sub_lt hcount Nat.one_pos) hroom
  have htimes : 0 < hardware.steps * hardware.phases :=
    Nat.lt_of_lt_of_le (Nat.pos_of_mul_pos_left hpoints) (word_le _)
  have hstart : first.atTime 0 0 .memory = bank hardware first (first :: rest) 0 :=
    start_eq_bank hbounded (isColumn_listed hbounded hcolumns first List.mem_cons_self)
      (Nat.pos_of_mul_pos_right htimes) (Nat.pos_of_mul_pos_left htimes)
  have hmemory : (Placement.onHardware graph hardware).memoryAt
      (slot hardware first (first :: rest) (computations.length - 1)) =
        bank hardware first (first :: rest) (computations.length - 1) :=
    memoryAt_slot hbounded hcolumns hlast
  have hempty : computations.isEmpty = false := List.isEmpty_eq_false_iff.mpr hsome
  have hplaced : Ends (placeLayer ⟨⟨0⟩, ⟨4⟩, ⟨5⟩⟩ computations first (first :: rest))
      (.onHardware graph hardware) (fun _ left => Finished graph hardware left)
      (fun _ _ => False) := by
    unfold placeLayer
    rw [ends_bind, ends_get]
    dsimp only
    rw [hardware_onHardware, hempty, hstart, ends_bind]
    refine (ends_placeComputations hbounded hcut hcolumns hroom).mono (fun _ middle hmiddle => ?_)
      (fun _ _ hfalse => hfalse)
    have hends := ends_placeEnds hbounded hcut hcolumns hroom hmiddle
      (houses_bank hbounded hcut hcolumns hpoints) (houses_bank hbounded hcut hcolumns hlast)
    rw [ends_bind] at hends ⊢
    refine hends.mono (fun _ later hlater => ?_) (fun _ _ hfalse => hfalse)
    rw [ends_bind, if_neg Bool.false_ne_true, hmemory]
    refine hlater.mono (fun _ left hleft => ?_) (fun _ _ hfalse => hfalse)
    refine ends_route hbounded hleft
      (arranged_of_laid hbounded hcut hcolumns hroom hmiddle hpoints hlast hleft) ?_
    rw [hleft.reseated.graph]
    exact hcut.reachable.wellFormed.2
  exact (hplaced.and (keeps_reachable_placeLayer _ _ _ _ _ hreachable)).mono
    (fun _ left hleft => ⟨hleft.2, hleft.1⟩) (fun _ _ hfalse => hfalse.1)

end Layer

end Demo

end TiledPlacement
