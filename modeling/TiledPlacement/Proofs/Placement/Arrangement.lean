import TiledPlacement.Proofs.Placement.Consistency
import TiledPlacement.Proofs.Placement.Footprint
import TiledPlacement.Proofs.Placement.Groups

/-!
Computations that are placed one after the other, each at a point of its own. If every computation
runs on the axon, each has its operands beside it and none is refused.
-/

namespace TiledPlacement

open Execution

namespace Placement

variable {origin placement left : Placement} {seats : List (TaskId × Cell)} {seat : TaskId × Cell}
  {task : TaskId} {place : Coordinate}

/-- Computations of the graph, each with a point of its own. -/
structure Seats (placement : Placement) (seats : List (TaskId × Cell)) : Prop where
  tasks : (seats.map Prod.fst).Nodup
  cells : (seats.map Prod.snd).Nodup
  axon : ∀ seat ∈ seats, ∃ computation,
    placement.graph.payload? seat.1 = some (.computation computation) ∧
      computation.operation.engine = .axon
  present : ∀ seat ∈ seats, placement.hardware.HasCell seat.2 ∧
    (placement.grid.pointAt? seat.2).isSome = true

/-- The place of a computation is the axon of its point, that of its operands the bank there. -/
def SeatedAt (placement : Placement) (seat : TaskId × Cell) (task : TaskId)
    (place : Coordinate) : Prop :=
  (task = seat.1 ∧ place = placement.grid.unitPlace seat.2 .axon) ∨
    (task ∈ placement.group seat.1 ∧ place = placement.grid.unitPlace seat.2 .memory)

structure Seated (origin : Placement) (seats : List (TaskId × Cell)) (left : Placement) :
    Prop where
  rearranged : Rearranged origin left.coordinate? left
  coordinate : ∀ task place, left.coordinate? task = some place ↔
    ∃ seat ∈ seats, origin.SeatedAt seat task place

namespace Seats

theorem isComputation (hseats : placement.Seats seats) (hseat : seat ∈ seats) :
    placement.graph.isComputation seat.1 = true := by
  obtain ⟨computation, hpayload, -⟩ := hseats.axon seat hseat
  exact TaskGraph.isComputation_iff.mpr ⟨computation, hpayload⟩

theorem of_append {rest : List (TaskId × Cell)} (hseats : placement.Seats (seats ++ rest)) :
    placement.Seats seats where
  tasks := (List.nodup_append'.mp (List.map_append ▸ hseats.tasks)).1
  cells := (List.nodup_append'.mp (List.map_append ▸ hseats.cells)).1
  axon seat hseat := hseats.axon seat (List.mem_append_left _ hseat)
  present seat hseat := hseats.present seat (List.mem_append_left _ hseat)

end Seats

theorem mem_group_iff (hagrees : origin.Agrees) (hids : origin.graph.ids.next ≤ largestId)
    {owner : TaskId} (hcomputes : origin.graph.isComputation owner = true) :
    task ∈ origin.group owner ↔ origin.graph.Serves task owner := by
  rw [group_eq hagrees hids hcomputes, (hagrees.wellFormed hids).serves_iff]
  exact ⟨fun hoperand => ⟨hcomputes, hoperand⟩, fun hboth => hboth.2⟩

section Seating

variable (hagrees : origin.Agrees) (hids : origin.graph.ids.next ≤ largestId)
include hagrees hids

/-- No task has a place in two seats. -/
theorem Seats.seatedAt_unique (hseats : origin.Seats seats) {other : TaskId × Cell}
    {otherPlace : Coordinate} (hseat : seat ∈ seats) (hother : other ∈ seats)
    (hat : origin.SeatedAt seat task place) (hatOther : origin.SeatedAt other task otherPlace) :
    seat = other := by
  have hserves : ∀ {seat : TaskId × Cell}, seat ∈ seats → task ∈ origin.group seat.1 →
      origin.graph.Serves task seat.1 := fun hseat =>
    (mem_group_iff hagrees hids (hseats.isComputation hseat)).mp
  have hapart : ∀ {seat : TaskId × Cell}, seat ∈ seats → task = seat.1 →
      ∀ owner, ¬origin.graph.Serves task owner := by
    intro seat hseat htask owner howner
    obtain ⟨storage, hstorage⟩ := howner.stored
    obtain ⟨computation, hpayload, -⟩ := hseats.axon seat hseat
    rw [← htask, hstorage] at hpayload
    cases hpayload
  refine List.inj_on_of_nodup_map hseats.tasks hseat hother ?_
  rcases hat with ⟨htask, -⟩ | ⟨hgroup, -⟩ <;> rcases hatOther with ⟨htask', -⟩ | ⟨hgroup', -⟩
  · exact htask.symm.trans htask'
  · exact absurd (hserves hother hgroup') (hapart hseat htask _)
  · exact absurd (hserves hseat hgroup) (hapart hother htask' _)
  · exact (hserves hseat hgroup).unique (hserves hother hgroup')

theorem Seated.unplaced {rest : List (TaskId × Cell)} (hleft : Seated origin seats left)
    (hseats : origin.Seats (seats ++ seat :: rest)) (hat : origin.SeatedAt seat task place) :
    left.coordinate? task = none := by
  refine Option.eq_none_iff_forall_ne_some.mpr fun found hfound => ?_
  obtain ⟨other, hother, hatOther⟩ := (hleft.coordinate task found).mp hfound
  have hsame := hseats.seatedAt_unique hagrees hids (List.mem_append_right _ List.mem_cons_self)
    (List.mem_append_left _ hother) hat hatOther
  have htasks := hseats.tasks
  rw [List.map_append, List.nodup_append'] at htasks
  exact htasks.2.2 (List.mem_map_of_mem hother) (hsame ▸ List.mem_cons_self)

theorem Seats.seatedAt_place (hseats : origin.Seats seats) (hseat : seat ∈ seats)
    {otherPlace : Coordinate} (hat : origin.SeatedAt seat task place)
    (hatOther : origin.SeatedAt seat task otherPlace) : place = otherPlace := by
  have hself := not_mem_group hagrees hids (hseats.isComputation hseat)
  rcases hat with ⟨htask, hplace⟩ | ⟨hgroup, hplace⟩ <;>
    rcases hatOther with ⟨htask', hplace'⟩ | ⟨hgroup', hplace'⟩
  · exact hplace.trans hplace'.symm
  · exact absurd (htask ▸ hgroup') hself
  · exact absurd (htask' ▸ hgroup) hself
  · exact hplace.trans hplace'.symm

omit hagrees hids in
theorem Seated.not_refused {rest : List (TaskId × Cell)} (hleft : Seated origin seats left)
    (hseats : origin.Seats (seats ++ seat :: rest)) (error : PlacementError) :
    ¬Refused left seat.1 (origin.grid.unitPlace seat.2 .axon) error := by
  have hreseated := hleft.rearranged.reseated
  have hseat : seat ∈ seats ++ seat :: rest := List.mem_append_right _ List.mem_cons_self
  obtain ⟨hcell, hpoint⟩ := hseats.present seat hseat
  obtain ⟨computation, hpayload, hengine⟩ := hseats.axon seat hseat
  have hresolve : left.grid.resolve (origin.grid.unitPlace seat.2 .axon) =
      .ok (some (.unit seat.2 .axon)) := by
    rw [hreseated.resolve]
    exact Grid.resolve_unitPlace hcell .axon
  have hmay : (Payload.computation computation).MayOccupy .axon := by
    rw [Payload.MayOccupy, hengine]
    rfl
  refine not_refused_of_free hresolve ((hreseated.present seat.2).trans hpoint)
    (hreseated.graph ▸ hpayload) hmay (fun _ occupant hsits => ?_) error
  obtain ⟨place, hplaced, hfound⟩ := hleft.rearranged.sits_iff.mp hsits
  obtain ⟨other, hother, hat⟩ := (hleft.coordinate _ _).mp hplaced
  have hcellOther := (hseats.present other (List.mem_append_left _ hother)).1
  exfalso
  rcases hat with ⟨-, rfl⟩ | ⟨-, rfl⟩
  · have hsame := Except.ok.inj (hfound.symm.trans (Grid.resolve_unitPlace hcellOther .axon))
    obtain ⟨hcells, -⟩ := Address.unit.inj (Option.some.inj hsame)
    have hapart := hseats.cells
    rw [List.map_append, List.nodup_append'] at hapart
    exact hapart.2.2 (List.mem_map_of_mem hother) (hcells ▸ List.mem_cons_self)
  · have hsame := Except.ok.inj (hfound.symm.trans (Grid.resolve_unitPlace hcellOther .memory))
    cases (Address.unit.inj (Option.some.inj hsame)).2

/-- Nothing has to be lifted before a computation of a free seat is placed. -/
theorem Seated.rearranged_deserted {rest : List (TaskId × Cell)} (hleft : Seated origin seats left)
    (hseats : origin.Seats (seats ++ seat :: rest)) :
    Rearranged left (left.deserted seat.1) left := by
  have hreseated := hleft.rearranged.reseated
  refine (Rearranged.refl hreseated.agrees).mono fun task => ?_
  rw [deserted, group, hreseated.graph]
  split
  case isTrue hoperand => exact hleft.unplaced hagrees hids hseats (Or.inr ⟨hoperand, rfl⟩)
  case isFalse =>
    split
    case isTrue htask => exact hleft.unplaced hagrees hids hseats (Or.inl ⟨htask, rfl⟩)
    case isFalse => rfl

/-- Who has a place at the last seat has no other. -/
theorem Seats.place_eq_iff (hseats : origin.Seats (seats ++ [seat]))
    (hat : origin.SeatedAt seat task place) {other : Coordinate} :
    place = other ↔ ∃ found ∈ seats ++ [seat], origin.SeatedAt found task other := by
  have hseat : seat ∈ seats ++ [seat] := List.mem_append_right _ List.mem_cons_self
  constructor
  · intro hplace
    exact ⟨seat, hseat, hplace ▸ hat⟩
  · intro hother
    obtain ⟨found, hfound, hatOther⟩ := hother
    obtain rfl := hseats.seatedAt_unique hagrees hids hseat hfound hat hatOther
    exact hseats.seatedAt_place hagrees hids hseat hat hatOther

/-- A computation that is placed with its operands takes the next seat. -/
theorem Seated.concat {later : Placement} (hleft : Seated origin seats left)
    (hseats : origin.Seats (seats ++ [seat]))
    (hlater : Rearranged left (left.gathered seat.1 (origin.grid.unitPlace seat.2 .axon)) later) :
    Seated origin (seats ++ [seat]) later := by
  have hreseated := hleft.rearranged.reseated
  have hmemory : left.memoryAt (origin.grid.unitPlace seat.2 .axon) =
      origin.grid.unitPlace seat.2 .memory := by
    rw [memoryAt, hreseated.spaceDepth]
    exact Grid.withUnit_unitPlace _ _ _ _
  refine ⟨(hleft.rearranged.trans hlater).mono fun task => (hlater.coordinate task).symm,
    fun task place => ?_⟩
  rw [hlater.coordinate, gathered, group, hreseated.graph, hmemory]
  split
  case isTrue hoperand =>
    rw [Option.some.injEq]
    exact hseats.place_eq_iff hagrees hids (Or.inr ⟨hoperand, rfl⟩)
  case isFalse hoperand =>
    split
    case isTrue htask =>
      rw [Option.some.injEq]
      exact hseats.place_eq_iff hagrees hids (Or.inl ⟨htask, rfl⟩)
    case isFalse htask =>
      have hlast : ¬origin.SeatedAt seat task place := fun hat =>
        hat.elim (fun hboth => htask hboth.1) fun hboth => hoperand hboth.1
      rw [hleft.coordinate]
      simp only [List.mem_append, List.mem_singleton, or_and_right, exists_or, exists_eq_left]
      exact (or_iff_left hlast).symm

theorem Seated.ends_putGroupIn {rest : List (TaskId × Cell)} (hleft : Seated origin seats left)
    (hseats : origin.Seats (seats ++ seat :: rest)) :
    Ends (putGroupIn (origin.grid.unitPlace seat.2 .axon) seat.1) left
      (fun _ later => Seated origin (seats ++ [seat]) later) (fun _ _ => False) := by
  have hreseated := hleft.rearranged.reseated
  have hgraph := hreseated.graph
  have hseat : seat ∈ seats ++ seat :: rest := List.mem_append_right _ List.mem_cons_self
  refine (Placement.ends_putGroupIn hreseated.agrees (hgraph ▸ hids)
    (hgraph ▸ hseats.isComputation hseat)
    (hleft.rearranged_deserted hagrees hids hseats)).mono (fun _ later hlater => ?_)
    (fun error _ hrefused => hleft.not_refused hseats error hrefused)
  rw [List.append_cons] at hseats
  exact hleft.concat hagrees hids hseats.of_append hlater.2

theorem Seated.ends_putGroupsIn {rest : List (TaskId × Cell)} (hleft : Seated origin seats left)
    (hseats : origin.Seats (seats ++ rest)) :
    Ends (rest.forM fun seat => putGroupIn (origin.grid.unitPlace seat.2 .axon) seat.1) left
      (fun _ later => Seated origin (seats ++ rest) later) (fun _ _ => False) := by
  induction rest generalizing seats left with
  | nil =>
      rw [List.append_nil]
      exact hleft
  | cons seat rest induction =>
      rw [ends_forM_cons]
      refine (hleft.ends_putGroupIn hagrees hids hseats).mono (fun _ middle hmiddle => ?_)
        (fun _ _ hfalse => hfalse)
      rw [List.append_cons] at hseats ⊢
      exact induction hmiddle hseats

omit hids in
theorem seated_nil (hbare : ∀ task, origin.coordinate? task = none) : Seated origin [] origin where
  rearranged := .refl hagrees
  coordinate task place := by
    rw [hbare]
    simp

end Seating

/-! Placements that pass the check of their consistency. -/

theorem Agrees.recorded_eq_housed (hagrees : placement.Agrees)
    (hbounded : placement.hardware.Bounded)
    (hplain : ∀ task place, placement.coordinate? task = some place →
      place.plain placement.spaceDepth = place) : placement.recorded = placement.grid.housed := by
  ext entry
  obtain ⟨task, place⟩ := entry
  constructor
  · intro hplaced
    obtain ⟨cell, unit, hresolve, hsits⟩ := hagrees.located hplaced
    exact ⟨cell, unit, hsits,
      (Grid.plain_eq_unitPlace hbounded hresolve).symm.trans (hplain task place hplaced)⟩
  · intro hhoused
    obtain ⟨cell, unit, hsits, hplace⟩ := hhoused
    obtain ⟨found, hplaced, hresolve⟩ := hagrees.recorded hsits
    have hsame : found = place := (hplain task found hplaced).symm.trans
      ((Grid.plain_eq_unitPlace hbounded hresolve).trans hplace)
    exact hsame ▸ hplaced

theorem Agrees.checkConsistency (hagrees : placement.Agrees) (hknown : placement.Known)
    (hbounded : placement.hardware.Bounded)
    (hplain : ∀ task place, placement.coordinate? task = some place →
      place.plain placement.spaceDepth = place) : placement.checkConsistency = .ok () := by
  obtain ⟨hresidents, hlength⟩ :=
    recorded_eq_housed_iff.mp (hagrees.recorded_eq_housed hbounded hplain)
  exact checkConsistency_eq_ok_iff.mpr
    ⟨fun resident hresident => ⟨hresidents resident hresident,
      hknown (hresidents resident hresident)⟩, hlength, hagrees.routes⟩

/-! Arrangements of a whole graph. -/

/-- Each block is placed, and nothing else, in an axon or a bank, and no two computations are at one
point; all levels of a place but the last one name its point. -/
structure Arranged (placement : Placement) : Prop where
  placed_iff : ∀ task, placement.graph.hasBlock task = true ↔
    ∃ place, placement.coordinate? task = some place
  listed : ∀ {task place}, placement.coordinate? task = some place → ∃ cell unit,
    placement.hardware.HasCell cell ∧ (unit = .axon ∨ unit = .memory) ∧
      place = placement.grid.unitPlace cell unit
  apart : ∀ {task other place otherPlace}, placement.graph.isComputation task = true →
    placement.graph.isComputation other = true → placement.coordinate? task = some place →
      placement.coordinate? other = some otherPlace →
        place.take (placement.spaceDepth + 2) = otherPlace.take (placement.spaceDepth + 2) →
          task = other

theorem take_unitPlace (grid : Grid) (cell : Cell) (unit : FunctionalUnit) :
    (grid.unitPlace cell unit).take (grid.spaceDepth + 2) =
      grid.coordinateAt cell.place := by
  have hdepth := grid.depth_coordinateAt cell.place
  rw [Grid.unitPlace, Coordinate.take, Coordinate.push, ← hdepth]
  exact congrArg Coordinate.mk List.take_left

/-- A place at a seat, or in a bank anywhere for a storage block. -/
def Stands (placement : Placement) (seats : List (TaskId × Cell)) (task : TaskId)
    (place : Coordinate) : Prop :=
  (∃ seat ∈ seats, placement.SeatedAt seat task place) ∨
    ((∃ storage, placement.graph.payload? task = some (.storage storage)) ∧
      ∃ cell, placement.hardware.HasCell cell ∧ place = placement.grid.unitPlace cell .memory)

section Standing

variable (hagrees : origin.Agrees) (hids : origin.graph.ids.next ≤ largestId)
  (hseats : origin.Seats seats)
include hagrees hids hseats

/-- Whoever stands somewhere is the computation of a seat, at its axon, or storage. -/
theorem Seats.seat_or_storage (hstands : origin.Stands seats task place) :
    (∃ seat ∈ seats, task = seat.1 ∧ place = origin.grid.unitPlace seat.2 .axon) ∨
      ∃ storage, origin.graph.payload? task = some (.storage storage) := by
  rcases hstands with ⟨seat, hseat, hself | ⟨hgroup, -⟩⟩ | ⟨hstorage, -⟩
  · exact Or.inl ⟨seat, hseat, hself⟩
  · exact Or.inr (stored_of_mem_group hagrees hids (hseats.isComputation hseat) hgroup)
  · exact Or.inr hstorage

theorem Seats.known (hstands : origin.Stands seats task place) :
    origin.graph.hasBlock task = true := by
  rw [TaskGraph.hasBlock_iff]
  rcases hseats.seat_or_storage hagrees hids hstands with ⟨seat, hseat, rfl, -⟩ | hstored
  · obtain ⟨computation, hpayload, -⟩ := hseats.axon seat hseat
    exact ⟨_, hpayload⟩
  · obtain ⟨storage, hstorage⟩ := hstored
    exact ⟨_, hstorage⟩

theorem Seats.seat_of_computation (hcomputes : origin.graph.isComputation task = true)
    (hstands : origin.Stands seats task place) :
    ∃ seat ∈ seats, task = seat.1 ∧ place = origin.grid.unitPlace seat.2 .axon := by
  refine (hseats.seat_or_storage hagrees hids hstands).resolve_right fun hstored => ?_
  obtain ⟨storage, hstorage⟩ := hstored
  obtain ⟨computation, hpayload⟩ := TaskGraph.isComputation_iff.mp hcomputes
  cases hpayload.symm.trans hstorage

omit hagrees hids in
theorem Seats.unit_of_stands (hstands : origin.Stands seats task place) :
    ∃ cell unit, origin.hardware.HasCell cell ∧ (unit = .axon ∨ unit = .memory) ∧
      place = origin.grid.unitPlace cell unit := by
  rcases hstands with ⟨seat, hseat, hat⟩ | ⟨-, cell, hcell, hplace⟩
  · obtain ⟨hcell, -⟩ := hseats.present seat hseat
    rcases hat with ⟨-, hplace⟩ | ⟨-, hplace⟩
    · exact ⟨seat.2, .axon, hcell, Or.inl rfl, hplace⟩
    · exact ⟨seat.2, .memory, hcell, Or.inr rfl, hplace⟩
  · exact ⟨cell, .memory, hcell, Or.inr rfl, hplace⟩

/-- Seated computations with their operands beside them and other storage in any banks. -/
theorem Seats.arranged (hgraph : left.graph = origin.graph)
    (hhardware : left.hardware = origin.hardware)
    (hall : ∀ task, origin.graph.hasBlock task = true →
      ∃ place, left.coordinate? task = some place)
    (hplaces : ∀ {task place}, left.coordinate? task = some place →
      origin.Stands seats task place) : left.Arranged := by
  constructor
  case placed_iff =>
    intro task
    rw [hgraph]
    refine ⟨hall task, fun hplaced => ?_⟩
    obtain ⟨place, hplaced⟩ := hplaced
    exact hseats.known hagrees hids (hplaces hplaced)
  case listed =>
    intro task place hplaced
    rw [hhardware]
    simp only [Grid.unitPlace_congr hhardware]
    exact hseats.unit_of_stands (hplaces hplaced)
  case apart =>
    intro task other place otherPlace hcomputes hotherComputes hplaced hotherPlaced hpoint
    have hdepth : left.spaceDepth = origin.grid.spaceDepth :=
      congrArg Hardware.spaceDepth hhardware
    rw [hgraph] at hcomputes hotherComputes
    obtain ⟨seat, hseat, rfl, rfl⟩ :=
      hseats.seat_of_computation hagrees hids hcomputes (hplaces hplaced)
    obtain ⟨otherSeat, hotherSeat, rfl, rfl⟩ :=
      hseats.seat_of_computation hagrees hids hotherComputes (hplaces hotherPlaced)
    rw [hdepth, take_unitPlace, take_unitPlace] at hpoint
    have hcells := Grid.listed_inj (hseats.present seat hseat).1
      (hseats.present otherSeat hotherSeat).1 hpoint
    rw [List.inj_on_of_nodup_map hseats.cells hseat hotherSeat hcells]

end Standing

namespace Arranged

theorem known (harranged : placement.Arranged) : placement.Known := fun hplaced =>
  (harranged.placed_iff _).mpr ⟨_, hplaced⟩

theorem plain (harranged : placement.Arranged) (hplaced : placement.coordinate? task = some place) :
    place.plain placement.spaceDepth = place := by
  obtain ⟨cell, unit, -, -, rfl⟩ := harranged.listed hplaced
  exact placement.grid.plain_unitPlace cell unit

theorem rerouted (harranged : origin.Arranged) (hrerouted : Rerouted origin left) :
    left.Arranged := by
  have hcoordinate : ∀ task, left.coordinate? task = origin.coordinate? task := fun task => by
    rw [coordinate?, coordinate?, hrerouted.coordinates]
  have hdepth : left.spaceDepth = origin.spaceDepth :=
    congrArg Hardware.spaceDepth hrerouted.hardware
  constructor
  case placed_iff =>
    simp only [hrerouted.graph, hcoordinate]
    exact harranged.placed_iff
  case listed =>
    simp only [hrerouted.hardware, hcoordinate, Grid.unitPlace_congr hrerouted.hardware]
    exact harranged.listed
  case apart =>
    simp only [hrerouted.graph, hcoordinate, hdepth]
    exact harranged.apart

end Arranged

end Placement

end TiledPlacement
