import Mathlib.Data.List.Perm.Subperm
import TiledPlacement.Placement.Evaluation
import TiledPlacement.Proofs.Placement.Routes
import TiledPlacement.Proofs.Placement.Seating

/-!
What the check of consistency decides, on placements that no command need lead to. It looks at every
resident of the grid but only counts what is recorded, and a count is enough: residents are listed
without repetition, so as many of them as there are records leave no record without its resident.
-/

namespace TiledPlacement

open Execution

/-- A list without repetition within another that is no longer has all of its members. -/
private theorem mem_iff_of_subset {α : Type} {part whole : List α} (honce : part.Nodup)
    (hsubset : part ⊆ whole) (hlength : whole.length ≤ part.length) (member : α) :
    member ∈ part ↔ member ∈ whole :=
  ((honce.subperm hsubset).perm_of_length_le hlength).mem_iff

section Maps

variable {κ ν : Type} [Ord κ] [Std.TransOrd κ] [Std.LawfulEqOrd κ] {left right : Std.ExtTreeMap κ ν}

private theorem nodup_entries (map : Std.ExtTreeMap κ ν) : map.toList.Nodup :=
  Std.ExtTreeMap.distinct_keys_toList.imp fun hdistinct hsame =>
    hdistinct (Std.LawfulEqCmp.compare_eq_iff_eq.mpr (congrArg Prod.fst hsame))

/-- A map with as many entries as another, all of which are in the other, is the same. -/
private theorem eq_of_size_eq (hsize : left.size = right.size)
    (hsubset : ∀ (key : κ) (value : ν), right[key]? = some value → left[key]? = some value) :
    left = right := by
  have hentries : right.toList ⊆ left.toList := by
    intro entry hentry
    rw [Std.ExtTreeMap.mem_toList_iff_getElem?_eq_some] at hentry ⊢
    exact hsubset entry.1 entry.2 hentry
  have hmember := mem_iff_of_subset (nodup_entries right) hentries
    (by simp [Std.ExtTreeMap.length_toList, hsize])
  apply Std.ExtTreeMap.ext_getElem?
  intro key
  apply Option.ext
  intro value
  simpa [Std.ExtTreeMap.mem_toList_iff_getElem?_eq_some] using (hmember (key, value)).symm

end Maps

namespace Grid

variable {grid : Grid}

/-- Tasks with the coordinates of the units in which they are. -/
def housed (grid : Grid) : Set (TaskId × Coordinate) :=
  {entry | ∃ cell unit, grid.Sits cell unit entry.1 ∧ grid.unitPlace cell unit = entry.2}

/-- Nobody is in two units. -/
def Singly (grid : Grid) : Prop :=
  ∀ {cell other unit otherUnit task}, grid.Sits cell unit task →
    grid.Sits other otherUnit task → cell = other ∧ unit = otherUnit

theorem unitPlace_inj {cell other : Cell} {unit otherUnit : FunctionalUnit}
    (hcell : grid.hardware.HasCell cell) (hother : grid.hardware.HasCell other)
    (hplace : grid.unitPlace cell unit = grid.unitPlace other otherUnit) :
    cell = other ∧ unit = otherUnit := by
  have hresolve := resolve_unitPlace hcell unit
  rw [hplace, resolve_unitPlace hother] at hresolve
  cases hresolve
  exact ⟨rfl, rfl⟩

theorem mem_points_iff {entry : Coordinate × Point} :
    entry ∈ grid.points ↔ ∃ cell : Cell,
      grid.pointAt? cell = some entry.2 ∧ grid.coordinateAt cell.place = entry.1 := by
  rw [points, mem_region]
  constructor
  · rintro ⟨cell, -, -, hlisted⟩
    exact ⟨cell, hlisted⟩
  · rintro ⟨cell, hpoint, hplace⟩
    exact ⟨cell, Nat.zero_le _, grid.size_cells ▸ hasCell_of_pointAt? hpoint, hpoint, hplace⟩

theorem mem_residents_iff_housed {resident : Coordinate × TaskId} :
    resident ∈ grid.residents ↔ (resident.2, resident.1) ∈ grid.housed := by
  simp only [residents, mem_residentsOf, mem_points_iff, housed, Set.mem_ofPred_eq]
  constructor
  · rintro ⟨entry, ⟨cell, hpoint, hplace⟩, unit, hholds, hresident⟩
    exact ⟨cell, unit, ⟨entry.2, hpoint, hholds⟩, by rw [unitPlace, hplace, hresident]⟩
  · rintro ⟨cell, unit, ⟨point, hpoint, hholds⟩, hresident⟩
    exact ⟨(_, point), ⟨cell, hpoint, rfl⟩, unit, hholds, hresident⟩

theorem nodup_residents (grid : Grid) : grid.residents.Nodup := by
  have hascending : grid.points.Pairwise fun earlier later =>
      earlier.1.compare later.1 = .lt := region_ascending grid 0 grid.cells.size
  have hdepth : ∀ entry ∈ grid.points, entry.1.depth = grid.spaceDepth + 2 := by
    intro entry hentry
    obtain ⟨cell, -, hplace⟩ := mem_points_iff.mp hentry
    rw [← hplace, depth_coordinateAt]
  apply (residentsOf_ascending hascending hdepth).imp
  rintro earlier _ hless rfl
  rcases hless with hless | ⟨-, hless⟩
  · simp [@Std.ReflCmp.compare_self _ Coordinate.compare] at hless
  · simp at hless

end Grid

namespace Placement

variable {placement : Placement}

/-- Tasks with the coordinates on record. -/
def recorded (placement : Placement) : Set (TaskId × Coordinate) :=
  {entry | placement.coordinate? entry.1 = some entry.2}

theorem residentFault?_eq_none_iff {place : Coordinate} {task : TaskId} :
    placement.residentFault? place task = none ↔
      (task, place) ∈ placement.recorded ∧ placement.graph.hasBlock task = true := by
  unfold residentFault? recorded
  cases hplaced : placement.coordinate? task with
  | none => simp [hplaced]
  | some found => by_cases hsame : found = place <;> simp [hplaced, hsame]

theorem sameRoutes_iff :
    placement.sameRoutes = true ↔ placement.grid.routes = placement.whereabouts.routes := by
  simp only [sameRoutes, Bool.and_eq_true, decide_eq_true_eq, List.all_eq_true, Prod.forall,
    Std.ExtTreeMap.mem_toList_iff_getElem?_eq_some]
  constructor
  · rintro ⟨hsize, hsubset⟩
    exact eq_of_size_eq hsize hsubset
  · intro hsame
    simp [hsame]

theorem checkConsistency_eq_ok_iff : placement.checkConsistency = .ok () ↔
    (∀ resident ∈ placement.grid.residents, (resident.2, resident.1) ∈ placement.recorded ∧
        placement.graph.hasBlock resident.2 = true) ∧
      placement.grid.residents.length = placement.whereabouts.coordinates.size ∧
        placement.grid.routes = placement.whereabouts.routes := by
  have hok : placement.checkConsistency = .ok () ↔ placement.inconsistency? = none := by
    unfold checkConsistency
    cases placement.inconsistency? <;> simp
  rw [hok, inconsistency?, ← sameRoutes_iff]
  simp only [← residentFault?_eq_none_iff, ← List.findSome?_eq_none_iff]
  cases placement.grid.residents.findSome? _ with
  | some fault => simp
  | none =>
      by_cases hlength :
          placement.grid.residents.length = placement.whereabouts.coordinates.size <;>
        simp [hlength]

/-- Entries on record, in the order of tasks. -/
private def entries (placement : Placement) : List (Coordinate × TaskId) :=
  placement.whereabouts.coordinates.toList.map Prod.swap

private theorem mem_entries {entry : Coordinate × TaskId} :
    entry ∈ placement.entries ↔ (entry.2, entry.1) ∈ placement.recorded := by
  simp only [entries, List.mem_map, Prod.exists, Std.ExtTreeMap.mem_toList_iff_getElem?_eq_some]
  constructor
  · rintro ⟨task, place, hplaced, rfl⟩
    exact hplaced
  · exact fun hplaced => ⟨entry.2, entry.1, hplaced, rfl⟩

private theorem nodup_entries_recorded (placement : Placement) : placement.entries.Nodup :=
  (nodup_entries _).map Prod.swap_injective

private theorem length_entries (placement : Placement) :
    placement.entries.length = placement.whereabouts.coordinates.size := by
  simp [entries, Std.ExtTreeMap.length_toList]

/-- Records are those of the residents if each resident is on record and there are as many. -/
theorem recorded_eq_housed_iff :
    placement.recorded = placement.grid.housed ↔
      (∀ resident ∈ placement.grid.residents, (resident.2, resident.1) ∈ placement.recorded) ∧
        placement.grid.residents.length = placement.whereabouts.coordinates.size := by
  have honce := placement.grid.nodup_residents
  rw [← length_entries]
  constructor
  · intro hsame
    have hmember : ∀ resident, resident ∈ placement.grid.residents ↔
        resident ∈ placement.entries := by
      intro resident
      rw [Grid.mem_residents_iff_housed, mem_entries, hsame]
    refine ⟨fun resident hresident => mem_entries.mp ((hmember resident).mp hresident), ?_⟩
    exact ((List.perm_ext_iff_of_nodup honce placement.nodup_entries_recorded).mpr
      hmember).length_eq
  · rintro ⟨hrecorded, hlength⟩
    have hmember := mem_iff_of_subset honce
      (fun resident hresident => mem_entries.mpr (hrecorded resident hresident)) hlength.ge
    apply Set.ext
    rintro ⟨task, place⟩
    have hentry : (place, task) ∈ placement.entries ↔ (task, place) ∈ placement.recorded :=
      mem_entries
    rw [← hentry, ← hmember, Grid.mem_residents_iff_housed]

/-- A task that is recorded once is in one unit. -/
theorem singly_of_recorded (hsame : placement.recorded = placement.grid.housed) :
    placement.grid.Singly := by
  intro cell other unit otherUnit task hsits hotherSits
  have hplaced : (task, placement.grid.unitPlace cell unit) ∈ placement.recorded := by
    rw [hsame]
    exact ⟨cell, unit, hsits, rfl⟩
  have hotherPlaced : (task, placement.grid.unitPlace other otherUnit) ∈ placement.recorded := by
    rw [hsame]
    exact ⟨other, otherUnit, hotherSits, rfl⟩
  have hplace := Option.some.inj (hplaced.symm.trans hotherPlaced)
  obtain ⟨point, hpoint, -⟩ := hsits
  obtain ⟨otherPoint, hotherPoint, -⟩ := hotherSits
  exact Grid.unitPlace_inj (Grid.hasCell_of_pointAt? hpoint) (Grid.hasCell_of_pointAt? hotherPoint)
    hplace

/-- The check passes if and only if the records are those of the residents, nobody is in two units,
every placed task has a block and both sides have the same routes. The placement may be any. -/
theorem checkConsistency_ok_iff :
    placement.checkConsistency = .ok () ↔
      placement.recorded = placement.grid.housed ∧ placement.grid.Singly ∧
        (∀ entry ∈ placement.recorded, placement.graph.hasBlock entry.1 = true) ∧
          placement.grid.routes = placement.whereabouts.routes := by
  rw [checkConsistency_eq_ok_iff]
  constructor
  · rintro ⟨hresidents, hlength, hroutes⟩
    have hsame := recorded_eq_housed_iff.mpr
      ⟨fun resident hresident => (hresidents resident hresident).1, hlength⟩
    refine ⟨hsame, singly_of_recorded hsame, ?_, hroutes⟩
    rintro ⟨task, place⟩ hentry
    rw [hsame] at hentry
    exact (hresidents (place, task) (Grid.mem_residents_iff_housed.mpr hentry)).2
  · rintro ⟨hsame, -, hknown, hroutes⟩
    obtain ⟨hrecorded, hlength⟩ := recorded_eq_housed_iff.mp hsame
    exact ⟨fun resident hresident => ⟨hrecorded resident hresident,
      hknown _ (hrecorded resident hresident)⟩, hlength, hroutes⟩

/-- A routed channel whose first end is in a second bank too, without a record of it. -/
def doubledChannel : Placement :=
  { routedChannel with grid := after (Grid.addTask (bank 2) ⟨0⟩) routedChannel.grid }

theorem checkConsistency_ok_iff_doubledChannel :
    (routedChannel.checkConsistency = .ok () ∧
      routedChannel.recorded = routedChannel.grid.housed ∧ routedChannel.grid.Singly ∧
        (∀ entry ∈ routedChannel.recorded, routedChannel.graph.hasBlock entry.1 = true) ∧
          routedChannel.grid.routes = routedChannel.whereabouts.routes) ∧
      doubledChannel.checkConsistency ≠ .ok () ∧
        ¬(doubledChannel.recorded = doubledChannel.grid.housed ∧ doubledChannel.grid.Singly ∧
          (∀ entry ∈ doubledChannel.recorded, doubledChannel.graph.hasBlock entry.1 = true) ∧
            doubledChannel.grid.routes = doubledChannel.whereabouts.routes) := by
  have hpassed : routedChannel.checkConsistency = .ok () := by decide +kernel
  have hfailed : doubledChannel.checkConsistency ≠ .ok () := by decide +kernel
  exact ⟨⟨hpassed, checkConsistency_ok_iff.mp hpassed⟩, hfailed,
    checkConsistency_ok_iff.not.mp hfailed⟩

end Placement

end TiledPlacement
