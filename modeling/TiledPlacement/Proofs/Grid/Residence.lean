import TiledPlacement.Proofs.Action
import TiledPlacement.Proofs.Grid.Address

/-!
Which tasks a grid holds. Each change of a grid either fails and leaves it as it was, or changes
what one unit of one point holds, or takes one point away.
-/

namespace TiledPlacement

open Execution

namespace Point

theorem holds_slot {point : Point} {unit : FunctionalUnit} (hslot : unit.isSlot = true)
    (task : TaskId) : point.holds unit task = true ↔ point.occupant? unit = some task := by
  simp only [holds, hslot, if_true, decide_eq_true_eq]

theorem holds_memory {point : Point} {task : TaskId} :
    point.holds .memory task = true ↔ task ∈ point.memory :=
  Iff.rfl

private theorem eq_memory {unit : FunctionalUnit} (hbank : ¬unit.isSlot = true) :
    unit = .memory := by
  cases unit <;> first | rfl | exact absurd rfl hbank

theorem holds_setSlot {point : Point} {unit : FunctionalUnit} (hslot : unit.isSlot = true)
    (occupant : Option TaskId) (other : FunctionalUnit) (resident : TaskId) :
    (point.setSlot unit occupant).holds other resident = true ↔
      if other = unit then occupant = some resident else point.holds other resident = true := by
  by_cases hother : other.isSlot = true
  · rw [holds_slot hother, holds_slot hother, occupant?_setSlot]
    by_cases hsame : other = unit <;> simp [hsame, hslot]
  · have hmemory := eq_memory hother
    subst hmemory
    have hdiffer : FunctionalUnit.memory ≠ unit := fun hequal => hother (hequal ▸ hslot)
    rw [if_neg hdiffer, holds_memory, holds_memory, memory_setSlot]

theorem holds_withMemory {point : Point} (memory : TaskSet) (other : FunctionalUnit)
    (resident : TaskId) :
    ({ point with memory } : Point).holds other resident = true ↔
      if other = .memory then resident ∈ memory else point.holds other resident = true := by
  cases other <;> exact Iff.rfl

theorem holds_insert {point filled : Point} {unit : FunctionalUnit} {task : TaskId}
    (hinsert : point.insert unit task = .ok filled) (other : FunctionalUnit) (resident : TaskId) :
    filled.holds other resident = true ↔
      (other = unit ∧ resident = task) ∨ point.holds other resident = true := by
  unfold insert at hinsert
  split at hinsert
  case isTrue hslot =>
    split at hinsert
    case h_1 => cases hinsert
    case h_2 hfree =>
      cases hinsert
      rw [holds_setSlot hslot]
      by_cases hsame : other = unit
      · subst hsame
        rw [holds_slot hslot, hfree]
        simp [eq_comm]
      · simp [hsame]
  case isFalse hbank =>
    have hmemory := eq_memory hbank
    subst hmemory
    split at hinsert
    case isTrue => cases hinsert
    case isFalse =>
      cases hinsert
      rw [holds_withMemory, Std.ExtTreeSet.mem_insert, Std.LawfulEqCmp.compare_eq_iff_eq]
      by_cases hsame : other = .memory
      · subst hsame
        rw [if_pos rfl, holds_memory, @eq_comm _ task resident]
        simp only [true_and]
      · simp [hsame]

theorem holds_remove {point emptied : Point} {unit : FunctionalUnit} {task : TaskId}
    (hremove : point.remove unit task = .ok emptied) (other : FunctionalUnit)
    (resident : TaskId) :
    emptied.holds other resident = true ↔
      ¬(other = unit ∧ resident = task) ∧ point.holds other resident = true := by
  unfold remove at hremove
  split at hremove
  case isTrue => cases hremove
  case isFalse hholds =>
    rw [Bool.not_eq_true', Bool.not_eq_false] at hholds
    split at hremove
    case isTrue hslot =>
      cases hremove
      have hoccupant := (holds_slot hslot task).mp hholds
      rw [holds_setSlot hslot]
      by_cases hsame : other = unit
      · subst hsame
        rw [holds_slot hslot, hoccupant]
        simp [eq_comm]
      · simp [hsame]
    case isFalse hbank =>
      cases hremove
      have hmemory := eq_memory hbank
      subst hmemory
      rw [holds_withMemory, Std.ExtTreeSet.mem_erase, Ne, Std.LawfulEqCmp.compare_eq_iff_eq]
      by_cases hsame : other = .memory
      · subst hsame
        rw [if_pos rfl, holds_memory, @eq_comm _ task resident]
        simp only [true_and]
      · simp [hsame]

theorem mem_residentsOf_iff {point : Point} {unit : FunctionalUnit} {task : TaskId} :
    task ∈ point.residentsOf unit ↔ point.holds unit task = true := by
  by_cases hslot : unit.isSlot = true
  · rw [holds_slot hslot]
    simp [residentsOf, hslot, Option.mem_toList]
  · have hmemory := eq_memory hslot
    subst hmemory
    rw [holds_memory]
    exact Std.ExtTreeSet.mem_toList

theorem mem_residents_iff {point : Point} {unit : FunctionalUnit} {task : TaskId} :
    (unit, task) ∈ point.residents ↔ point.holds unit task = true := by
  have hall : unit ∈ FunctionalUnit.all := by cases unit <;> decide
  simp only [residents, List.mem_flatMap, List.mem_map, Prod.mk.injEq]
  constructor
  · rintro ⟨unit, -, task, hresident, rfl, rfl⟩
    exact mem_residentsOf_iff.mp hresident
  · exact fun hholds => ⟨unit, hall, task, mem_residentsOf_iff.mpr hholds, rfl, rfl⟩

theorem insert_eq_error {point : Point} {unit : FunctionalUnit} {task occupant : TaskId}
    (hinsert : point.insert unit task = .error occupant) :
    (unit.isSlot = true ∧ point.holds unit occupant = true) ∨ point.holds unit task = true := by
  unfold insert at hinsert
  split at hinsert
  case isTrue hslot =>
    split at hinsert
    case h_1 found hfound =>
      cases hinsert
      exact Or.inl ⟨hslot, (holds_slot hslot _).mpr hfound⟩
    case h_2 => cases hinsert
  case isFalse hbank =>
    have hmemory := eq_memory hbank
    subst hmemory
    split at hinsert
    case isTrue hmember => exact Or.inr hmember
    case isFalse => cases hinsert

theorem not_holds_of_remove {point : Point} {unit : FunctionalUnit} {task absent : TaskId}
    (hremove : point.remove unit task = .error absent) : ¬point.holds unit task = true := by
  unfold remove at hremove
  split at hremove
  case isTrue hholds => simpa using hholds
  case isFalse => split at hremove <;> cases hremove

theorem eq_of_holds {left right : Point}
    (halike : ∀ unit task, left.holds unit task = true ↔ right.holds unit task = true) :
    left = right := by
  have hslot : ∀ unit : FunctionalUnit, unit.isSlot = true →
      left.occupant? unit = right.occupant? unit := by
    intro unit hunit
    apply Option.ext
    intro task
    rw [← holds_slot hunit, ← holds_slot hunit]
    exact halike unit task
  have hmemory : left.memory = right.memory :=
    Std.ExtTreeSet.ext_mem fun {task} => halike .memory task
  cases left
  cases right
  have haxon := hslot .axon rfl
  have hsoma1 := hslot .soma1 rfl
  have hsend := hslot .routerSend rfl
  have hreceive := hslot .routerReceive rfl
  have hsoma2 := hslot .soma2 rfl
  simp only [occupant?] at haxon hsoma1 hsend hreceive hsoma2 hmemory
  rw [haxon, hsoma1, hsend, hreceive, hsoma2, hmemory]

end Point

namespace Grid

/-- Whether the task is in the unit of the point at the cell. -/
def Sits (grid : Grid) (cell : Cell) (unit : FunctionalUnit) (task : TaskId) : Prop :=
  ∃ point, grid.pointAt? cell = some point ∧ point.holds unit task = true

theorem pointAt?_setCell_of_lt {grid : Grid} {cell : Cell}
    (hinside : cell.place < grid.cells.size) (other : Cell) (point : Option Point) :
    (grid.setCell cell point).pointAt? other =
      if other = cell then point else grid.pointAt? other := by
  change ((grid.cells.setIfInBounds cell.place point)[other.place]?).join = _
  rw [Array.getElem?_setIfInBounds]
  by_cases hsame : other = cell
  · rw [hsame, if_pos rfl, if_pos hinside, if_pos rfl]
    rfl
  · have hplace : cell.place ≠ other.place := fun hequal => hsame (congrArg Cell.mk hequal.symm)
    rw [if_neg hplace, if_neg hsame]
    rfl

theorem pointAt?_setCell {grid : Grid} {cell : Cell} {old : Point}
    (hold : grid.pointAt? cell = some old) (other : Cell) (point : Option Point) :
    (grid.setCell cell point).pointAt? other =
      if other = cell then point else grid.pointAt? other :=
  pointAt?_setCell_of_lt
    (Array.getElem?_eq_some_iff.mp (Option.join_eq_some_iff.mp hold)).1 other point

/-- What stays when tasks come and go. -/
structure SameFrame (before after : Grid) : Prop where
  hardware : after.hardware = before.hardware
  routes : after.routes = before.routes

theorem SameFrame.resolve {before after : Grid} (hframe : SameFrame before after)
    (coordinate : Coordinate) : after.resolve coordinate = before.resolve coordinate :=
  resolve_congr hframe.hardware coordinate

theorem sits_setCell {grid : Grid} {cell : Cell} {old : Point}
    (hold : grid.pointAt? cell = some old) (other : Cell) (point : Option Point)
    (unit : FunctionalUnit) (task : TaskId) :
    (grid.setCell cell point).Sits other unit task ↔
      if other = cell then ∃ found, point = some found ∧ found.holds unit task = true
      else grid.Sits other unit task := by
  unfold Sits
  rw [pointAt?_setCell hold]
  split <;> exact Iff.rfl

theorem ends_ofExcept_ok {α : Type} {value : α} {grid : Grid}
    {success : α → Grid → Prop} {failure : GridError → Grid → Prop} :
    Ends (ofExcept (.ok value)) grid success failure ↔ success value grid :=
  Iff.rfl

theorem ends_locate (grid : Grid) (place : Coordinate) :
    Ends (locate place) grid
      (fun found after => after = grid ∧
        grid.resolve place = .ok (some (.unit found.1 found.2.1)) ∧
        grid.pointAt? found.1 = some found.2.2)
      (fun _ after => after = grid) := by
  unfold locate
  rw [ends_bind, ends_get, ends_bind]
  cases hunit : grid.resolveUnit place with
  | error error => exact rfl
  | ok found =>
      obtain ⟨cell, unit⟩ := found
      have hresolve := resolveUnit_eq_ok_iff.mp hunit
      rw [ends_ofExcept_ok]
      dsimp only
      cases hpoint : grid.pointAt? cell with
      | none => exact rfl
      | some point => exact ⟨rfl, hresolve, hpoint⟩

/-- A task is put into a unit where it was not, or the grid stays as it was. -/
theorem ends_addTask (grid : Grid) (place : Coordinate) (task : TaskId) :
    Ends (addTask place task) grid
      (fun _ after => SameFrame grid after ∧
        ∃ cell unit, grid.resolve place = .ok (some (.unit cell unit)) ∧
          ∀ other otherUnit resident, after.Sits other otherUnit resident ↔
              (other = cell ∧ otherUnit = unit ∧ resident = task) ∨
                grid.Sits other otherUnit resident)
      (fun _ after => after = grid) := by
  unfold addTask
  rw [ends_bind]
  refine (ends_locate grid place).mono ?_ fun _ _ hafter => hafter
  rintro ⟨cell, unit, point⟩ _ ⟨rfl, hresolve, hpoint⟩
  dsimp only
  cases hinsert : point.insert unit task with
  | error occupant =>
      dsimp only
      split <;> exact rfl
  | ok filled =>
      refine ⟨⟨rfl, rfl⟩, cell, unit, hresolve, fun other otherUnit resident => ?_⟩
      rw [sits_setCell hpoint]
      split
      case isTrue hsame =>
        subst hsame
        simp only [Option.some.injEq, exists_eq_left', Point.holds_insert hinsert, true_and, Sits,
          hpoint]
      case isFalse hdiffer => simp only [hdiffer, false_and, false_or]

/-- A task leaves the unit in which it was, or the grid stays as it was. -/
theorem ends_removeTask (grid : Grid) (place : Coordinate) (task : TaskId) :
    Ends (removeTask place task) grid
      (fun _ after => SameFrame grid after ∧
        ∃ cell unit, grid.resolve place = .ok (some (.unit cell unit)) ∧
          ∀ other otherUnit resident, after.Sits other otherUnit resident ↔
              ¬(other = cell ∧ otherUnit = unit ∧ resident = task) ∧
                grid.Sits other otherUnit resident)
      (fun _ after => after = grid) := by
  unfold removeTask
  rw [ends_bind]
  refine (ends_locate grid place).mono ?_ fun _ _ hafter => hafter
  rintro ⟨cell, unit, point⟩ _ ⟨rfl, hresolve, hpoint⟩
  dsimp only
  cases hremove : point.remove unit task with
  | error absent => exact rfl
  | ok emptied =>
      refine ⟨⟨rfl, rfl⟩, cell, unit, hresolve, fun other otherUnit resident => ?_⟩
      rw [sits_setCell hpoint]
      split
      case isTrue hsame =>
        subst hsame
        simp only [Option.some.injEq, exists_eq_left', Point.holds_remove hremove, true_and, Sits,
          hpoint]
      case isFalse hdiffer => simp only [hdiffer, false_and, not_false_eq_true, true_and]

/-- A point that holds nothing can be taken away without a trace in who sits where. -/
theorem ends_removePoint (grid : Grid) (place : Coordinate) :
    Ends (removePoint place) grid
      (fun _ after => SameFrame grid after ∧
        ∃ cell, grid.resolve place = .ok (some (.point cell)) ∧
          ∀ other unit task, after.Sits other unit task ↔
            other ≠ cell ∧ grid.Sits other unit task)
      (fun _ after => after = grid) := by
  unfold removePoint
  rw [ends_bind, ends_get, ends_bind]
  unfold resolveForChange
  split
  case isTrue => exact rfl
  case isFalse =>
    cases hresolve : grid.resolve place with
    | error error => exact rfl
    | ok address =>
        rcases address with _ | ⟨column⟩ | ⟨column, step⟩ | ⟨cell⟩ | ⟨cell, unit⟩
        case some.point =>
          rw [ends_ofExcept_ok]
          dsimp only
          cases hpoint : grid.pointAt? cell with
          | none => exact rfl
          | some point =>
              refine ⟨⟨rfl, rfl⟩, cell, rfl, fun other unit task => ?_⟩
              rw [sits_setCell hpoint]
              split
              case isTrue hsame => simp [hsame]
              case isFalse hdiffer => simp [hdiffer]
        all_goals exact rfl

/-! What becomes of a change is settled by the unit to which its coordinate leads. -/

section Unit

variable {grid : Grid} {place : Coordinate} {cell : Cell} {unit : FunctionalUnit}

theorem ends_locate_unit (hresolve : grid.resolve place = .ok (some (.unit cell unit))) :
    Ends (locate place) grid
      (fun found after => after = grid ∧ found.1 = cell ∧ found.2.1 = unit ∧
        grid.pointAt? cell = some found.2.2)
      (fun error after => after = grid ∧ grid.pointAt? cell = none ∧ error = .notFound place) := by
  unfold locate
  rw [ends_bind, ends_get, ends_bind, resolveUnit_eq_ok_iff.mpr hresolve, ends_ofExcept_ok]
  dsimp only
  cases hpoint : grid.pointAt? cell with
  | none => exact ⟨rfl, rfl, rfl⟩
  | some point => exact ⟨rfl, rfl, rfl, rfl⟩

theorem ends_addTask_unit (hresolve : grid.resolve place = .ok (some (.unit cell unit)))
    (task : TaskId) :
    Ends (addTask place task) grid
      (fun _ after => ∃ point filled, grid.pointAt? cell = some point ∧
        point.insert unit task = .ok filled ∧ after = grid.setCell cell (some filled))
      (fun error after => after = grid ∧
        (grid.pointAt? cell = none ∧ error = .notFound place ∨
          (∃ occupant, unit.isSlot = true ∧ grid.Sits cell unit occupant ∧
            error = .occupied place unit occupant) ∨ grid.Sits cell unit task)) := by
  unfold addTask
  rw [ends_bind]
  refine (ends_locate_unit hresolve).mono (fun found after hfound => ?_)
    (fun error after hfailed => ⟨hfailed.1, Or.inl hfailed.2⟩)
  obtain ⟨foundCell, foundUnit, point⟩ := found
  obtain ⟨rfl, rfl, rfl, hpoint⟩ := hfound
  dsimp only at hpoint ⊢
  cases hinsert : point.insert foundUnit task with
  | ok filled => exact ⟨point, filled, hpoint, hinsert, rfl⟩
  | error occupant =>
      rcases Point.insert_eq_error hinsert with ⟨hslot, hholds⟩ | hholds
      · dsimp only
        rw [if_pos hslot]
        exact ⟨rfl, Or.inr (Or.inl ⟨occupant, hslot, ⟨point, hpoint, hholds⟩, rfl⟩)⟩
      · dsimp only
        split <;> exact ⟨rfl, Or.inr (Or.inr ⟨point, hpoint, hholds⟩)⟩

theorem ends_removeTask_unit (hresolve : grid.resolve place = .ok (some (.unit cell unit)))
    (task : TaskId) :
    Ends (removeTask place task) grid
      (fun _ after => ∃ point emptied, grid.pointAt? cell = some point ∧
        point.remove unit task = .ok emptied ∧ after = grid.setCell cell (some emptied))
      (fun _ after => after = grid ∧ ¬grid.Sits cell unit task) := by
  unfold removeTask
  rw [ends_bind]
  refine (ends_locate_unit hresolve).mono (fun found after hfound => ?_)
    (fun error after hfailed => ⟨hfailed.1, ?_⟩)
  · obtain ⟨foundCell, foundUnit, point⟩ := found
    obtain ⟨rfl, rfl, rfl, hpoint⟩ := hfound
    dsimp only at hpoint ⊢
    cases hremove : point.remove foundUnit task with
    | ok emptied => exact ⟨point, emptied, hpoint, hremove, rfl⟩
    | error absent =>
        refine ⟨rfl, fun hsits => ?_⟩
        obtain ⟨other, hother, hholds⟩ := hsits
        obtain rfl := Option.some.inj (hpoint.symm.trans hother)
        exact Point.not_holds_of_remove hremove hholds
  · intro hsits
    obtain ⟨point, hpoint, -⟩ := hsits
    cases hfailed.2.1.symm.trans hpoint

end Unit

theorem ends_removePoint_of {grid : Grid} {place : Coordinate} {cell : Cell} {point : Point}
    {success : Point → Grid → Prop} {failure : GridError → Grid → Prop}
    (hresolve : grid.resolve place = .ok (some (.point cell)))
    (hpoint : grid.pointAt? cell = some point) (hdone : success point (grid.setCell cell none)) :
    Ends (removePoint place) grid success failure := by
  have hdepth := (resolve_eq_point_iff.mp hresolve).1
  have hfits : ¬grid.hardware.fullDepth < place.depth := by
    rw [hdepth]
    exact Nat.not_lt.mpr (Nat.le_succ _)
  unfold removePoint
  rw [ends_bind, ends_get, ends_bind, resolveForChange, if_neg hfits, hresolve, ends_ofExcept_ok]
  dsimp only
  rw [hpoint]
  exact hdone

end Grid

end TiledPlacement
