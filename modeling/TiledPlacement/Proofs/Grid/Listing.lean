import TiledPlacement.Proofs.Grid.Reading

/-!
The listing of a column: its points in the order of their cells, with the residents of each. A
listed coordinate has a single component for step, phase and unit. A coordinate that has more of
them there names the same unit and is listed without them.
-/

namespace TiledPlacement

theorem FunctionalUnit.index_of_ofIndex? {index : Nat} {unit : FunctionalUnit}
    (hunit : ofIndex? index = some unit) : unit.index = index := by
  rcases index with _ | _ | _ | _ | _ | _ | index <;> cases hunit <;> rfl

namespace Coordinate

/-- The same coordinate with no more than one component in each time level. -/
def plain (coordinate : Coordinate) (spaceDepth : Nat) : Coordinate :=
  ⟨coordinate.levels.take spaceDepth ++
    (coordinate.levels.drop spaceDepth).map fun position => ⟨position.components.take 1⟩⟩

theorem take_plain (place : Coordinate) (spaceDepth : Nat) :
    (place.plain spaceDepth).take spaceDepth = place.take spaceDepth := by
  simp only [plain, take, mk.injEq]
  by_cases hdepth : spaceDepth ≤ place.levels.length
  · exact List.take_left' (List.length_take_of_le hdepth)
  · rw [List.drop_eq_nil_of_le (Nat.le_of_not_le hdepth), List.map_nil, List.append_nil,
      List.take_take, Nat.min_self]

section Relocated

variable {depth : Nat} {target : Coordinate} (htarget : depth ≤ target.depth) (place : Coordinate)
include htarget

theorem take_relocated : (place.relocated depth target).take depth = target.take depth := by
  have hlength : (target.levels.take depth).length = depth := List.length_take_of_le htarget
  simp only [take, relocated, List.take_left' hlength]

theorem drop_relocated :
    (place.relocated depth target).levels.drop depth = place.levels.drop depth := by
  have hlength : (target.levels.take depth).length = depth := List.length_take_of_le htarget
  simp only [relocated, List.drop_left' hlength]

theorem scalar?_relocated (offset : Nat) :
    (place.relocated depth target).scalar? (depth + offset) = place.scalar? (depth + offset) := by
  rw [Hardware.scalar?_eq, Hardware.scalar?_eq, drop_relocated htarget]

end Relocated

end Coordinate

namespace Grid

open Hardware

variable {grid : Grid} {place : Coordinate} {cell : Cell} {unit : FunctionalUnit}

theorem depth_of_columnIndex? {hardware : Hardware} {number : Nat}
    (hnumber : hardware.columnIndex? place = some number) : hardware.spaceDepth ≤ place.depth := by
  have hcolumn := columnIndex?_isSome_iff.mp (Option.isSome_of_eq_some hnumber)
  have hlength : (place.levels.take hardware.spaceDepth).length = hardware.spaceDepth :=
    hcolumn.length
  rw [List.length_take] at hlength
  exact hlength.symm.trans_le (Nat.min_le_right _ _)

/-- Coordinates name the same column if and only if they agree on the space levels. -/
theorem columnIndex?_eq_iff {hardware : Hardware} (hbounded : hardware.ColumnsBounded)
    {number : Nat} (hnumber : hardware.columnIndex? place = some number) (other : Coordinate) :
    hardware.columnIndex? other = some number ↔
      place.take hardware.spaceDepth = other.take hardware.spaceDepth := by
  constructor
  · intro hother
    have hpositions := hbounded.positionsAt_of_columnIndex? hnumber
    rw [hbounded.positionsAt_of_columnIndex? hother] at hpositions
    exact congrArg Coordinate.mk hpositions.symm
  · intro htake
    rw [← columnIndex?_take, ← htake, columnIndex?_take, hnumber]

/-! The coordinate under which a unit is listed. -/

def unitPlace (grid : Grid) (cell : Cell) (unit : FunctionalUnit) : Coordinate :=
  (grid.coordinateAt cell.place).push (.scalar unit.index)

theorem levels_unitPlace (grid : Grid) (cell : Cell) (unit : FunctionalUnit) :
    (grid.unitPlace cell unit).levels =
      positionsAt grid.hardware.levels (grid.hardware.columnOf cell) ++
        [.scalar (grid.hardware.stepOf cell), .scalar (grid.hardware.phaseOf cell),
          .scalar unit.index] := by
  rw [unitPlace, Coordinate.push, levels_coordinateAt, List.append_assoc]
  rfl

private theorem take_one_of_scalar {position : Position} {value : Nat}
    (hvalue : position.get? 0 = some value) :
    (⟨position.components.take 1⟩ : Position) = .scalar value := by
  obtain ⟨components⟩ := position
  cases components with
  | nil => cases hvalue
  | cons first rest =>
      cases hvalue
      rfl

theorem columnIndex?_of_resolve (hbounded : grid.hardware.Bounded)
    (hresolve : grid.resolve place = .ok (some (.unit cell unit))) :
    grid.hardware.columnIndex? place = some (grid.hardware.columnOf cell) := by
  obtain ⟨-, -, column, step, phase, hreaches, rfl⟩ := resolve_eq_unit_iff.mp hresolve
  have hcolumn := hbounded.columns.columnIndex?_lt hreaches.column_eq
  rw [hbounded.columnOf_cell hcolumn hreaches.step_lt hreaches.phase_lt, hreaches.column_eq]

theorem plain_eq_unitPlace (hbounded : grid.hardware.Bounded)
    (hresolve : grid.resolve place = .ok (some (.unit cell unit))) :
    place.plain grid.spaceDepth = grid.unitPlace cell unit := by
  obtain ⟨hdepth, hunit, column, step, phase, hreaches, rfl⟩ := resolve_eq_unit_iff.mp hresolve
  have hcolumn := hbounded.columns.columnIndex?_lt hreaches.column_eq
  have hlevels := grid.levels_unitPlace (grid.hardware.cell column step phase) unit
  rw [hbounded.columnOf_cell hcolumn hreaches.step_lt hreaches.phase_lt,
    hbounded.stepOf_cell hcolumn hreaches.step_lt hreaches.phase_lt,
    hbounded.phaseOf_cell hcolumn hreaches.step_lt hreaches.phase_lt] at hlevels
  have hrest : (place.levels.drop grid.spaceDepth).length = 3 := by
    rw [List.length_drop]
    exact (congrArg (· - grid.spaceDepth) hdepth).trans (Nat.add_sub_cancel_left _ _)
  obtain ⟨first, second, third, htime⟩ := List.length_eq_three.mp hrest
  have hscalar : ∀ offset, place.scalar? (grid.spaceDepth + offset) =
      [first, second, third][offset]?.bind (·.get? 0) := by
    intro offset
    rw [scalar?_eq, htime]
  obtain ⟨index, hindex, hofIndex⟩ := Option.bind_eq_some_iff.mp hunit
  have hnames :
      [first, second, third].map (fun position => (⟨position.components.take 1⟩ : Position)) =
        [.scalar step, .scalar phase, .scalar unit.index] := by
    rw [FunctionalUnit.index_of_ofIndex? hofIndex]
    have hfirst := take_one_of_scalar ((hscalar 0).symm.trans hreaches.step_eq)
    have hsecond := take_one_of_scalar ((hscalar 1).symm.trans hreaches.phase_eq)
    have hthird := take_one_of_scalar ((hscalar 2).symm.trans hindex)
    simp only [List.map_cons, List.map_nil, hfirst, hsecond, hthird]
  rw [Coordinate.plain, htime, hnames]
  have hspace : place.levels.take grid.spaceDepth = positionsAt grid.hardware.levels column :=
    (hbounded.columns.positionsAt_of_columnIndex? hreaches.column_eq).symm
  rw [hspace, ← hlevels]

theorem plain_unitPlace (grid : Grid) (cell : Cell) (unit : FunctionalUnit) :
    (grid.unitPlace cell unit).plain grid.spaceDepth = grid.unitPlace cell unit := by
  have hlength : (positionsAt grid.hardware.levels (grid.hardware.columnOf cell)).length =
      grid.spaceDepth := length_positionsAt _ _
  have hlevels := grid.levels_unitPlace cell unit
  rw [Coordinate.plain, hlevels, List.take_left' hlength, List.drop_left' hlength]
  exact congrArg Coordinate.mk hlevels.symm

/-- A step and a phase are named in the column to which a coordinate is relocated. -/
theorem reaches_relocated {hardware : Hardware} {column step phase number : Nat}
    (hreaches : hardware.Reaches place column step phase) {target : Coordinate}
    (htarget : hardware.columnIndex? target = some number) :
    hardware.Reaches (place.relocated hardware.spaceDepth target) number step phase := by
  have hspace := depth_of_columnIndex? htarget
  have hscalar := Coordinate.scalar?_relocated hspace place
  refine ⟨?_, (hscalar 0).trans hreaches.step_eq, hreaches.step_lt,
    (hscalar 1).trans hreaches.phase_eq, hreaches.phase_lt⟩
  rw [← columnIndex?_take, Coordinate.take_relocated hspace, columnIndex?_take, htarget]

/-- A unit keeps its step and phase when its coordinate is relocated. -/
theorem resolve_relocated (hbounded : grid.hardware.Bounded)
    (hresolve : grid.resolve place = .ok (some (.unit cell unit)))
    {target : Coordinate} {number : Nat}
    (htarget : grid.hardware.columnIndex? target = some number) :
    grid.resolve (place.relocated grid.spaceDepth target) = .ok (some (.unit
      (grid.hardware.cell number (grid.hardware.stepOf cell) (grid.hardware.phaseOf cell))
        unit)) := by
  obtain ⟨hdepth, hunit, column, step, phase, hreaches, rfl⟩ := resolve_eq_unit_iff.mp hresolve
  have hcolumn := hbounded.columns.columnIndex?_lt hreaches.column_eq
  have hspace : grid.spaceDepth ≤ target.depth := depth_of_columnIndex? htarget
  rw [hbounded.stepOf_cell hcolumn hreaches.step_lt hreaches.phase_lt,
    hbounded.phaseOf_cell hcolumn hreaches.step_lt hreaches.phase_lt]
  refine resolve_eq_unit_iff.mpr
    ⟨?_, ?_, number, step, phase, reaches_relocated hreaches htarget, rfl⟩
  · rw [← hdepth]
    have hfull : grid.spaceDepth ≤ place.depth := by
      rw [hdepth]
      exact Nat.le_add_right _ 3
    have htake : (target.levels.take grid.spaceDepth).length = grid.spaceDepth :=
      List.length_take_of_le hspace
    simp only [Coordinate.depth, Coordinate.relocated, List.length_append, List.length_drop, htake]
    exact Nat.add_sub_cancel' hfull
  · rw [Coordinate.unit?, Coordinate.scalar?_relocated hspace]
    exact hunit

/-! The points of a column. -/

/-- The points in the column that a coordinate names; none if it names no column. -/
def columnPoints (grid : Grid) (place : Coordinate) : List (Coordinate × Point) :=
  ((grid.hardware.columnIndex? place).map fun number =>
    grid.region (grid.hardware.columnStart number)
      (grid.hardware.columnStart (number + 1))).getD []

theorem columnPoints_take (grid : Grid) (place : Coordinate) :
    grid.columnPoints (place.take grid.spaceDepth) = grid.columnPoints place := by
  rw [columnPoints, columnPoints, spaceDepth, columnIndex?_take]

theorem column?_take (grid : Grid) (place : Coordinate) :
    grid.column? (place.take grid.spaceDepth) = grid.column? place := by
  simp only [column?, Coordinate.take, List.take_take, Nat.min_self]

theorem column?_eq (grid : Grid) (place : Coordinate) :
    grid.column? place =
      if place.depth < grid.spaceDepth then
        .error (.contract (place.take grid.spaceDepth) (.tooShallow place.depth grid.spaceDepth))
      else
        .ok (if (grid.columnPoints place).isEmpty then none
          else some (grid.columnPoints place)) := by
  have hdepth : (place.take grid.spaceDepth).depth = min grid.spaceDepth place.depth :=
    List.length_take
  have hcolumn : grid.hardware.columnIndex? (place.take grid.spaceDepth) =
      grid.hardware.columnIndex? place := columnIndex?_take _ _
  have hfull : grid.hardware.fullDepth = grid.spaceDepth + 3 := rfl
  unfold column? element? resolve columnPoints
  dsimp only
  rw [hdepth]
  by_cases hshallow : place.depth < grid.spaceDepth
  · rw [Nat.min_eq_right hshallow.le, if_pos hshallow, if_pos hshallow]
    rfl
  · rw [Nat.min_eq_left (Nat.not_lt.mp hshallow), if_neg (Nat.lt_irrefl _), if_neg hshallow,
      if_neg (by omega), hcolumn]
    cases grid.hardware.columnIndex? place with
    | none => rfl
    | some number =>
        simp only [Option.bind_eq_bind, Option.bind_some, if_true, Option.pure_def, Except.map,
          Option.map_some, Option.getD_some, nonempty]
        generalize grid.region _ _ = points
        cases points <;> rfl

theorem columnPoints_of_column? {points : List (Coordinate × Point)}
    (hcolumn : grid.column? place = .ok (some points)) :
    grid.columnPoints place = points ∧ points ≠ [] ∧ ∃ number,
      grid.hardware.columnIndex? place = some number := by
  rw [column?_eq] at hcolumn
  split at hcolumn
  case isTrue => cases hcolumn
  case isFalse =>
    split at hcolumn
    case isTrue => cases hcolumn
    case isFalse hsome =>
      cases hcolumn
      refine ⟨rfl, fun hnone => hsome (List.isEmpty_iff.mpr hnone), ?_⟩
      cases hnumber : grid.hardware.columnIndex? place with
      | none =>
          rw [columnPoints, hnumber] at hsome
          exact absurd rfl hsome
      | some number => exact ⟨number, rfl⟩

theorem column?_error {error : GridError} (hcolumn : grid.column? place = .error error) :
    place.depth < grid.spaceDepth ∧
      error = .contract (place.take grid.spaceDepth) (.tooShallow place.depth grid.spaceDepth) := by
  rw [column?_eq] at hcolumn
  split at hcolumn
  case isTrue hshallow =>
    cases hcolumn
    exact ⟨hshallow, rfl⟩
  case isFalse => cases hcolumn

/-- Whatever is listed for a column stands in the cell for which its coordinate is listed. -/
theorem exists_cell_of_mem {entry : Coordinate × Point} (hentry : entry ∈ grid.columnPoints place) :
    ∃ cell : Cell, grid.pointAt? cell = some entry.2 ∧ grid.coordinateAt cell.place = entry.1 := by
  unfold columnPoints at hentry
  cases hnumber : grid.hardware.columnIndex? place with
  | none =>
      rw [hnumber] at hentry
      cases hentry
  | some number =>
      rw [hnumber] at hentry
      obtain ⟨cell, -, -, hpoint, hplace⟩ := mem_region.mp hentry
      exact ⟨cell, hpoint, hplace⟩

/-- A point is in the column if its cell is, and is listed under the coordinate of its cell. -/
theorem mem_columnPoints (hbounded : grid.hardware.Bounded) {entry : Coordinate × Point} :
    entry ∈ grid.columnPoints place ↔ ∃ cell, grid.hardware.HasCell cell ∧
      grid.hardware.columnIndex? place = some (grid.hardware.columnOf cell) ∧
        grid.pointAt? cell = some entry.2 ∧ grid.coordinateAt cell.place = entry.1 := by
  constructor
  · intro hentry
    unfold columnPoints at hentry
    cases hnumber : grid.hardware.columnIndex? place with
    | none =>
        rw [hnumber] at hentry
        cases hentry
    | some number =>
        rw [hnumber] at hentry
        obtain ⟨cell, hstart, hstop, hpoint, hplace⟩ := mem_region.mp hentry
        have hcell := hasCell_of_pointAt? hpoint
        have hcolumn := hbounded.columns.columnIndex?_lt hnumber
        refine ⟨cell, hcell, congrArg some ?_, hpoint, hplace⟩
        exact ((hbounded.columnOf_eq_iff hcolumn hcell).mpr ⟨hstart, hstop⟩).symm
  · rintro ⟨cell, hcell, hnumber, hpoint, hplace⟩
    obtain ⟨hstart, hstop⟩ := (hbounded.columnOf_eq_iff hcell.columnOf_lt hcell).mp rfl
    rw [columnPoints, hnumber]
    exact mem_region.mpr ⟨cell, hstart, hstop, hpoint, hplace⟩

theorem column?_of_no_points (hbounded : grid.hardware.Bounded)
    (hdepth : ¬place.depth < grid.spaceDepth)
    (hnone : ∀ cell, grid.hardware.HasCell cell →
      grid.hardware.columnIndex? place = some (grid.hardware.columnOf cell) →
        grid.pointAt? cell = none) :
    grid.column? place = .ok none := by
  have hempty : grid.columnPoints place = [] := by
    refine List.eq_nil_iff_forall_not_mem.mpr fun entry hentry => ?_
    obtain ⟨cell, hcell, hcolumn, hpoint, -⟩ := (mem_columnPoints hbounded).mp hentry
    rw [hnone cell hcell hcolumn] at hpoint
    cases hpoint
  rw [column?_eq, if_neg hdepth, hempty]
  rfl

theorem columnPoints_ascending (grid : Grid) (place : Coordinate) :
    (grid.columnPoints place).Pairwise fun earlier later =>
      earlier.1.compare later.1 = .lt := by
  unfold columnPoints
  cases hnumber : grid.hardware.columnIndex? place with
  | none => exact List.Pairwise.nil
  | some number => exact grid.region_ascending _ _

theorem columnPoints_once (grid : Grid) (place : Coordinate) :
    ((grid.columnPoints place).map Prod.fst).Nodup := by
  rw [List.Nodup, List.pairwise_map]
  refine (grid.columnPoints_ascending place).imp fun {earlier later} hless hsame => ?_
  rw [hsame, @Std.ReflCmp.compare_self _ Coordinate.compare] at hless
  cases hless

/-- Cells are listed under the same coordinates in all grids of the same hardware. -/
theorem listed_congr {other : Grid} (hhardware : other.hardware = grid.hardware) (place : Nat) :
    other.coordinateAt place = grid.coordinateAt place := by
  rw [coordinateAt, coordinateAt, hhardware]

theorem resolve_unitPlace (hcell : grid.hardware.HasCell cell) (unit : FunctionalUnit) :
    grid.resolve (grid.unitPlace cell unit) = .ok (some (.unit cell unit)) :=
  resolve_coordinateAt_push hcell unit

theorem withUnit_unitPlace (grid : Grid) (cell : Cell) (unit other : FunctionalUnit) :
    (grid.unitPlace cell unit).withUnit grid.spaceDepth other = grid.unitPlace cell other := by
  have htake : (grid.unitPlace cell unit).take (grid.spaceDepth + 2) =
      grid.coordinateAt cell.place :=
    congrArg Coordinate.mk (List.take_left' (grid.depth_coordinateAt _))
  rw [Coordinate.withUnit, htake, unitPlace]

theorem unitPlace_congr {other : Grid} (hhardware : other.hardware = grid.hardware) (cell : Cell)
    (unit : FunctionalUnit) : other.unitPlace cell unit = grid.unitPlace cell unit := by
  rw [unitPlace, listed_congr hhardware, unitPlace]

theorem listed_inj {other : Cell} (hcell : grid.hardware.HasCell cell)
    (hother : grid.hardware.HasCell other)
    (hlisted : grid.coordinateAt cell.place = grid.coordinateAt other.place) : cell = other := by
  have hresolve := resolve_coordinateAt hcell
  rw [hlisted, resolve_coordinateAt hother] at hresolve
  cases hresolve
  rfl

theorem mem_columnPlaces (hbounded : grid.hardware.Bounded) {cell : Cell}
    (hcell : grid.hardware.HasCell cell) :
    grid.coordinateAt cell.place ∈ (grid.columnPoints place).map Prod.fst ↔
      grid.hardware.columnIndex? place = some (grid.hardware.columnOf cell) ∧
        (grid.pointAt? cell).isSome = true := by
  rw [List.mem_map, Option.isSome_iff_exists]
  constructor
  · rintro ⟨entry, hentry, hplace⟩
    obtain ⟨other, hother, hnumber, hpoint, hlisted⟩ := (mem_columnPoints hbounded).mp hentry
    obtain rfl := listed_inj hother hcell (hlisted.trans hplace)
    exact ⟨hnumber, _, hpoint⟩
  · rintro ⟨hnumber, point, hpoint⟩
    exact ⟨(_, point), (mem_columnPoints hbounded).mpr ⟨cell, hcell, hnumber, hpoint, rfl⟩, rfl⟩

/-! The residents of a column. -/

theorem mem_residentsOf {points : List (Coordinate × Point)} {resident : Coordinate × TaskId} :
    resident ∈ residentsOf points ↔ ∃ entry ∈ points, ∃ unit,
      entry.2.holds unit resident.2 = true ∧ entry.1.push (.scalar unit.index) = resident.1 := by
  simp only [residentsOf, List.mem_flatMap, List.mem_map, Prod.exists, Point.mem_residents_iff]
  constructor
  · rintro ⟨place, point, hentry, unit, task, hholds, rfl⟩
    exact ⟨place, point, hentry, unit, hholds, rfl⟩
  · rintro ⟨place, point, hentry, unit, hholds, hplace⟩
    exact ⟨place, point, hentry, unit, resident.2, hholds, Prod.ext hplace rfl⟩

theorem mem_columnResidents (hbounded : grid.hardware.Bounded) {resident : Coordinate × TaskId} :
    resident ∈ residentsOf (grid.columnPoints place) ↔ ∃ cell unit, grid.hardware.HasCell cell ∧
      grid.hardware.columnIndex? place = some (grid.hardware.columnOf cell) ∧
        grid.Sits cell unit resident.2 ∧ grid.unitPlace cell unit = resident.1 := by
  simp only [mem_residentsOf, mem_columnPoints hbounded]
  constructor
  · rintro ⟨entry, ⟨cell, hcell, hcolumn, hpoint, hplace⟩, unit, hholds, hresident⟩
    refine ⟨cell, unit, hcell, hcolumn, ⟨entry.2, hpoint, hholds⟩, ?_⟩
    rw [unitPlace, hplace, hresident]
  · rintro ⟨cell, unit, hcell, hcolumn, ⟨point, hpoint, hholds⟩, hresident⟩
    exact ⟨(_, point), ⟨cell, hcell, hcolumn, hpoint, rfl⟩, unit, hholds, hresident⟩

theorem columnResidents_ascending (grid : Grid) (place : Coordinate) :
    (residentsOf (grid.columnPoints place)).Pairwise fun earlier later =>
      earlier.1.compare later.1 = .lt ∨
        earlier.1 = later.1 ∧ compare earlier.2 later.2 = .lt := by
  have hdepth : ∀ entry ∈ grid.columnPoints place, entry.1.depth = grid.spaceDepth + 2 := by
    intro entry hentry
    obtain ⟨cell, -, hplace⟩ := exists_cell_of_mem hentry
    rw [← hplace, depth_coordinateAt]
  exact residentsOf_ascending (grid.columnPoints_ascending place) hdepth

theorem isEmpty_of_no_residents {points : List (Coordinate × Point)}
    (hcolumn : grid.column? place = .ok (some points)) (hnone : residentsOf points = []) :
    grid.isEmpty (place.take grid.spaceDepth) = .ok true := by
  have hall : (Element.region points).isEmpty = true := by
    refine List.all_eq_true.mpr fun entry hentry => Point.isEmpty_iff.mpr fun unit task hholds => ?_
    have hresident : (entry.1.push (.scalar unit.index), task) ∈ residentsOf points :=
      mem_residentsOf.mpr ⟨entry, hentry, unit, hholds, rfl⟩
    rw [hnone] at hresident
    cases hresident
  unfold column? at hcolumn
  unfold isEmpty
  cases helement : grid.element? (place.take grid.spaceDepth) with
  | error error =>
      rw [helement] at hcolumn
      cases hcolumn
  | ok found =>
      rw [helement] at hcolumn
      rcases found with _ | ⟨listed⟩ | ⟨point⟩ | ⟨point, unit⟩
      case some.region =>
        cases hcolumn
        exact congrArg Except.ok hall
      all_goals cases hcolumn

end Grid

end TiledPlacement
