import Mathlib.Tactic.Ring
import TiledPlacement.Grid
import TiledPlacement.Proofs.Hardware.Column

/-!
What coordinates lead to. A full coordinate leads to one unit of a cell, and the coordinate listed
for a cell leads back to it. As long as words hold the number of cells, each step and phase of a
column has a cell of its own.
-/

namespace TiledPlacement

namespace Hardware

variable {hardware : Hardware}

/-- Whether the grids of the accelerator have the cell. -/
def HasCell (hardware : Hardware) (cell : Cell) : Prop := cell.place < hardware.cellCount

/-- Number of the column in which the cell lies. -/
def columnOf (hardware : Hardware) (cell : Cell) : Nat := cell.place / hardware.pointsPerColumn

def stepOf (hardware : Hardware) (cell : Cell) : Nat :=
  cell.place % hardware.pointsPerColumn / hardware.phases

def phaseOf (hardware : Hardware) (cell : Cell) : Nat :=
  cell.place % hardware.pointsPerColumn % hardware.phases

section Cell

variable {cell : Cell} (hcell : hardware.HasCell cell)
include hcell

theorem HasCell.place_lt : cell.place < hardware.columnCount * hardware.pointsPerColumn :=
  Nat.lt_of_lt_of_le hcell (word_le _)

theorem HasCell.pointsPerColumn_pos : 0 < hardware.pointsPerColumn :=
  Nat.pos_of_mul_pos_left (Nat.zero_lt_of_lt hcell.place_lt)

theorem HasCell.columnOf_lt : hardware.columnOf cell < hardware.columnCount :=
  (Nat.div_lt_iff_lt_mul hcell.pointsPerColumn_pos).mpr hcell.place_lt

theorem HasCell.within_lt :
    cell.place % hardware.pointsPerColumn < hardware.steps * hardware.phases :=
  Nat.lt_of_lt_of_le (Nat.mod_lt _ hcell.pointsPerColumn_pos) (word_le _)

theorem HasCell.phases_pos : 0 < hardware.phases :=
  Nat.pos_of_mul_pos_left (Nat.zero_lt_of_lt hcell.within_lt)

theorem HasCell.stepOf_lt : hardware.stepOf cell < hardware.steps :=
  (Nat.div_lt_iff_lt_mul hcell.phases_pos).mpr hcell.within_lt

theorem HasCell.phaseOf_lt : hardware.phaseOf cell < hardware.phases :=
  Nat.mod_lt _ hcell.phases_pos

/-- A cell is the one for the column, step and phase that its place is divided into. -/
theorem HasCell.cell_eq :
    hardware.cell (hardware.columnOf cell) (hardware.stepOf cell) (hardware.phaseOf cell) =
      cell := by
  have hwithin : hardware.stepOf cell * hardware.phases + hardware.phaseOf cell =
      cell.place % hardware.pointsPerColumn := by
    rw [stepOf, phaseOf, Nat.mul_comm]
    exact Nat.div_add_mod _ _
  have hplace : hardware.columnOf cell * hardware.pointsPerColumn +
      cell.place % hardware.pointsPerColumn = cell.place := by
    rw [columnOf, Nat.mul_comm]
    exact Nat.div_add_mod _ _
  have hfits : cell.place < wordCount := Nat.lt_trans hcell (word_lt _)
  refine congrArg Cell.mk ?_
  calc
    word ((hardware.columnOf cell * hardware.steps + hardware.stepOf cell) * hardware.phases +
          hardware.phaseOf cell)
        = word (hardware.columnOf cell * (hardware.steps * hardware.phases) +
            cell.place % hardware.pointsPerColumn) := by rw [← hwithin]; congr 1; ring
    _ = word (hardware.columnOf cell * hardware.pointsPerColumn +
            cell.place % hardware.pointsPerColumn) := by
          rw [pointsPerColumn, ← word_word_add, ← word_mul_word, word_word_add]
    _ = cell.place := by rw [hplace, word_of_lt hfits]

end Cell

/-! Hardware with a cell for every place in time and space. -/

namespace Bounded

variable (hbounded : hardware.Bounded)
include hbounded

theorem cellCount_eq :
    hardware.cellCount = hardware.columnCount * hardware.pointsPerColumn := by
  have hcells := hbounded.cells
  rw [cellCount, hbounded.columns.columnCount_eq, hbounded.pointsPerColumn_eq, word_of_lt hcells]

theorem columnEnd_le {column : Nat} (hcolumn : column < hardware.columnCount) :
    (column + 1) * hardware.pointsPerColumn ≤ hardware.cellCount := by
  rw [hbounded.cellCount_eq]
  exact Nat.mul_le_mul_right _ hcolumn

/-- The column after a column of the accelerator starts in the cells or right behind them. -/
theorem columnStart_eq {column : Nat} (hcolumn : column ≤ hardware.columnCount) :
    hardware.columnStart column = column * hardware.pointsPerColumn := by
  have hfits : hardware.cellCount < wordCount := word_lt _
  rw [hbounded.cellCount_eq] at hfits
  exact word_of_lt (Nat.lt_of_le_of_lt (Nat.mul_le_mul_right _ hcolumn) hfits)

/-- The cells of a column are those from its start up to the start of the next one. -/
theorem columnOf_eq_iff {column : Nat} (hcolumn : column < hardware.columnCount) {cell : Cell}
    (hcell : hardware.HasCell cell) :
    hardware.columnOf cell = column ↔
      hardware.columnStart column ≤ cell.place ∧
        cell.place < hardware.columnStart (column + 1) := by
  have hpositive := hcell.pointsPerColumn_pos
  rw [hbounded.columnStart_eq hcolumn.le, hbounded.columnStart_eq hcolumn, columnOf,
    Nat.div_eq_iff hpositive, Nat.succ_mul]
  omega

theorem stepEnd_le {column step : Nat} (hcolumn : column < hardware.columnCount)
    (hstep : step < hardware.steps) :
    (step + hardware.steps * column + 1) * hardware.phases ≤ hardware.cellCount := by
  calc
    (step + hardware.steps * column + 1) * hardware.phases
        ≤ (hardware.steps * (column + 1)) * hardware.phases := by
          apply Nat.mul_le_mul_right
          rw [Nat.mul_succ]
          omega
    _ = (column + 1) * hardware.pointsPerColumn := by rw [hbounded.pointsPerColumn_eq]; ring
    _ ≤ hardware.cellCount := hbounded.columnEnd_le hcolumn

/-- The cells of a step start where those of the step before it end. -/
theorem stepStart_eq {column step : Nat} (hcolumn : column < hardware.columnCount)
    (hstep : step < hardware.steps) :
    hardware.stepStart column step =
        (step + hardware.steps * column) * hardware.phases ∧
      word (hardware.stepStart column step + hardware.phases) =
        (step + hardware.steps * column + 1) * hardware.phases := by
  have hstart : column * hardware.pointsPerColumn + step * hardware.phases =
      (step + hardware.steps * column) * hardware.phases := by
    rw [hbounded.pointsPerColumn_eq]
    ring
  have hstop := hbounded.stepEnd_le hcolumn hstep
  have hcells : hardware.cellCount < wordCount := word_lt _
  rw [Nat.succ_mul] at hstop ⊢
  rw [stepStart, hstart, word_of_lt (by omega), word_of_lt (by omega)]
  exact ⟨rfl, rfl⟩

section Place

variable {column step phase : Nat} (hcolumn : column < hardware.columnCount)
  (hstep : step < hardware.steps) (hphase : phase < hardware.phases)
include hstep hphase

theorem within_lt : step * hardware.phases + phase < hardware.pointsPerColumn := by
  rw [hbounded.pointsPerColumn_eq]
  calc
    step * hardware.phases + phase < (step + 1) * hardware.phases := by
      rw [Nat.succ_mul]
      exact Nat.add_lt_add_left hphase _
    _ ≤ hardware.steps * hardware.phases := Nat.mul_le_mul_right _ hstep

include hcolumn

theorem place_cell : (hardware.cell column step phase).place =
    column * hardware.pointsPerColumn + (step * hardware.phases + phase) := by
  have hexact : (column * hardware.steps + step) * hardware.phases + phase =
      column * hardware.pointsPerColumn + (step * hardware.phases + phase) := by
    rw [hbounded.pointsPerColumn_eq]
    ring
  have hwithin := hbounded.within_lt hstep hphase
  have hend := hbounded.columnEnd_le hcolumn
  have hcells : hardware.cellCount < wordCount := word_lt _
  rw [Nat.succ_mul] at hend
  rw [cell, hexact, word_of_lt (by omega)]

theorem hasCell_cell : hardware.HasCell (hardware.cell column step phase) := by
  have hwithin := hbounded.within_lt hstep hphase
  have hend := hbounded.columnEnd_le hcolumn
  rw [Nat.succ_mul] at hend
  rw [HasCell, hbounded.place_cell hcolumn hstep hphase]
  omega

theorem columnOf_cell : hardware.columnOf (hardware.cell column step phase) = column := by
  have hwithin := hbounded.within_lt hstep hphase
  rw [columnOf, hbounded.place_cell hcolumn hstep hphase, Nat.mul_comm,
    Nat.mul_add_div (Nat.zero_lt_of_lt hwithin), Nat.div_eq_of_lt hwithin, Nat.add_zero]

theorem mod_place_cell : (hardware.cell column step phase).place % hardware.pointsPerColumn =
    step * hardware.phases + phase := by
  have hwithin := hbounded.within_lt hstep hphase
  rw [hbounded.place_cell hcolumn hstep hphase, Nat.mul_add_mod_self_right,
    Nat.mod_eq_of_lt hwithin]

theorem stepOf_cell : hardware.stepOf (hardware.cell column step phase) = step := by
  rw [stepOf, hbounded.mod_place_cell hcolumn hstep hphase, Nat.mul_comm,
    Nat.mul_add_div (Nat.zero_lt_of_lt hphase), Nat.div_eq_of_lt hphase, Nat.add_zero]

theorem phaseOf_cell : hardware.phaseOf (hardware.cell column step phase) = phase := by
  rw [phaseOf, hbounded.mod_place_cell hcolumn hstep hphase, Nat.mul_add_mod_self_right,
    Nat.mod_eq_of_lt hphase]

end Place

end Bounded

/-- The first levels of a coordinate name a column, a step and a phase. -/
structure Reaches (hardware : Hardware) (place : Coordinate) (column step phase : Nat) :
    Prop where
  column_eq : hardware.columnIndex? place = some column
  step_eq : place.step? hardware.spaceDepth = some step
  step_lt : step < hardware.steps
  phase_eq : place.phase? hardware.spaceDepth = some phase
  phase_lt : phase < hardware.phases

theorem Reaches.hasCell {place : Coordinate} {column step phase : Nat}
    (hreaches : hardware.Reaches place column step phase) (hbounded : hardware.Bounded) :
    hardware.HasCell (hardware.cell column step phase) :=
  hbounded.hasCell_cell (hbounded.columns.columnIndex?_lt hreaches.column_eq) hreaches.step_lt
    hreaches.phase_lt

end Hardware

namespace Grid

theorem resolve_congr {grid other : Grid} (hhardware : grid.hardware = other.hardware)
    (coordinate : Coordinate) : grid.resolve coordinate = other.resolve coordinate := by
  obtain ⟨hardware, cells, routes⟩ := grid
  obtain ⟨otherHardware, otherCells, otherRoutes⟩ := other
  cases hhardware
  rfl

private theorem guard_eq_some_iff {condition : Prop} [Decidable condition] {value : Unit} :
    (guard condition : Option Unit) = some value ↔ condition := by
  unfold guard
  split
  case isTrue htrue => exact ⟨fun _ => htrue, fun _ => rfl⟩
  case isFalse hfalse => exact ⟨fun hsome => (nomatch hsome), fun htrue => absurd htrue hfalse⟩

theorem resolve_eq_point_iff {grid : Grid} {coordinate : Coordinate} {cell : Cell} :
    grid.resolve coordinate = .ok (some (.point cell)) ↔
      coordinate.depth = grid.spaceDepth + 2 ∧ ∃ column step phase,
        grid.hardware.Reaches coordinate column step phase ∧
          grid.hardware.cell column step phase = cell := by
  have hfull : grid.hardware.fullDepth = grid.spaceDepth + 3 := rfl
  constructor
  · intro hresolve
    unfold resolve at hresolve
    dsimp only at hresolve
    split at hresolve
    case isTrue => cases hresolve
    split at hresolve
    case isTrue => cases hresolve
    simp only [Except.ok.injEq, Option.bind_eq_bind, Option.bind_eq_some_iff] at hresolve
    obtain ⟨column, hcolumn, hresolve⟩ := hresolve
    split at hresolve
    case isTrue => cases hresolve
    simp only [Option.bind_eq_some_iff, guard_eq_some_iff] at hresolve
    obtain ⟨step, hstep, -, hsteps, hresolve⟩ := hresolve
    split at hresolve
    case isTrue => cases hresolve
    simp only [Option.bind_eq_some_iff, guard_eq_some_iff] at hresolve
    obtain ⟨phase, hphase, -, hphases, hresolve⟩ := hresolve
    split at hresolve
    case isTrue hdepth =>
      cases hresolve
      exact ⟨hdepth, column, step, phase, ⟨hcolumn, hstep, hsteps, hphase, hphases⟩, rfl⟩
    case isFalse =>
      obtain ⟨unit, -, hunit⟩ := Option.bind_eq_some_iff.mp hresolve
      cases hunit
  · rintro ⟨hdepth, column, step, phase, ⟨hcolumn, hstep, hsteps, hphase, hphases⟩, rfl⟩
    rw [← spaceDepth] at hstep hphase
    unfold resolve
    simp only [hdepth, hfull, hcolumn, hstep, hphase, guard, hsteps, hphases, if_true,
      Option.bind_eq_bind, Option.bind_some, Option.pure_def]
    simp

theorem resolve_eq_unit_iff {grid : Grid} {coordinate : Coordinate} {cell : Cell}
    {unit : FunctionalUnit} :
    grid.resolve coordinate = .ok (some (.unit cell unit)) ↔
      coordinate.depth = grid.hardware.fullDepth ∧
        coordinate.unit? grid.spaceDepth = some unit ∧ ∃ column step phase,
          grid.hardware.Reaches coordinate column step phase ∧
            grid.hardware.cell column step phase = cell := by
  have hfull : grid.hardware.fullDepth = grid.spaceDepth + 3 := rfl
  constructor
  · intro hresolve
    unfold resolve at hresolve
    dsimp only at hresolve
    split at hresolve
    case isTrue => cases hresolve
    case isFalse hdeep =>
    split at hresolve
    case isTrue => cases hresolve
    case isFalse hshallow =>
    simp only [Except.ok.injEq, Option.bind_eq_bind, Option.bind_eq_some_iff] at hresolve
    obtain ⟨column, hcolumn, hresolve⟩ := hresolve
    split at hresolve
    case isTrue => cases hresolve
    case isFalse hcolumnDepth =>
    simp only [Option.bind_eq_some_iff, guard_eq_some_iff] at hresolve
    obtain ⟨step, hstep, -, hsteps, hresolve⟩ := hresolve
    split at hresolve
    case isTrue => cases hresolve
    case isFalse hstepDepth =>
    simp only [Option.bind_eq_some_iff, guard_eq_some_iff] at hresolve
    obtain ⟨phase, hphase, -, hphases, hresolve⟩ := hresolve
    split at hresolve
    case isTrue => cases hresolve
    case isFalse hpointDepth =>
    obtain ⟨found, hfound, hunit⟩ := Option.bind_eq_some_iff.mp hresolve
    cases hunit
    exact ⟨by omega, hfound, column, step, phase, ⟨hcolumn, hstep, hsteps, hphase, hphases⟩, rfl⟩
  · rintro ⟨hdepth, hunit, column, step, phase, ⟨hcolumn, hstep, hsteps, hphase, hphases⟩, rfl⟩
    rw [← spaceDepth] at hstep hphase
    unfold resolve
    simp only [hdepth, hfull, hcolumn, hstep, hphase, hunit, guard, hsteps, hphases, if_true,
      Option.bind_eq_bind, Option.bind_some, Option.pure_def]
    simp

theorem depth_of_resolve {grid : Grid} {coordinate : Coordinate} {cell : Cell}
    {unit : FunctionalUnit}
    (hresolve : grid.resolve coordinate = .ok (some (.unit cell unit))) :
    coordinate.depth = grid.hardware.fullDepth :=
  (resolve_eq_unit_iff.mp hresolve).1

theorem hasCell_of_resolve {grid : Grid} (hbounded : grid.hardware.Bounded)
    {coordinate : Coordinate} {cell : Cell} {unit : FunctionalUnit}
    (hresolve : grid.resolve coordinate = .ok (some (.unit cell unit))) :
    grid.hardware.HasCell cell := by
  obtain ⟨-, -, column, step, phase, hreaches, rfl⟩ := resolve_eq_unit_iff.mp hresolve
  exact hreaches.hasCell hbounded

/-- The first levels of a coordinate that names a unit name its point. -/
theorem resolve_take {grid : Grid} {coordinate : Coordinate} {cell : Cell} {unit : FunctionalUnit}
    (hresolve : grid.resolve coordinate = .ok (some (.unit cell unit))) :
    grid.resolve (coordinate.take (grid.spaceDepth + 2)) = .ok (some (.point cell)) := by
  obtain ⟨hdepth, -, column, step, phase, hreaches, hcell⟩ := resolve_eq_unit_iff.mp hresolve
  have hlength : coordinate.levels.length = grid.spaceDepth + 3 := hdepth
  have hscalar : ∀ offset < 2,
      (coordinate.take (grid.spaceDepth + 2)).scalar? (grid.spaceDepth + offset) =
        coordinate.scalar? (grid.spaceDepth + offset) := by
    intro offset hoffset
    simp only [Coordinate.scalar?, Coordinate.level?, Coordinate.take]
    rw [List.getElem?_take_of_lt (Nat.add_lt_add_left hoffset _)]
  have hcolumn : grid.hardware.columnIndex? (coordinate.take (grid.spaceDepth + 2)) =
      grid.hardware.columnIndex? coordinate :=
    Hardware.columnIndex?_take_of_le (Nat.le_add_right _ _) coordinate
  refine resolve_eq_point_iff.mpr ⟨?_, column, step, phase, ⟨hcolumn.trans hreaches.column_eq,
    (hscalar 0 (by decide)).trans hreaches.step_eq, hreaches.step_lt,
    (hscalar 1 (by decide)).trans hreaches.phase_eq, hreaches.phase_lt⟩, hcell⟩
  simp only [Coordinate.depth, Coordinate.take, List.length_take, hlength]
  omega

theorem point?_of_resolve {grid : Grid} {coordinate : Coordinate} {cell : Cell}
    {unit : FunctionalUnit}
    (hresolve : grid.resolve coordinate = .ok (some (.unit cell unit))) :
    grid.point? coordinate = .ok (grid.pointAt? cell) := by
  have hdepth : coordinate.depth = grid.spaceDepth + 3 := depth_of_resolve hresolve
  unfold point?
  rw [if_neg (by omega), resolve_take hresolve]
  rfl

theorem resolveUnit_eq_ok_iff {grid : Grid} {coordinate : Coordinate} {cell : Cell}
    {unit : FunctionalUnit} :
    grid.resolveUnit coordinate = .ok (cell, unit) ↔
      grid.resolve coordinate = .ok (some (.unit cell unit)) := by
  constructor
  · intro hunit
    unfold resolveUnit resolveForChange at hunit
    split at hunit
    case isTrue => cases hunit
    case isFalse =>
      cases hresolve : grid.resolve coordinate with
      | error error =>
          rw [hresolve] at hunit
          cases hunit
      | ok address =>
          rw [hresolve] at hunit
          rcases address with _ | ⟨column⟩ | ⟨column, step⟩ | ⟨cell⟩ | ⟨cell, unit⟩ <;> cases hunit
          rfl
  · intro hresolve
    have hdepth := depth_of_resolve hresolve
    unfold resolveUnit resolveForChange
    rw [if_neg (by omega), hresolve]
    rfl

/-! Coordinates listed for cells. -/

section Listed

variable {grid : Grid} {cell : Cell}

theorem levels_coordinateAt (grid : Grid) (cell : Cell) :
    (grid.coordinateAt cell.place).levels =
      Hardware.positionsAt grid.hardware.levels (grid.hardware.columnOf cell) ++
        [.scalar (grid.hardware.stepOf cell), .scalar (grid.hardware.phaseOf cell)] :=
  rfl

private theorem scalar?_append {front rest : List Position} {depth : Nat}
    (hdepth : front.length = depth) (offset : Nat) :
    (Coordinate.mk (front ++ rest)).scalar? (depth + offset) =
      rest[offset]?.bind (·.get? 0) := by
  subst hdepth
  simp only [Coordinate.scalar?, Coordinate.level?]
  rw [List.getElem?_append_right (Nat.le_add_right _ _), Nat.add_sub_cancel_left]

/-- The coordinate listed for a cell names its column, step and phase, whatever follows. -/
theorem reaches_coordinateAt (hcell : grid.hardware.HasCell cell) (following : List Position) :
    grid.hardware.Reaches ⟨(grid.coordinateAt cell.place).levels ++ following⟩
      (grid.hardware.columnOf cell) (grid.hardware.stepOf cell) (grid.hardware.phaseOf cell) := by
  have hlength : (Hardware.positionsAt grid.hardware.levels
      (grid.hardware.columnOf cell)).length = grid.hardware.spaceDepth :=
    Hardware.length_positionsAt _ _
  rw [levels_coordinateAt, List.append_assoc]
  exact ⟨Hardware.columnIndex?_positionsAt hcell.columnOf_lt _, scalar?_append hlength 0,
    hcell.stepOf_lt, scalar?_append hlength 1, hcell.phaseOf_lt⟩

theorem depth_coordinateAt (grid : Grid) (place : Nat) :
    (grid.coordinateAt place).depth = grid.spaceDepth + 2 := by
  simp only [Coordinate.depth, coordinateAt, List.length_append, Hardware.length_positionsAt,
    List.length_cons, List.length_nil]
  rfl

theorem resolve_coordinateAt (hcell : grid.hardware.HasCell cell) :
    grid.resolve (grid.coordinateAt cell.place) = .ok (some (.point cell)) := by
  have hreaches := reaches_coordinateAt hcell []
  rw [List.append_nil] at hreaches
  exact resolve_eq_point_iff.mpr
    ⟨grid.depth_coordinateAt _, _, _, _, hreaches, hcell.cell_eq⟩

theorem resolve_coordinateAt_push (hcell : grid.hardware.HasCell cell) (unit : FunctionalUnit) :
    grid.resolve ((grid.coordinateAt cell.place).push (.scalar unit.index)) =
      .ok (some (.unit cell unit)) := by
  have hlength : (grid.coordinateAt cell.place).levels.length = grid.spaceDepth + 2 :=
    grid.depth_coordinateAt _
  refine resolve_eq_unit_iff.mpr
    ⟨?_, ?_, _, _, _, reaches_coordinateAt hcell [.scalar unit.index], hcell.cell_eq⟩
  · rw [Coordinate.depth, Coordinate.push, List.length_append, hlength]
    rfl
  · rw [Coordinate.unit?, Coordinate.push, ← Nat.add_zero (grid.spaceDepth + 2),
      scalar?_append hlength 0]
    exact FunctionalUnit.ofIndex?_index unit

end Listed

/-- Points stand only in cells of the accelerator. -/
theorem hasCell_of_pointAt? {grid : Grid} {cell : Cell} {point : Point}
    (hpoint : grid.pointAt? cell = some point) : grid.hardware.HasCell cell := by
  obtain ⟨hinside, -⟩ := Array.getElem?_eq_some_iff.mp (Option.join_eq_some_iff.mp hpoint)
  exact Nat.lt_of_lt_of_eq hinside grid.size_cells

/-- A listed point stands in the cell for which its coordinate is listed. -/
theorem mem_region {grid : Grid} {start stop : Nat} {entry : Coordinate × Point} :
    entry ∈ grid.region start stop ↔ ∃ cell : Cell, start ≤ cell.place ∧ cell.place < stop ∧
      grid.pointAt? cell = some entry.2 ∧ grid.coordinateAt cell.place = entry.1 := by
  have hrange : ∀ place, place ∈ List.range' start (stop - start) ↔
      start ≤ place ∧ place < stop := by
    intro place
    rw [List.mem_range'_1]
    omega
  simp only [region, List.mem_filterMap, hrange, Option.map_eq_some_iff]
  constructor
  · rintro ⟨place, ⟨hstart, hstop⟩, point, hpoint, rfl⟩
    exact ⟨⟨place⟩, hstart, hstop, hpoint, rfl⟩
  · rintro ⟨⟨place⟩, hstart, hstop, hpoint, hentry⟩
    exact ⟨place, ⟨hstart, hstop⟩, entry.2, hpoint, Prod.ext hentry rfl⟩

theorem region_of_element? {grid : Grid} {place : Coordinate} {points : List (Coordinate × Point)}
    (helement : grid.element? place = .ok (some (.region points))) :
    ∃ start stop, grid.region start stop = points := by
  have hnonempty : ∀ listed, nonempty listed = some (.region points) → listed = points := by
    intro listed hlisted
    unfold nonempty at hlisted
    split at hlisted
    case isTrue => cases hlisted
    case isFalse =>
      cases hlisted
      rfl
  unfold element? at helement
  dsimp only at helement
  cases hresolve : grid.resolve place with
  | error error =>
      rw [hresolve] at helement
      cases helement
  | ok address =>
      rw [hresolve] at helement
      rcases address with _ | ⟨column⟩ | ⟨column, step⟩ | ⟨cell⟩ | ⟨cell, unit⟩
      case none => cases helement
      case some.column => exact ⟨_, _, hnonempty _ (Except.ok.inj helement)⟩
      case some.step => exact ⟨_, _, hnonempty _ (Except.ok.inj helement)⟩
      case some.point =>
        obtain ⟨point, -, hpoint⟩ := Option.map_eq_some_iff.mp (Except.ok.inj helement)
        cases hpoint
      case some.unit =>
        obtain ⟨point, -, hpoint⟩ := Option.map_eq_some_iff.mp (Except.ok.inj helement)
        cases hpoint

/-- The points of a column stand in cells of the grid, to which their coordinates lead. -/
theorem of_mem_column {grid : Grid} {place : Coordinate} {points : List (Coordinate × Point)}
    (hcolumn : grid.column? place = .ok (some points)) {entry : Coordinate × Point}
    (hentry : entry ∈ points) :
    ∃ cell, grid.hardware.HasCell cell ∧ grid.pointAt? cell = some entry.2 ∧
      grid.resolve entry.1 = .ok (some (.point cell)) ∧
      ∀ unit : FunctionalUnit, grid.resolve (entry.1.push (.scalar unit.index)) =
        .ok (some (.unit cell unit)) := by
  have hregion : ∃ start stop, grid.region start stop = points := by
    unfold column? at hcolumn
    cases helement : grid.element? (place.take grid.spaceDepth) with
    | error error =>
        rw [helement] at hcolumn
        cases hcolumn
    | ok element =>
        rw [helement] at hcolumn
        rcases element with _ | ⟨listed⟩ | ⟨point⟩ | ⟨point, unit⟩
        case some.region =>
          cases hcolumn
          exact region_of_element? helement
        all_goals cases hcolumn
  obtain ⟨start, stop, rfl⟩ := hregion
  obtain ⟨cell, -, -, hpoint, hplace⟩ := mem_region.mp hentry
  have hcell := hasCell_of_pointAt? hpoint
  rw [← hplace]
  exact ⟨cell, hcell, hpoint, resolve_coordinateAt hcell, resolve_coordinateAt_push hcell⟩

end Grid

end TiledPlacement
