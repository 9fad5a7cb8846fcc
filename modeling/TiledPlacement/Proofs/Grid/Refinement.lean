import TiledPlacement.Hardware.Basic
import TiledPlacement.Proofs.Grid.Filling
import TiledPlacement.Proofs.Grid.Reading
import TiledPlacement.Proofs.Grid.Separation

/-!
The grid does what the map of its points does: the same answers to every command, the same faults,
and nothing changes but what the coordinate of a command names.
-/

namespace TiledPlacement

open Execution

namespace Occupancy

theorem filled_eq (place : Coordinate) (unit : FunctionalUnit) (task : TaskId) (point : Point) :
    filled place unit task point =
      match point.insert unit task with
      | .ok point => .ok point
      | .error occupant =>
          .error (if unit.isSlot then .occupied place unit occupant
            else .duplicateResident place task) := by
  unfold filled Point.insert
  cases unit
  case memory =>
    simp only [if_true, FunctionalUnit.isSlot, Std.ExtTreeSet.contains_iff_mem]
    split <;> simp
  all_goals
    simp only [reduceCtorEq, if_false, FunctionalUnit.isSlot]
    split <;> simp_all

theorem cleared_some (place : Coordinate) (unit : FunctionalUnit) (task : TaskId) (point : Point) :
    cleared place unit (some task) point =
      match point.remove unit task with
      | .ok point => .ok (some task, point)
      | .error task => .error (.notResident task place) := by
  unfold cleared Point.remove Point.holds
  cases unit
  case memory =>
    simp only [if_true, FunctionalUnit.isSlot, ← Std.ExtTreeSet.contains_iff_mem]
    cases point.memory.contains task <;> simp
  all_goals
    simp only [reduceCtorEq, if_false, FunctionalUnit.isSlot]
    split <;> simp_all

theorem cleared_none (place : Coordinate) (unit : FunctionalUnit) (point : Point) :
    cleared place unit none point = .ok (point.removeFirst unit) := by
  unfold cleared Point.removeFirst Point.residentsOf
  cases unit
  case memory =>
    simp only [if_true, Bool.false_eq_true, if_false, FunctionalUnit.isSlot,
      Std.ExtTreeSet.min?_eq_head?_toList]
    generalize point.memory.toList.head? = least
    cases least <;> rfl
  all_goals
    simp only [reduceCtorEq, if_false, FunctionalUnit.isSlot, if_true]
    split <;> simp_all

end Occupancy

namespace Grid

variable {grid : Grid} {occupancy : Occupancy}

/-- A command on a grid comes to what it comes to on the map of the points. -/
def Yields (grid : Grid) (command : Command) (result : Except GridError (Answer × Occupancy)) :
    Prop :=
  Ends command.run grid
    (fun answer left => left.hardware = grid.hardware ∧
      ∃ next, result = .ok (answer, next) ∧ left.Charts next)
    (fun error left => left = grid ∧ result = .error error)

theorem yields_of_unnamed {command : Command} {error : GridError}
    (hnamed : grid.hardware.namedForChange command.place = .error error) :
    grid.Yields command (.error error) := by
  unfold Yields
  rcases resolveForChange_of_unnamed hnamed with hresolve | ⟨hresolve, rfl⟩
  all_goals
    rcases command with _ | _ | _ | ⟨_, _ | _⟩
    all_goals
      simp only [Command.place] at hresolve
      simp only [Command.run, addPoint, removePoint, addTask, removeTask, removeFirst, locate,
        resolveUnit, ends_bind, ends_get, hresolve]
      exact ⟨rfl, rfl⟩

section Named

variable {place : Coordinate} {reference : Reference}

theorem Charts.yields_addPoint (hcharts : grid.Charts occupancy)
    (hresolve : grid.resolveForChange place = .ok (some (grid.hardware.address reference)))
    (hinside : grid.hardware.HasReference reference) (point : Point) :
    grid.Yields (.addPoint place point) (occupancy.change (.addPoint place point) reference) := by
  simp only [Yields, Command.run, addPoint, ends_bind, ends_get, hresolve, ends_ofExcept_ok]
  cases reference
  case point site =>
    dsimp only [Hardware.address, Occupancy.change]
    rw [hcharts.point site hinside]
    cases occupancy site with
    | some found => exact ⟨rfl, rfl⟩
    | none => exact ⟨rfl, _, rfl, hcharts.put hinside (some point)⟩
  all_goals exact ⟨rfl, rfl⟩

theorem Charts.yields_removePoint (hcharts : grid.Charts occupancy)
    (hresolve : grid.resolveForChange place = .ok (some (grid.hardware.address reference)))
    (hinside : grid.hardware.HasReference reference) :
    grid.Yields (.removePoint place) (occupancy.change (.removePoint place) reference) := by
  simp only [Yields, Command.run, removePoint, ends_bind, ends_get, hresolve, ends_ofExcept_ok]
  cases reference
  case point site =>
    dsimp only [Hardware.address, Occupancy.change, Occupancy.pointAt]
    rw [hcharts.point site hinside]
    cases occupancy site with
    | some found => exact ⟨rfl, _, rfl, hcharts.put hinside none⟩
    | none => exact ⟨rfl, rfl⟩
  all_goals exact ⟨rfl, rfl⟩

/-- A command for a unit. It fails where the map has no point, and at places that name no unit. -/
theorem Charts.ends_locate (hcharts : grid.Charts occupancy)
    (hresolve : grid.resolveForChange place = .ok (some (grid.hardware.address reference)))
    (hinside : grid.hardware.HasReference reference) {command : Command}
    (hcommand : (∃ task, command = .addTask place task) ∨ ∃ task, command = .take place task)
    {success : Cell × FunctionalUnit × Point → Grid → Prop}
    (hsuccess : ∀ site unit point, reference = .unit site unit → grid.hardware.HasSite site →
      occupancy site = some point → success (grid.hardware.cellOf site, unit, point) grid) :
    Ends (locate place) grid success fun error left =>
      left = grid ∧ occupancy.change command reference = .error error := by
  rw [locate, ends_bind, ends_get, ends_bind, resolveUnit, hresolve]
  cases reference
  case unit site unit =>
    have hpoint := hcharts.point site hinside
    change Ends (ofExcept (.ok (grid.hardware.cellOf site, unit))) grid _ _
    rw [ends_ofExcept_ok]
    cases hfound : occupancy site with
    | some point =>
        simp only [hpoint.trans hfound]
        exact hsuccess site unit point rfl hinside hfound
    | none =>
        simp only [hpoint.trans hfound]
        refine ⟨rfl, ?_⟩
        rcases hcommand with ⟨task, rfl⟩ | ⟨task, rfl⟩
        all_goals
          rw [Occupancy.change, Occupancy.pointAt, hfound]
          rfl
  all_goals
    rcases hcommand with ⟨task, rfl⟩ | ⟨task, rfl⟩
    all_goals exact ⟨rfl, rfl⟩

theorem Charts.yields_addTask (hcharts : grid.Charts occupancy)
    (hresolve : grid.resolveForChange place = .ok (some (grid.hardware.address reference)))
    (hinside : grid.hardware.HasReference reference) (task : TaskId) :
    grid.Yields (.addTask place task) (occupancy.change (.addTask place task) reference) := by
  rw [Yields, Command.run, addTask, ends_bind, ends_bind]
  apply hcharts.ends_locate hresolve hinside (Or.inl ⟨task, rfl⟩)
  rintro site unit point rfl hsite hfound
  rw [Occupancy.change_addTask hfound, Occupancy.filled_eq]
  dsimp only
  cases point.insert unit task with
  | ok filled => exact ⟨rfl, _, rfl, hcharts.put hsite (some filled)⟩
  | error occupant =>
      dsimp only
      split <;> exact ⟨rfl, rfl⟩

theorem Charts.yields_take (hcharts : grid.Charts occupancy)
    (hresolve : grid.resolveForChange place = .ok (some (grid.hardware.address reference)))
    (hinside : grid.hardware.HasReference reference) (task : Option TaskId) :
    grid.Yields (.take place task) (occupancy.change (.take place task) reference) := by
  cases task with
  | none =>
      rw [Yields, Command.run, removeFirst, ends_bind, ends_bind]
      apply hcharts.ends_locate hresolve hinside (Or.inr ⟨none, rfl⟩)
      rintro site unit point rfl hsite hfound
      rw [Occupancy.change_take hfound, Occupancy.cleared_none]
      exact ⟨rfl, _, rfl, hcharts.put hsite _⟩
  | some task =>
      rw [Yields, Command.run, removeTask, ends_bind, ends_bind]
      apply hcharts.ends_locate hresolve hinside (Or.inr ⟨some task, rfl⟩)
      rintro site unit point rfl hsite hfound
      rw [Occupancy.change_take hfound, Occupancy.cleared_some]
      dsimp only
      cases point.remove unit task with
      | ok emptied => exact ⟨rfl, _, rfl, hcharts.put hsite (some emptied)⟩
      | error absent => exact ⟨rfl, rfl⟩

end Named

/-- Each command does to the grid what it does to the map of its points. -/
theorem Charts.yields (hcharts : grid.Charts occupancy) (command : Command) :
    grid.Yields command (occupancy.perform grid.hardware command) := by
  cases hnamed : grid.hardware.namedForChange command.place with
  | error error =>
      rw [Occupancy.perform_of_unnamed hnamed]
      exact yields_of_unnamed hnamed
  | ok reference =>
      obtain ⟨hresolve, hinside⟩ := resolveForChange_of_named hnamed
      rw [Occupancy.perform_of_named hnamed]
      cases command with
      | addPoint place point => exact hcharts.yields_addPoint hresolve hinside point
      | removePoint place => exact hcharts.yields_removePoint hresolve hinside
      | addTask place task => exact hcharts.yields_addTask hresolve hinside task
      | take place task => exact hcharts.yields_take hresolve hinside task

theorem Charts.runAll (hcharts : grid.Charts occupancy) (commands : List Command) :
    (Grid.runAll commands grid).2.hardware = grid.hardware ∧
      (Grid.runAll commands grid).1 = (occupancy.performAll grid.hardware commands).1 ∧
      (Grid.runAll commands grid).2.Charts (occupancy.performAll grid.hardware commands).2 := by
  induction commands generalizing grid occupancy with
  | nil => exact ⟨rfl, rfl, hcharts⟩
  | cons command rest induction =>
      have hyields := hcharts.yields command
      unfold Yields Ends at hyields
      unfold Grid.runAll Occupancy.performAll
      cases hrun : command.run grid with
      | ok answer left =>
          rw [hrun] at hyields
          obtain ⟨hhardware, next, hperform, hleft⟩ := hyields
          obtain ⟨hsame, hanswers, hlast⟩ := induction hleft
          rw [hhardware] at hsame hanswers hlast
          rw [hperform]
          exact ⟨hsame, congrArg _ hanswers, hlast⟩
      | error error left =>
          rw [hrun] at hyields
          obtain ⟨rfl, hperform⟩ := hyields
          obtain ⟨hsame, hanswers, hlast⟩ := induction hcharts
          rw [hperform]
          exact ⟨hsame, congrArg _ hanswers, hlast⟩

/-! The grids to begin with. -/

theorem charts_empty {hardware : Hardware} (hbounded : hardware.Bounded) :
    (empty hardware).Charts Occupancy.empty := by
  constructor
  case bounded => exact hbounded
  case point =>
    intro site _
    change ((Array.replicate _ none)[_]?).join = none
    rw [Array.getElem?_replicate]
    split <;> rfl
  case outside => exact fun _ _ => rfl

/-- The columns of an accelerator can be filled if words hold the number of cells. -/
theorem exists_ofHardware? {hardware : Hardware} (hbounded : hardware.Bounded) :
    ∃ grid, ofHardware? hardware = some grid ∧ grid.hardware = hardware ∧
      grid.Charts (Occupancy.functional hardware) := by
  obtain ⟨grid, hfilled, hframe, hpoints⟩ :=
    @exists_fillColumns? (empty hardware) hardware.columnCount 0 hbounded
      (Nat.le_of_eq (Nat.zero_add _))
  have hhardware : grid.hardware = hardware := hframe.hardware
  refine ⟨grid, hfilled, hhardware, ?_⟩
  constructor
  case bounded => rwa [hhardware]
  case point =>
    intro site hsite
    rw [hhardware] at hsite ⊢
    have hcell : hardware.HasCell (hardware.cellOf site) := hsite.hasCell hbounded
    have hcolumn := hcell.columnOf_lt
    have hnone : (empty hardware).pointAt? (hardware.cellOf site) = none :=
      (charts_empty hbounded).point site hsite
    rw [hpoints _ hcell]
    change (if (0 ≤ hardware.columnOf _ ∧ hardware.columnOf _ < 0 + hardware.columnCount) ∧
      (hardware.siteAt _).column ∉ hardware.disabled then _ else _) = _
    rw [hsite.siteAt_cellOf hbounded, Nat.zero_add, Occupancy.functional]
    by_cases hdisabled : site.column ∈ hardware.disabled
    · simp [hdisabled, hnone]
    · simp [hdisabled, hsite, hcolumn, Point.empty]
  case outside =>
    intro site hsite
    rw [hhardware] at hsite
    exact if_neg fun hsite' => hsite hsite'.1

theorem charts_ofHardware {hardware : Hardware} (hbounded : hardware.Bounded) :
    (ofHardware hardware).Charts (Occupancy.functional hardware) := by
  obtain ⟨grid, hgrid, -, hcharts⟩ := exists_ofHardware? hbounded
  rwa [ofHardware, hgrid]

/-- Whether the cells of an address are cells of the grid. -/
def Inside (grid : Grid) : Address → Prop
  | .column column => grid.hardware.columnStart (column + 1) ≤ grid.cells.size
  | .step column step =>
      word (grid.hardware.stepStart column step + grid.hardware.phases) ≤ grid.cells.size
  | .point cell => cell.place < grid.cells.size
  | .unit cell _ => cell.place < grid.cells.size

structure Depicts (grid : Grid) (hardware : Hardware) (occupancy : Occupancy) : Prop where
  hardware_eq : grid.hardware = hardware
  inside : ∀ place address, grid.resolve place = .ok (some address) → grid.Inside address
  listed : ∀ place < grid.cells.size, ∃ site, hardware.HasSite site ∧
    grid.coordinateAt place = site.place ∧ hardware.cellOf site = ⟨place⟩
  points : occupancy.Lists (fun _ => True) grid.points
  pointCount : grid.pointCount = {site | (occupancy site).isSome = true}.ncard
  residents : occupancy.ListsTasks grid.residents
  element : ∀ place, hardware.Reading place (grid.element? place) fun reference found =>
    ∃ element, found = .ok element ∧ occupancy.Shows reference element
  column : ∀ place, hardware.Reading (place.take hardware.spaceDepth) (grid.column? place)
    fun reference found =>
      ∃ entries, found = .ok entries ∧ occupancy.Shows reference (entries.map .region)
  point : ∀ place, grid.point? place =
    if place.depth < hardware.spaceDepth + 2 then .error (.contract place .timeRequired)
    else .ok ((hardware.reference? (place.take (hardware.spaceDepth + 2))).bind
      fun reference => reference.site?.bind occupancy)
  isEmpty : ∀ place, hardware.Reading place (grid.isEmpty place) (occupancy.Judges place)

/-- A grid answers commands and reads as a map does, after any number of them. -/
def Refines (grid : Grid) (hardware : Hardware) (occupancy : Occupancy) : Prop :=
  ∀ commands, (runAll commands grid).1 = (occupancy.performAll hardware commands).1 ∧
    (runAll commands grid).2.Depicts hardware (occupancy.performAll hardware commands).2

theorem Charts.inside (hcharts : grid.Charts occupancy) {place : Coordinate} {address : Address}
    (hresolve : grid.resolve place = .ok (some address)) : grid.Inside address := by
  rw [resolve_eq] at hresolve
  cases hnamed : grid.hardware.named place with
  | error error =>
      rw [hnamed] at hresolve
      cases hresolve
  | ok found =>
      rw [hnamed] at hresolve
      obtain ⟨reference, rfl, rfl⟩ := Option.map_eq_some_iff.mp (Except.ok.inj hresolve)
      have hinside := Hardware.hasReference_of_named hnamed
      have hbounded := hcharts.bounded
      cases reference with
      | column column =>
          have hnumber := hbounded.columns.number_lt hinside
          change grid.hardware.columnStart (grid.hardware.number column + 1) ≤ grid.cells.size
          rw [grid.size_cells, hbounded.columnStart_eq hnumber]
          exact hbounded.columnEnd_le hnumber
      | step column step =>
          have hnumber := hbounded.columns.number_lt hinside.1
          change word (grid.hardware.stepStart (grid.hardware.number column) step +
            grid.hardware.phases) ≤ grid.cells.size
          rw [grid.size_cells, (hbounded.stepStart_eq hnumber hinside.2).2]
          exact hbounded.stepEnd_le hnumber hinside.2
      | point site => exact hcharts.place_lt hinside
      | unit site unit => exact hcharts.place_lt hinside

theorem Charts.depicts (hcharts : grid.Charts occupancy) :
    grid.Depicts grid.hardware occupancy where
  hardware_eq := rfl
  inside := fun _ _ hresolve => hcharts.inside hresolve
  listed := fun place hplace => by
    have hcell : grid.hardware.HasCell ⟨place⟩ := Nat.lt_of_lt_of_eq hplace grid.size_cells
    exact ⟨_, hcell.hasSite, rfl, hcell.cellOf_siteAt⟩
  points := hcharts.lists_points
  pointCount := hcharts.lists_points.length_eq
  residents := hcharts.residents
  element := hcharts.reading_element
  column := hcharts.reading_column
  point := hcharts.point?_eq
  isEmpty := hcharts.reading_isEmpty

theorem Charts.refines (hcharts : grid.Charts occupancy) :
    grid.Refines grid.hardware occupancy := by
  intro commands
  -- The description of the hardware is the same after all commands.
  obtain ⟨hhardware, hanswers, hlast⟩ := hcharts.runAll commands
  refine ⟨hanswers, ?_⟩
  have hdepicts := hlast.depicts
  rwa [hhardware] at hdepicts

/-- As long as words hold the number of cells, the grid of an accelerator can be filled, and it
refines a map from places to points, as an empty grid does. -/
theorem refines_occupancy (hardware : Hardware) (hbounded : hardware.Bounded) :
    (empty hardware).Refines hardware Occupancy.empty ∧
      (∃ grid, ofHardware? hardware = some grid ∧
        grid.Refines hardware (Occupancy.functional hardware)) ∧
      hardware.Separates := by
  obtain ⟨grid, hgrid, hhardware, hcharts⟩ := exists_ofHardware? hbounded
  have hrefines := hcharts.refines
  rw [hhardware] at hrefines
  exact ⟨(charts_empty hbounded).refines, ⟨grid, hgrid, hrefines⟩, hardware.separates⟩

theorem refines_occupancy_multiChip :
    (Hardware.multiChip 2 3 4 2).Bounded ∧
      ∃ grid, ofHardware? (Hardware.multiChip 2 3 4 2) = some grid ∧
        (runAll [] grid).2.pointCount = {site | (Occupancy.functional
          (Hardware.multiChip 2 3 4 2) site).isSome = true}.ncard := by
  have hbounded : (Hardware.multiChip 2 3 4 2).Bounded := by decide
  obtain ⟨-, ⟨grid, hgrid, hrefines⟩, -⟩ := refines_occupancy _ hbounded
  exact ⟨hbounded, grid, hgrid, (hrefines []).2.pointCount⟩

/-- Of `2 ^ 31` by `2 ^ 31` cores with four phases no word holds the number of cells: the grid comes
out without cells, the first point of the first core lies outside, and no column can be filled. -/
theorem cells_uncountable :
    (Hardware.singleChip (2 ^ 31) (2 ^ 31)).validate = .ok () ∧
      ofHardware? (Hardware.singleChip (2 ^ 31) (2 ^ 31)) = none ∧
        (empty (Hardware.singleChip (2 ^ 31) (2 ^ 31))).resolve
            ⟨[⟨[0, 0]⟩, ⟨[0, 0]⟩, ⟨[0]⟩, ⟨[0]⟩]⟩ = .ok (some (.point ⟨0⟩)) ∧
          ¬(empty (Hardware.singleChip (2 ^ 31) (2 ^ 31))).Inside (.point ⟨0⟩) := by
  refine ⟨by decide +kernel, by rfl, by decide +kernel, ?_⟩
  exact fun hinside => absurd hinside (Nat.not_lt_zero 0)

end Grid

end TiledPlacement
