import TiledPlacement.Proofs.Grid.Occupancy
import TiledPlacement.Proofs.Grid.Residence
import TiledPlacement.Proofs.Hardware.Numbering

/-!
Sites and the cells that stand for them. A grid and a map of its points correspond when words hold
the number of cells and each cell holds what the map has at its site.
-/

namespace TiledPlacement

namespace Hardware

variable {hardware : Hardware}

def cellOf (hardware : Hardware) (site : Site) : Cell :=
  hardware.cell (hardware.number site.column) site.step site.phase

def address (hardware : Hardware) : Reference → Address
  | .column column => .column (hardware.number column)
  | .step column step => .step (hardware.number column) step
  | .point site => .point (hardware.cellOf site)
  | .unit site unit => .unit (hardware.cellOf site) unit

/-- The site of a cell. -/
def siteAt (hardware : Hardware) (cell : Cell) : Site where
  column := ⟨positionsAt hardware.levels (hardware.columnOf cell)⟩
  step := hardware.stepOf cell
  phase := hardware.phaseOf cell

theorem HasCell.hasSite {cell : Cell} (hcell : hardware.HasCell cell) :
    hardware.HasSite (hardware.siteAt cell) :=
  ⟨isColumn_positionsAt hcell.columnOf_lt, hcell.stepOf_lt, hcell.phaseOf_lt⟩

theorem HasCell.cellOf_siteAt {cell : Cell} (hcell : hardware.HasCell cell) :
    hardware.cellOf (hardware.siteAt cell) = cell := by
  rw [cellOf, siteAt, number_positionsAt hcell.columnOf_lt]
  exact hcell.cell_eq

section Site

variable {site : Site} (hsite : hardware.HasSite site) (hbounded : hardware.Bounded)
include hsite hbounded

theorem HasSite.hasCell : hardware.HasCell (hardware.cellOf site) :=
  hbounded.hasCell_cell (hbounded.columns.number_lt hsite.1) hsite.2.1 hsite.2.2

theorem HasSite.siteAt_cellOf : hardware.siteAt (hardware.cellOf site) = site := by
  have hcolumn := hbounded.columns.number_lt hsite.1
  obtain ⟨column, step, phase⟩ := site
  rw [cellOf, siteAt, hbounded.columnOf_cell hcolumn hsite.2.1 hsite.2.2,
    hbounded.stepOf_cell hcolumn hsite.2.1 hsite.2.2,
    hbounded.phaseOf_cell hcolumn hsite.2.1 hsite.2.2]
  exact congrArg (Site.mk · step phase) (hsite.1.positionsAt hbounded.columns).symm

end Site

/-! What coordinates name. -/

theorem timeAt?_eq_some_iff {bound time : Nat} {position : Position} :
    timeAt? bound position = some time ↔ position.get? 0 = some time ∧ time < bound := by
  simp [timeAt?, Option.filter_eq_some_iff]

theorem reference?_of_columnIndex? {place : Coordinate} {column : Nat}
    (hcolumn : hardware.columnIndex? place = some column) :
    hardware.reference? place = hardware.within? (place.take hardware.spaceDepth)
        (place.levels.drop hardware.spaceDepth) ∧
      hardware.number (place.take hardware.spaceDepth) = column := by
  have hpositions := columnIndex?_isSome_iff.mp (Option.isSome_of_eq_some hcolumn)
  refine ⟨if_pos hpositions, ?_⟩
  rw [number, columnIndex?_take, hcolumn, Option.getD_some]

theorem reference?_of_no_column {place : Coordinate}
    (hcolumn : hardware.columnIndex? place = none) :
    hardware.reference? place = none := by
  apply if_neg
  intro hpositions
  have hsome : (hardware.columnIndex? place).isSome = true :=
    columnIndex?_isSome_iff.mpr hpositions
  rw [hcolumn] at hsome
  cases hsome

theorem scalar?_eq (place : Coordinate) (depth offset : Nat) :
    place.scalar? (depth + offset) = (place.levels.drop depth)[offset]?.bind (·.get? 0) := by
  rw [Coordinate.scalar?, Coordinate.level?, List.getElem?_drop]

def HasReference (hardware : Hardware) : Reference → Prop
  | .column column => hardware.IsColumn column
  | .step column step => hardware.IsColumn column ∧ step < hardware.steps
  | .point site => hardware.HasSite site
  | .unit site _ => hardware.HasSite site

theorem hasReference {place : Coordinate} {reference : Reference}
    (hreference : hardware.reference? place = some reference) :
    hardware.HasReference reference := by
  unfold reference? at hreference
  split at hreference
  case isFalse => cases hreference
  case isTrue hcolumn =>
    -- One case for each number of levels after those of the column.
    generalize place.levels.drop hardware.spaceDepth = rest at hreference
    rcases rest with _ | ⟨step, _ | ⟨phase, _ | ⟨unit, _ | ⟨other, others⟩⟩⟩⟩
    · cases hreference
      exact hcolumn
    · obtain ⟨step, hstep, hrest⟩ := Option.bind_eq_some_iff.mp hreference
      cases hrest
      exact ⟨hcolumn, (timeAt?_eq_some_iff.mp hstep).2⟩
    · obtain ⟨step, hstep, hrest⟩ := Option.bind_eq_some_iff.mp hreference
      obtain ⟨phase, hphase, hrest⟩ := Option.bind_eq_some_iff.mp hrest
      cases hrest
      exact ⟨hcolumn, (timeAt?_eq_some_iff.mp hstep).2, (timeAt?_eq_some_iff.mp hphase).2⟩
    · obtain ⟨step, hstep, hrest⟩ := Option.bind_eq_some_iff.mp hreference
      obtain ⟨phase, hphase, hrest⟩ := Option.bind_eq_some_iff.mp hrest
      obtain ⟨unit, -, hrest⟩ := Option.bind_eq_some_iff.mp hrest
      cases hrest
      exact ⟨hcolumn, (timeAt?_eq_some_iff.mp hstep).2, (timeAt?_eq_some_iff.mp hphase).2⟩
    · cases hreference

theorem hasReference_of_named {place : Coordinate} {reference : Reference}
    (hnamed : hardware.named place = .ok (some reference)) : hardware.HasReference reference := by
  unfold named at hnamed
  split at hnamed
  case isTrue => cases hnamed
  case isFalse => exact hasReference (Except.ok.inj hnamed)

end Hardware

namespace Grid

private theorem bind_guard {α : Type} (value : Option Nat) (bound : Nat) (next : Nat → Option α) :
    (value.bind fun time => (guard (time < bound) : Option Unit).bind fun _ => next time) =
      (value.filter (· < bound)).bind next := by
  cases value with
  | none => rfl
  | some time => by_cases hbound : time < bound <;> simp [guard, Option.filter_some, hbound]

theorem resolve_eq (grid : Grid) (place : Coordinate) :
    grid.resolve place =
      (grid.hardware.named place).map (Option.map grid.hardware.address) := by
  obtain ⟨hardware, cells, routes⟩ := grid
  unfold resolve Hardware.named spaceDepth
  dsimp only
  split
  case isTrue => rfl
  case isFalse hdeep =>
    have hlength : place.depth =
        hardware.spaceDepth + (place.levels.drop hardware.spaceDepth).length := by
      rw [List.length_drop]
      exact (Nat.add_sub_cancel' (Nat.not_lt.mp hdeep)).symm
    have hfull : hardware.fullDepth = hardware.spaceDepth + 3 := rfl
    have hstep : place.step? hardware.spaceDepth =
        (place.levels.drop hardware.spaceDepth)[0]?.bind (·.get? 0) :=
      Hardware.scalar?_eq place _ 0
    have hphase : place.phase? hardware.spaceDepth =
        (place.levels.drop hardware.spaceDepth)[1]?.bind (·.get? 0) :=
      Hardware.scalar?_eq place _ 1
    have hunit : place.unit? hardware.spaceDepth =
        ((place.levels.drop hardware.spaceDepth)[2]?.bind (·.get? 0)).bind
          FunctionalUnit.ofIndex? :=
      congrArg (·.bind FunctionalUnit.ofIndex?) (Hardware.scalar?_eq place _ 2)
    rw [hlength, hfull, hstep, hphase, hunit]
    cases hcolumn : hardware.columnIndex? place with
    | none =>
        rw [Hardware.reference?_of_no_column hcolumn]
        split <;> rfl
    | some column =>
        obtain ⟨hreference, rfl⟩ := Hardware.reference?_of_columnIndex? hcolumn
        rw [hreference]
        generalize place.levels.drop hardware.spaceDepth = rest
        rcases rest with _ | ⟨step, _ | ⟨phase, _ | ⟨unit, _ | ⟨other, others⟩⟩⟩⟩
        · simp [Except.map, Hardware.within?, Hardware.address]
        · simp [Except.map, Hardware.within?, Hardware.address, Hardware.timeAt?, bind_guard,
            Function.comp_def]
        · simp [Except.map, Hardware.within?, Hardware.address, Hardware.cellOf, Hardware.timeAt?,
            bind_guard, Function.comp_def]
        · simp [Except.map, Hardware.within?, Hardware.address, Hardware.cellOf, Hardware.timeAt?,
            bind_guard, Function.comp_def]
        · simp [Except.map, Hardware.within?]

theorem resolveForChange_of_named {grid : Grid} {place : Coordinate} {reference : Reference}
    (hnamed : grid.hardware.namedForChange place = .ok reference) :
    grid.resolveForChange place = .ok (some (grid.hardware.address reference)) ∧
      grid.hardware.HasReference reference := by
  unfold Hardware.namedForChange at hnamed
  unfold resolveForChange
  split at hnamed
  case isTrue => cases hnamed
  case isFalse hfits =>
    rw [if_neg hfits, resolve_eq]
    unfold Hardware.named at hnamed ⊢
    split at hnamed
    case isTrue => cases hnamed
    case isFalse hdeep =>
      rw [if_neg hdeep]
      cases hreference : grid.hardware.reference? place with
      | none =>
          rw [hreference] at hnamed
          cases hnamed
      | some found =>
          rw [hreference] at hnamed
          cases hnamed
          exact ⟨rfl, Hardware.hasReference hreference⟩

theorem resolveForChange_of_unnamed {grid : Grid} {place : Coordinate} {error : GridError}
    (hnamed : grid.hardware.namedForChange place = .error error) :
    grid.resolveForChange place = .error error ∨
      grid.resolveForChange place = .ok none ∧ error = .notFound place := by
  unfold Hardware.namedForChange at hnamed
  unfold resolveForChange
  split at hnamed
  case isTrue hexceeds =>
    cases hnamed
    exact Or.inl (if_pos hexceeds)
  case isFalse hfits =>
    rw [if_neg hfits, resolve_eq]
    unfold Hardware.named at hnamed ⊢
    split at hnamed
    case isTrue hshallow =>
      cases hnamed
      rw [if_pos hshallow]
      exact Or.inl rfl
    case isFalse hdeep =>
      rw [if_neg hdeep]
      cases hreference : grid.hardware.reference? place with
      | none =>
          rw [hreference] at hnamed
          cases hnamed
          exact Or.inr ⟨rfl, rfl⟩
      | some found =>
          rw [hreference] at hnamed
          cases hnamed

/-- A grid holds at each cell what a map has at its site. -/
structure Charts (grid : Grid) (occupancy : Occupancy) : Prop where
  bounded : grid.hardware.Bounded
  point : ∀ site, grid.hardware.HasSite site →
    grid.pointAt? (grid.hardware.cellOf site) = occupancy site
  outside : ∀ site, ¬grid.hardware.HasSite site → occupancy site = none

theorem Charts.place_lt {grid : Grid} {occupancy : Occupancy} (hcharts : grid.Charts occupancy)
    {site : Site} (hsite : grid.hardware.HasSite site) :
    (grid.hardware.cellOf site).place < grid.cells.size :=
  Nat.lt_of_lt_of_eq (hsite.hasCell hcharts.bounded) grid.size_cells.symm

theorem Charts.put {grid : Grid} {occupancy : Occupancy} (hcharts : grid.Charts occupancy)
    {site : Site} (hsite : grid.hardware.HasSite site) (point : Option Point) :
    (grid.setCell (grid.hardware.cellOf site) point).Charts (occupancy.put site point) := by
  constructor
  case bounded => exact hcharts.bounded
  case point =>
    intro other (hother : grid.hardware.HasSite other)
    change (grid.setCell _ point).pointAt? (grid.hardware.cellOf other) = _
    rw [pointAt?_setCell_of_lt (hcharts.place_lt hsite), Occupancy.put]
    by_cases hsame : other = site
    · rw [hsame, if_pos rfl, if_pos rfl]
    · have hcell : grid.hardware.cellOf other ≠ grid.hardware.cellOf site := fun hequal =>
        hsame (by rw [← hother.siteAt_cellOf hcharts.bounded, hequal,
          hsite.siteAt_cellOf hcharts.bounded])
      rw [if_neg hcell, if_neg hsame, hcharts.point other hother]
  case outside =>
    intro other hother
    have hdiffer : other ≠ site := fun hsame => hother (hsame ▸ hsite)
    exact (if_neg hdiffer).trans (hcharts.outside other hother)

end Grid

end TiledPlacement
