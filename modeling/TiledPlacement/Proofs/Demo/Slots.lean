import TiledPlacement.Demo
import TiledPlacement.Proofs.Grid.Disabled
import TiledPlacement.Proofs.Placement.Arrangement

/-!
The points at which the computations of the layer are placed: one on each functional column, then
one on each again at the next phase, and so on. As long as there are points enough, each of them
exists and none is taken twice.
-/

namespace TiledPlacement

theorem Hardware.number_inj {hardware : Hardware} (hbounded : hardware.ColumnsBounded)
    {left right : Coordinate} (hleft : hardware.IsColumn left) (hright : hardware.IsColumn right)
    (hsame : hardware.number left = hardware.number right) : left = right := by
  rw [hleft.positionsAt hbounded, hright.positionsAt hbounded, hsame]

theorem Grid.atTime_eq_unitPlace {hardware : Hardware} {grid : Grid}
    (hgrid : grid.hardware = hardware) (hbounded : hardware.Bounded) {column : Coordinate}
    {step phase : Nat} (hcolumn : hardware.IsColumn column) (hstep : step < hardware.steps)
    (hphase : phase < hardware.phases) (unit : FunctionalUnit) :
    column.atTime step phase unit =
      grid.unitPlace (hardware.cell (hardware.number column) step phase) unit := by
  subst hgrid
  have hnumber := hbounded.columns.number_lt hcolumn
  have hlevels := grid.levels_unitPlace
    (grid.hardware.cell (grid.hardware.number column) step phase) unit
  rw [hbounded.columnOf_cell hnumber hstep hphase, hbounded.stepOf_cell hnumber hstep hphase,
    hbounded.phaseOf_cell hnumber hstep hphase] at hlevels
  rw [Coordinate.atTime, congrArg Coordinate.levels (hcolumn.positionsAt hbounded.columns)]
  exact congrArg Coordinate.mk hlevels.symm

namespace Demo

variable {hardware : Hardware} {first : Coordinate} {columns : List Coordinate} {index : Nat}

/-- The point of a slot. -/
def slotCell (hardware : Hardware) (first : Coordinate) (columns : List Coordinate) (index : Nat) :
    Cell :=
  hardware.cell (hardware.number (columns[index % columns.length]?.getD first))
    (index / columns.length / hardware.phases) (index / columns.length % hardware.phases)

section Columns

variable (hbounded : hardware.Bounded) (hcolumns : ∀ column ∈ columns, hardware.IsColumn column)
  (hindex : index < columns.length * hardware.pointsPerColumn)
include hindex

theorem column_of_slot :
    ∃ column ∈ columns, columns[index % columns.length]? = some column := by
  have hsome : 0 < columns.length := Nat.pos_of_mul_pos_right (Nat.zero_lt_of_lt hindex)
  have hinside := Nat.mod_lt index hsome
  exact ⟨columns[index % columns.length], List.getElem_mem hinside,
    List.getElem?_eq_getElem hinside⟩

/-- Rounds over all columns come to an end with the last phase of the last step. -/
theorem round_of_slot : index / columns.length / hardware.phases < hardware.steps ∧
    index / columns.length % hardware.phases < hardware.phases := by
  have hround : index / columns.length < hardware.steps * hardware.phases :=
    Nat.lt_of_lt_of_le (Nat.div_lt_of_lt_mul hindex) (word_le _)
  have hphases : 0 < hardware.phases := Nat.pos_of_mul_pos_left (Nat.zero_lt_of_lt hround)
  exact ⟨Nat.div_lt_of_lt_mul (Nat.mul_comm _ _ ▸ hround), Nat.mod_lt _ hphases⟩

include hbounded hcolumns

theorem hasCell_slotCell : hardware.HasCell (slotCell hardware first columns index) := by
  obtain ⟨column, hmember, hcolumn⟩ := column_of_slot hindex
  obtain ⟨hstep, hphase⟩ := round_of_slot hindex
  rw [slotCell, hcolumn, Option.getD_some]
  exact hbounded.hasCell_cell (hbounded.columns.number_lt (hcolumns column hmember)) hstep hphase

theorem slot_eq_unitPlace {grid : Grid} (hgrid : grid.hardware = hardware) :
    slot hardware first columns index =
      grid.unitPlace (slotCell hardware first columns index) .axon := by
  obtain ⟨column, hmember, hcolumn⟩ := column_of_slot hindex
  obtain ⟨hstep, hphase⟩ := round_of_slot hindex
  rw [slot, slotCell, hcolumn, Option.getD_some]
  exact Grid.atTime_eq_unitPlace hgrid hbounded (hcolumns column hmember) hstep hphase .axon

/-- Two slots at one point are in the same round, and in the same place of it. -/
theorem slotCell_inj (honce : columns.Nodup) {other : Nat}
    (hother : other < columns.length * hardware.pointsPerColumn)
    (hsame : slotCell hardware first columns index = slotCell hardware first columns other) :
    index = other := by
  obtain ⟨column, hmember, hcolumn⟩ := column_of_slot hindex
  obtain ⟨otherColumn, hotherMember, hotherColumn⟩ := column_of_slot hother
  obtain ⟨hstepLt, hphaseLt⟩ := round_of_slot hindex
  obtain ⟨hotherStepLt, hotherPhaseLt⟩ := round_of_slot hother
  rw [slotCell, slotCell, hcolumn, hotherColumn, Option.getD_some, Option.getD_some] at hsame
  have hfirst := hbounded.columns.number_lt (hcolumns column hmember)
  have hsecond := hbounded.columns.number_lt (hcolumns otherColumn hotherMember)
  have hnumber := congrArg hardware.columnOf hsame
  have hstep := congrArg hardware.stepOf hsame
  have hphase := congrArg hardware.phaseOf hsame
  rw [hbounded.columnOf_cell hfirst hstepLt hphaseLt,
    hbounded.columnOf_cell hsecond hotherStepLt hotherPhaseLt] at hnumber
  rw [hbounded.stepOf_cell hfirst hstepLt hphaseLt,
    hbounded.stepOf_cell hsecond hotherStepLt hotherPhaseLt] at hstep
  rw [hbounded.phaseOf_cell hfirst hstepLt hphaseLt,
    hbounded.phaseOf_cell hsecond hotherStepLt hotherPhaseLt] at hphase
  obtain rfl := Hardware.number_inj hbounded.columns (hcolumns column hmember)
    (hcolumns otherColumn hotherMember) hnumber
  have hplace : index % columns.length = other % columns.length :=
    (List.getElem?_inj (List.getElem?_eq_some_iff.mp hcolumn).1 honce).mp
      (hcolumn.trans hotherColumn.symm)
  have hround : index / columns.length = other / columns.length := by
    rw [← Nat.div_add_mod (index / columns.length) hardware.phases, hstep, hphase,
      Nat.div_add_mod]
  rw [← Nat.div_add_mod index columns.length, hround, hplace, Nat.div_add_mod]

end Columns

theorem isColumn_functional (hbounded : hardware.ColumnsBounded) {column : Coordinate}
    (hcolumn : column ∈ hardware.functionalColumns) :
    hardware.IsColumn column ∧ column ∉ hardware.disabled := by
  obtain ⟨hlisted, hfunctional⟩ := List.mem_filter.mp hcolumn
  have hisColumn := hbounded.mem_columns_iff.mp hlisted
  refine ⟨hisColumn, fun hdisabled => ?_⟩
  rw [Bool.not_eq_true', ← Bool.not_eq_true, Hardware.isDisabled_iff, hisColumn.take]
    at hfunctional
  exact hfunctional hdisabled

theorem functionalPoints_lt (hbounded : hardware.Bounded) :
    hardware.functionalColumns.length * hardware.pointsPerColumn < wordCount := by
  have hcolumns : hardware.functionalColumns.length ≤ Hardware.count hardware.levels :=
    calc hardware.functionalColumns.length
      _ ≤ hardware.columns.length := List.length_filter_le _ _
      _ = hardware.columnCount := hardware.length_columns
      _ = Hardware.count hardware.levels := hbounded.columns.columnCount_eq
  rw [hbounded.pointsPerColumn_eq]
  exact Nat.lt_of_le_of_lt (Nat.mul_le_mul_right _ hcolumns) hbounded.cells

theorem present_slotCell (hbounded : hardware.Bounded)
    (hcolumns : ∀ column ∈ columns, column ∈ hardware.functionalColumns)
    (hindex : index < columns.length * hardware.pointsPerColumn) :
    ((Grid.ofHardware hardware).pointAt? (slotCell hardware first columns index)).isSome =
      true := by
  have hisColumn : ∀ column ∈ columns, hardware.IsColumn column := fun column hmember =>
    (isColumn_functional hbounded.columns (hcolumns column hmember)).1
  obtain ⟨column, hmember, hcolumn⟩ := column_of_slot hindex
  obtain ⟨hstep, hphase⟩ := round_of_slot hindex
  rw [Grid.pointAt?_ofHardware hbounded (hasCell_slotCell hbounded hisColumn hindex), if_neg]
  · rfl
  · have hnumber := hbounded.columns.number_lt (hisColumn column hmember)
    rw [slotCell, hcolumn, Option.getD_some, Hardware.siteAt,
      hbounded.columnOf_cell hnumber hstep hphase,
      ← (hisColumn column hmember).positionsAt hbounded.columns]
    exact (isColumn_functional hbounded.columns (hcolumns column hmember)).2

/-- The computations with the points of their slots. -/
def seats (hardware : Hardware) (first : Coordinate) (columns : List Coordinate)
    (computations : List TaskId) : List (TaskId × Cell) :=
  computations.zipIdx.map fun entry => (entry.1, slotCell hardware first columns entry.2)

section Seats

variable {computations : List TaskId}

theorem map_fst_seats :
    (seats hardware first columns computations).map Prod.fst = computations := by
  rw [seats, List.map_map]
  exact List.zipIdx_map_fst 0 computations

theorem map_snd_seats : (seats hardware first columns computations).map Prod.snd =
    (List.range computations.length).map (slotCell hardware first columns) := by
  have hsecond := List.zipIdx_map_snd 0 computations
  rw [← List.range_eq_range'] at hsecond
  rw [seats, List.map_map, ← hsecond, List.map_map]
  rfl

theorem exists_index_of_seat {seat : TaskId × Cell}
    (hseat : seat ∈ seats hardware first columns computations) :
    ∃ index < computations.length, seat.1 ∈ computations ∧
      seat.2 = slotCell hardware first columns index := by
  have htask := List.mem_map_of_mem (f := Prod.fst) hseat
  have hcell := List.mem_map_of_mem (f := Prod.snd) hseat
  rw [map_fst_seats] at htask
  rw [map_snd_seats] at hcell
  obtain ⟨index, hindex, hslot⟩ := List.mem_map.mp hcell
  exact ⟨index, List.mem_range.mp hindex, htask, hslot.symm⟩

/-- Computations of the axon take seats at their slots if there are points enough. -/
theorem seats_onHardware {graph : TaskGraph} (hbounded : hardware.Bounded)
    (hcolumns : ∀ column ∈ columns, column ∈ hardware.functionalColumns)
    (honce : columns.Nodup)
    (hroom : computations.length ≤ columns.length * hardware.pointsPerColumn)
    (hnodup : computations.Nodup)
    (haxon : ∀ task ∈ computations, ∃ computation,
      graph.payload? task = some (.computation computation) ∧
        computation.operation.engine = .axon) :
    (Placement.onHardware graph hardware).Seats (seats hardware first columns computations) where
  tasks := map_fst_seats.symm ▸ hnodup
  cells := by
    have hisColumn : ∀ column ∈ columns, hardware.IsColumn column := fun column hmember =>
      (isColumn_functional hbounded.columns (hcolumns column hmember)).1
    rw [map_snd_seats]
    refine List.Nodup.map_on (fun index hindex other hother hsame => ?_) List.nodup_range
    have hinside := Nat.lt_of_lt_of_le (List.mem_range.mp hindex) hroom
    have hotherInside := Nat.lt_of_lt_of_le (List.mem_range.mp hother) hroom
    exact slotCell_inj hbounded hisColumn hinside honce hotherInside hsame
  axon seat hseat := by
    obtain ⟨-, -, htask, -⟩ := exists_index_of_seat hseat
    exact haxon seat.1 htask
  present seat hseat := by
    obtain ⟨index, hindex, -, hslot⟩ := exists_index_of_seat hseat
    have hinside := Nat.lt_of_lt_of_le hindex hroom
    rw [hslot, Placement.hardware, Placement.onHardware, Placement.onGrid, Grid.hardware_ofHardware]
    exact ⟨hasCell_slotCell hbounded (fun column hmember =>
      (isColumn_functional hbounded.columns (hcolumns column hmember)).1) hinside,
        present_slotCell hbounded hcolumns hinside⟩

end Seats

end Demo

end TiledPlacement
