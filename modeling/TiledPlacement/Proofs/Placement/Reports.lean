import TiledPlacement.Proofs.Placement.Footprint
import TiledPlacement.Proofs.Placement.Groups
import TiledPlacement.Proofs.Placement.Determined
import TiledPlacement.Proofs.Placement.Reachable

/-!
The reports on all columns that hold a task, and what does not change them: a storage block that a
computation of a point needs anyway may come to the bank of that point and leave it.
-/

namespace TiledPlacement

open Execution

namespace Placement

variable {placement left : Placement} {cell : Cell} {block task : TaskId} {place : Coordinate}

theorem isEmpty_of_holds {point : Point} {unit : FunctionalUnit}
    (hholds : point.holds unit task = true) : point.isEmpty = false := by
  rw [Bool.eq_false_iff, Ne, Point.isEmpty_iff]
  exact fun hnone => hnone unit task hholds

/-! Columns that hold a task. -/

/-- Column of a cell that holds a task. -/
def columnAt? (placement : Placement) (index : Nat) : Option Coordinate :=
  ((placement.grid.cells[index]?).join.filter fun point => !point.isEmpty).map fun _ =>
    (placement.grid.coordinateAt index).take placement.spaceDepth

theorem columnAt?_eq_some_iff {index : Nat} {column : Coordinate} :
    placement.columnAt? index = some column ↔
      ∃ point, placement.grid.cells[index]? = some (some point) ∧ point.isEmpty = false ∧
        (placement.grid.coordinateAt index).take placement.spaceDepth = column := by
  simp [columnAt?, Option.filter_eq_some_iff, Option.join_eq_some_iff, and_assoc]

theorem occupiedColumns_eq (placement : Placement) :
    placement.occupiedColumns =
      ((List.range' 0 placement.grid.cells.size).filterMap placement.columnAt?).eraseDups := by
  unfold occupiedColumns Grid.points Grid.region
  dsimp only
  rw [List.filter_filterMap, List.map_filterMap]
  refine congrArg List.eraseDups (List.filterMap_congr fun index _ => ?_)
  simp only [columnAt?]
  cases (placement.grid.cells[index]?).join with
  | none => rfl
  | some point => cases hempty : point.isEmpty <;> simp [Option.filter, hempty]

theorem take_coordinateAt {unit : FunctionalUnit}
    (hbounded : placement.hardware.Bounded)
    (hresolve : placement.grid.resolve place = .ok (some (.unit cell unit))) :
    (placement.grid.coordinateAt cell.place).take placement.spaceDepth =
      place.take placement.spaceDepth := by
  have hreaches := Grid.reaches_coordinateAt (Grid.hasCell_of_resolve hbounded hresolve) []
  rw [List.append_nil] at hreaches
  exact (Grid.columnIndex?_eq_iff hbounded.columns hreaches.column_eq place).mp
    (Grid.columnIndex?_of_resolve hbounded hresolve)

theorem take_coordinateAt_ascending {earlier later : Nat} (hless : earlier < later)
    (hinside : placement.hardware.HasCell ⟨later⟩) :
    (placement.grid.coordinateAt earlier).take placement.spaceDepth =
        (placement.grid.coordinateAt later).take placement.spaceDepth ∨
      ((placement.grid.coordinateAt earlier).take placement.spaceDepth).compare
        ((placement.grid.coordinateAt later).take placement.spaceDepth) = .lt := by
  have htake : ∀ index, (placement.grid.coordinateAt index).take placement.spaceDepth =
      ⟨Hardware.positionsAt placement.hardware.levels
        (index / placement.hardware.pointsPerColumn)⟩ := by
    intro index
    have hlength : (Hardware.positionsAt placement.hardware.levels
        (index / placement.hardware.pointsPerColumn)).length = placement.spaceDepth :=
      Hardware.length_positionsAt _ _
    exact congrArg Coordinate.mk (List.take_left' hlength)
  rw [htake, htake]
  rcases Nat.lt_or_eq_of_le (Nat.div_le_div_right (c := placement.hardware.pointsPerColumn)
    hless.le) with hcolumns | hsame
  · exact Or.inr (Hardware.compare_positionsAt hcolumns
      (Nat.lt_of_lt_of_le hinside.columnOf_lt (word_le _)))
  · rw [hsame]
    exact Or.inl rfl

theorem exists_sits {index : Nat} {point : Point}
    (hpoint : placement.grid.cells[index]? = some (some point)) (hsome : point.isEmpty = false) :
    ∃ unit task, placement.grid.Sits ⟨index⟩ unit task := by
  have hholds : ¬∀ unit task, ¬point.holds unit task = true := by
    rw [← Point.isEmpty_iff, hsome]
    exact Bool.false_ne_true
  push Not at hholds
  obtain ⟨unit, task, hholds⟩ := hholds
  exact ⟨unit, task, point, Option.join_eq_some_iff.mpr hpoint, hholds⟩

theorem occupiedColumns_ascending (placement : Placement) :
    placement.occupiedColumns.Pairwise fun earlier later => earlier.compare later = .lt := by
  rw [occupiedColumns_eq]
  apply pairwise_eraseDups
  rw [List.pairwise_filterMap]
  refine List.Pairwise.imp (fun {earlier later} hless column hcolumn other hother => ?_)
    List.pairwise_lt_range'
  obtain ⟨-, -, -, rfl⟩ := columnAt?_eq_some_iff.mp hcolumn
  obtain ⟨point, hpoint, -, rfl⟩ := columnAt?_eq_some_iff.mp hother
  have hfound : placement.grid.pointAt? ⟨later⟩ = some point := Option.join_eq_some_iff.mpr hpoint
  exact take_coordinateAt_ascending hless (Grid.hasCell_of_pointAt? hfound)

section Occupied

variable (hagrees : placement.Agrees) (hbounded : placement.hardware.Bounded)
include hagrees hbounded

/-- The occupied columns are those where a task is recorded. -/
theorem mem_occupiedColumns_iff {column : Coordinate} :
    column ∈ placement.occupiedColumns ↔ ∃ task place,
      placement.coordinate? task = some place ∧ place.take placement.spaceDepth = column := by
  rw [occupiedColumns_eq, List.mem_eraseDups, List.mem_filterMap]
  constructor
  · rintro ⟨index, -, hcolumn⟩
    obtain ⟨point, hpoint, hsome, rfl⟩ := columnAt?_eq_some_iff.mp hcolumn
    obtain ⟨unit, task, hsits⟩ := exists_sits hpoint hsome
    obtain ⟨place, hplaced, hresolve⟩ := hagrees.recorded hsits
    exact ⟨task, place, hplaced, (take_coordinateAt hbounded hresolve).symm⟩
  · rintro ⟨task, place, hplaced, rfl⟩
    obtain ⟨cell, unit, hresolve, point, hpoint, hholds⟩ := hagrees.located hplaced
    have hentry := Option.join_eq_some_iff.mp hpoint
    refine ⟨cell.place, ?_, columnAt?_eq_some_iff.mpr
      ⟨point, hentry, isEmpty_of_holds hholds, take_coordinateAt hbounded hresolve⟩⟩
    rw [List.mem_range'_1]
    exact ⟨Nat.zero_le _, by simpa using (Array.getElem?_eq_some_iff.mp hentry).1⟩

/-- There is a report on every occupied column. -/
theorem memoryReport_occupied (hids : placement.graph.ids.next ≤ largestId)
    (hknown : placement.Known) {column : Coordinate}
    (hcolumn : column ∈ placement.occupiedColumns) :
    placement.memoryReport column = .ok (placement.columnReport column) ∧
      (placement.columnReport column).column = column := by
  obtain ⟨task, place, hplaced, rfl⟩ := (mem_occupiedColumns_iff hagrees hbounded).mp hcolumn
  obtain ⟨cell, unit, hresolve, point, hpoint, -⟩ := hagrees.located hplaced
  have htake : placement.hardware.columnIndex? (place.take placement.spaceDepth) =
      some (placement.hardware.columnOf cell) :=
    (Hardware.columnIndex?_take _ _).trans (Grid.columnIndex?_of_resolve hbounded hresolve)
  have hlisted := mem_columnPoints_of_cell hbounded htake
    (Grid.hasCell_of_resolve hbounded hresolve) rfl hpoint
  refine ⟨memoryReport_eq hagrees hids hknown htake (List.ne_nil_of_mem hlisted), ?_⟩
  simp [columnReport, Coordinate.take, List.take_take]

theorem memoryReports_eq (hids : placement.graph.ids.next ≤ largestId)
    (hknown : placement.Known) :
    placement.memoryReports = .ok (placement.occupiedColumns.map placement.columnReport) ∧
      (placement.occupiedColumns.map placement.columnReport).map (·.column) =
        placement.occupiedColumns := by
  refine ⟨mapM_eq_ok fun column hcolumn =>
    (memoryReport_occupied hagrees hbounded hids hknown hcolumn).1, ?_⟩
  rw [List.map_map]
  refine (List.map_congr_left fun column hcolumn => ?_).trans (List.map_id _)
  exact (memoryReport_occupied hagrees hbounded hids hknown hcolumn).2

end Occupied

/-! What the reports depend on. -/

def usages (placement : Placement) (place : Coordinate) : List (Except Inconsistency PhaseUsage) :=
  (placement.grid.columnPoints place).map fun entry => placement.phaseUsage entry.1 entry.2

/-- The report on a column, from the hardware and from what is found at the points of the column. -/
def reportOf (hardware : Hardware) (place : Coordinate)
    (usages : List (Except Inconsistency PhaseUsage)) : Except PlacementError MemoryReport :=
  let column := place.take hardware.spaceDepth
  if place.depth < hardware.spaceDepth then
    .error (.grid (.contract column (.tooShallow place.depth hardware.spaceDepth)))
  else if usages.isEmpty then
    .error (.grid (.notFound column))
  else
    match usages.mapM id with
    | .error fault => .error (.inconsistent fault)
    | .ok phases => .ok { column, phases, capacity := hardware.memoryBytes }

theorem memoryReport_eq_reportOf (placement : Placement) (place : Coordinate) :
    placement.memoryReport place =
      reportOf placement.hardware place (placement.usages place) := by
  have hmapM : (placement.usages place).mapM id = (placement.grid.columnPoints place).mapM
      fun entry => placement.phaseUsage entry.1 entry.2 := List.mapM_map ..
  unfold memoryReport reportOf
  dsimp only
  rw [hmapM, spaceDepth, Grid.column?_take, Grid.column?_eq, usages, List.isEmpty_map]
  change _ = if place.depth < placement.grid.spaceDepth then _ else _
  by_cases hshallow : place.depth < placement.grid.spaceDepth
  · rw [if_pos hshallow, if_pos hshallow]
    rfl
  · rw [if_neg hshallow, if_neg hshallow]
    by_cases hnone : (placement.grid.columnPoints place).isEmpty = true
    · rw [if_pos hnone, if_pos hnone]
      rfl
    · rw [if_neg hnone, if_neg hnone]
      dsimp only
      rw [← hmapM]
      rfl

/-- What is found in a cell when its column is reported on. -/
def usageAt? (placement : Placement) (index : Nat) : Option (Except Inconsistency PhaseUsage) :=
  (placement.grid.cells[index]?).join.map (placement.phaseUsage (placement.grid.coordinateAt index))

/-- Both placements have the same reports. -/
structure SameReports (left right : Placement) : Prop where
  report : ∀ place, left.memoryReport place = right.memoryReport place
  all : left.memoryReports = right.memoryReports

theorem sameReports_of_cells (hhardware : left.hardware = placement.hardware)
    (husage : ∀ index, left.usageAt? index = placement.usageAt? index)
    (hcolumn : ∀ index, left.columnAt? index = placement.columnAt? index) :
    SameReports left placement := by
  have hreport : ∀ place, left.memoryReport place = placement.memoryReport place := by
    intro place
    have husages : left.usages place = placement.usages place := by
      have hsame : left.grid.hardware = placement.grid.hardware := hhardware
      unfold usages Grid.columnPoints
      rw [hsame]
      cases placement.grid.hardware.columnIndex? place with
      | none => simp
      | some number =>
          simp only [Option.map_some, Option.getD_some, Grid.region, List.map_filterMap,
            Option.map_map]
          exact List.filterMap_congr fun index _ => husage index
    rw [memoryReport_eq_reportOf, memoryReport_eq_reportOf, hhardware, husages]
  have hsize : left.grid.cells.size = placement.grid.cells.size := by
    rw [left.grid.size_cells, placement.grid.size_cells]
    exact congrArg Hardware.cellCount hhardware
  refine ⟨hreport, ?_⟩
  unfold memoryReports
  rw [occupiedColumns_eq, occupiedColumns_eq, hsize, funext hcolumn, funext hreport]

theorem sameReports_of_alike (hreseated : Reseated placement left)
    (halike : ∀ cell, left.grid.pointAt? cell = placement.grid.pointAt? cell ∨
      ∃ new old, left.grid.pointAt? cell = some new ∧ placement.grid.pointAt? cell = some old ∧
        neededAt placement.graph new = neededAt placement.graph old ∧
          new.isEmpty = old.isEmpty) : SameReports left placement := by
  have hlisted : left.grid.coordinateAt = placement.grid.coordinateAt := by
    funext index
    have hsame : left.grid.hardware = placement.grid.hardware := hreseated.hardware
    rw [Grid.coordinateAt, Grid.coordinateAt, hsame]
  have husage : ∀ {new old : Point}, neededAt placement.graph new = neededAt placement.graph old →
      ∀ place, left.phaseUsage place new = placement.phaseUsage place old := by
    intro new old hneeded place
    simp only [phaseUsage, hreseated.graph, hreseated.hardware, hreseated.spaceDepth, hneeded]
  apply sameReports_of_cells hreseated.hardware
  · intro index
    rw [usageAt?, usageAt?, hlisted]
    change (left.grid.pointAt? ⟨index⟩).map _ = (placement.grid.pointAt? ⟨index⟩).map _
    rcases halike ⟨index⟩ with hsame | ⟨new, old, hnew, hold, hneeded, -⟩
    · rw [hsame]
      cases placement.grid.pointAt? ⟨index⟩ with
      | none => simp
      | some point => exact congrArg some (husage rfl _)
    · rw [hnew, hold]
      exact congrArg some (husage hneeded _)
  · intro index
    rw [columnAt?, columnAt?, hlisted, hreseated.spaceDepth]
    change ((left.grid.pointAt? ⟨index⟩).filter _).map _ =
      ((placement.grid.pointAt? ⟨index⟩).filter _).map _
    rcases halike ⟨index⟩ with hsame | ⟨new, old, hnew, hold, -, hempty⟩
    · rw [hsame]
    · rw [hnew, hold]
      simp only [Option.filter_some, hempty]
      split <;> rfl

/-! A block that a computation of the point exchanges data with, in the bank of the point or not. -/

theorem Engages.exists_point (hengaged : placement.Engages cell block) :
    ∃ point, placement.grid.pointAt? cell = some point ∧ point.isEmpty = false := by
  obtain ⟨_, _, -, ⟨point, hpoint, hholds⟩, -⟩ := hengaged
  exact ⟨point, hpoint, isEmpty_of_holds hholds⟩

section Engaged

variable {places : TaskId → Option Coordinate} (hagrees : placement.Agrees)
  (hids : placement.graph.ids.next ≤ largestId) (hleft : Rearranged placement places left)
  (hothers : ∀ other, other ≠ block → places other = placement.coordinate? other)
  (hstored : placement.graph.isStorage block = true) (hengaged : placement.Engages cell block)

omit hids in
include hagrees hleft hothers hstored in
theorem Rearranged.engages_iff (cell : Cell) (other : TaskId) :
    left.Engages cell other ↔ placement.Engages cell other := by
  unfold Engages
  rw [hleft.reseated.graph]
  refine exists_congr fun unit => exists_congr fun resident => and_congr_right fun _ => ?_
  refine and_congr_left fun hboth => ?_
  have hdiffers : resident ≠ block := by
    rintro rfl
    obtain ⟨_, hcomputation⟩ := TaskGraph.isComputation_iff.mp hboth.1
    obtain ⟨_, hstorage⟩ := TaskGraph.isStorage_iff.mp hstored
    cases hcomputation.symm.trans hstorage
  rw [hleft.sits_iff, hothers resident hdiffers, hagrees.sits_iff]

include hagrees hids hleft hothers hstored hengaged

/-- The point counts the block whether or not it is in the bank. -/
theorem Rearranged.neededAt_eq {new old : Point}
    (hnew : left.grid.pointAt? cell = some new) (hold : placement.grid.pointAt? cell = some old) :
    neededAt placement.graph new = neededAt placement.graph old := by
  have hgraph := hleft.reseated.graph
  have hwellFormed := hagrees.wellFormed hids
  have hengages := hleft.engages_iff hagrees hothers hstored cell
  apply Std.ExtTreeSet.ext_mem
  intro other
  have hcounted : other ∈ neededAt left.graph new ↔ _ := mem_neededAt_iff (by rwa [hgraph]) hnew
  rw [hgraph] at hcounted
  rw [hcounted, mem_neededAt_iff hwellFormed hold, Needs, Needs, hgraph, hengages]
  by_cases hother : other = block
  · subst hother
    exact iff_of_true (Or.inr ⟨hstored, Or.inr hengaged⟩) (Or.inr ⟨hstored, Or.inr hengaged⟩)
  · rw [hleft.sits_iff, hothers other hother, hagrees.sits_iff]

omit hids hstored hengaged in
/-- Nothing changes in the other cells, since no coordinate of the block leads there. -/
theorem Rearranged.pointAt?_eq_elsewhere {other : Cell}
    (hresolve : placement.grid.resolve place = .ok (some (.unit cell .memory)))
    (hnew : ∀ target, places block = some target → target = place)
    (hold : ∀ target, placement.coordinate? block = some target → target = place)
    (helsewhere : other ≠ cell) :
    left.grid.pointAt? other = placement.grid.pointAt? other := by
  apply hleft.reseated.pointAt?_eq hagrees
  intro task target unit htarget
  rw [hleft.coordinate]
  by_cases htask : task = block
  · subst htask
    have hdiffers : target ≠ place := by
      rintro rfl
      cases hresolve.symm.trans htarget
      exact helsewhere rfl
    exact iff_of_false (fun hplaced => hdiffers (hnew target hplaced))
      (fun hplaced => hdiffers (hold target hplaced))
  · rw [hothers task htask]

theorem Rearranged.sameReports
    (hresolve : placement.grid.resolve place = .ok (some (.unit cell .memory)))
    (hnew : ∀ target, places block = some target → target = place)
    (hold : ∀ target, placement.coordinate? block = some target → target = place) :
    SameReports left placement := by
  refine sameReports_of_alike hleft.reseated fun other => ?_
  by_cases hthere : other = cell
  case neg =>
    exact Or.inl (hleft.pointAt?_eq_elsewhere hagrees hothers hresolve hnew hold hthere)
  case pos =>
    subst hthere
    have hstill := (hleft.engages_iff hagrees hothers hstored other block).mpr hengaged
    obtain ⟨old, hfound, hsome⟩ := hengaged.exists_point
    obtain ⟨new, hnewFound, hnewSome⟩ := hstill.exists_point
    have hneeded := hleft.neededAt_eq hagrees hids hothers hstored hengaged hnewFound hfound
    exact Or.inr ⟨new, old, hnewFound, hfound, hneeded, hnewSome.trans hsome.symm⟩

end Engaged

/-- As long as words hold the number of cells and what is needed at each point, and all tasks of the
placement are in the graph, there is a report on every column that has a point, with one entry for
each of its points: what the storage blocks take that are in the bank or exchange data with a
computation of the point, each block once. So it makes no difference to any report whether a block
that such a computation uses is in the bank there. The reports on all columns are those on the
columns that hold a task, in order and each once. -/
theorem Reachable.memoryReports_exact {placement : Placement} (hreachable : placement.Reachable)
    (hids : placement.graph.ids.next ≤ largestId) (hknown : placement.Known)
    (hbounded : placement.hardware.Bounded) (hroom : placement.RoomBounded) :
    (∀ place cell, placement.hardware.HasCell cell →
      placement.hardware.columnIndex? place = some (placement.hardware.columnOf cell) →
        (placement.grid.pointAt? cell).isSome = true →
          ∃ report, placement.memoryReport place = .ok report ∧
            report.column = place.take placement.spaceDepth ∧
              placement.Measures (placement.hardware.columnOf cell) report) ∧
      (∀ place cell block, placement.grid.resolve place = .ok (some (.unit cell .memory)) →
        placement.graph.isStorage block = true → placement.Engages cell block →
          (placement.coordinate? block = none →
            Ends (putIn place block) placement (fun _ left => SameReports left placement)
              (fun _ _ => False)) ∧
            (placement.coordinate? block = some place →
              Ends (takeOut place block) placement (fun _ left => SameReports left placement)
                (fun _ _ => False))) ∧
      ∃ reports, placement.memoryReports = .ok reports ∧
        (reports.map (·.column)).Pairwise (fun earlier later => earlier.compare later = .lt) ∧
          (∀ column, column ∈ reports.map (·.column) ↔ ∃ task place,
            placement.coordinate? task = some place ∧
              place.take placement.spaceDepth = column) ∧
            ∀ report ∈ reports, placement.memoryReport report.column = .ok report := by
  have hagrees := hreachable.agrees
  refine ⟨fun place cell hcell hnumber hpresent => ?_,
    fun place cell block hresolve hstored hengaged => ⟨fun hunplaced => ?_, fun hplaced => ?_⟩, ?_⟩
  · obtain ⟨point, hpoint⟩ := Option.isSome_iff_exists.mp hpresent
    have hpoints :=
      List.ne_nil_of_mem (mem_columnPoints_of_cell hbounded hnumber hcell rfl hpoint)
    exact ⟨_, memoryReport_eq hagrees hids hknown hnumber hpoints, rfl,
      measures_columnReport hagrees hids hknown hbounded hnumber hroom hpoints⟩
  · obtain ⟨point, hpoint, -⟩ := hengaged.exists_point
    have hhouses : placement.Houses [block] place := by
      refine ⟨⟨cell, point, hresolve, hpoint⟩, fun operand hoperand => ?_⟩
      rw [List.mem_singleton.mp hoperand]
      exact TaskGraph.isStorage_iff.mp hstored
    have hput := (Rearranged.refl hagrees).ends_putOperandIn hhouses List.mem_cons_self hunplaced
    refine hput.mono (fun _ left hleft => ?_) (fun _ _ hfalse => hfalse)
    refine hleft.sameReports hagrees hids (fun other hother => if_neg hother) hstored hengaged
      hresolve (fun target htarget => ?_) (fun target htarget => ?_)
    · simpa [eq_comm] using htarget
    · cases hunplaced.symm.trans htarget
  · refine (ends_takeOut_rearranged hagrees hplaced).mono (fun _ left hleft => ?_)
      (fun _ _ hfalse => hfalse)
    refine hleft.sameReports hagrees hids (fun other hother => if_neg hother) hstored hengaged
      hresolve (fun target htarget => ?_) (fun target htarget => ?_)
    · simp at htarget
    · exact Option.some.inj (htarget.symm.trans hplaced)
  · obtain ⟨hrun, hcolumns⟩ := memoryReports_eq hagrees hbounded hids hknown
    refine ⟨_, hrun, ?_, fun column => ?_, ?_⟩
    · rw [hcolumns]
      exact placement.occupiedColumns_ascending
    · rw [hcolumns, mem_occupiedColumns_iff hagrees hbounded]
    · rw [List.forall_mem_map]
      intro column hcolumn
      obtain ⟨hreport, hsame⟩ := memoryReport_occupied hagrees hbounded hids hknown hcolumn
      rw [hsame, hreport]

/-- The input is in no bank, but a computation that reads it is in place. -/
def awaitedInput : Placement :=
  placedShift.runAll [.takeOut (bank 0) ⟨0⟩]

theorem reachable_awaitedInput : awaitedInput.Reachable :=
  (Reachable.keeps_run (.takeOut (bank 0) ⟨0⟩)).after reachable_placedShift

/-- The input comes to the bank of the computation, where it has been counted before. -/
theorem memoryReports_exact_awaitedInput :
    awaitedInput.coordinate? ⟨0⟩ = none ∧
      ∃ left, putIn (bank 1) ⟨0⟩ awaitedInput = .ok () left ∧
        left.coordinate? ⟨0⟩ = some (bank 1) ∧ SameReports left awaitedInput := by
  have hagrees := reachable_awaitedInput.agrees
  have hids : awaitedInput.graph.ids.next ≤ largestId := by decide +kernel
  have hunplaced : awaitedInput.coordinate? ⟨0⟩ = none := by decide +kernel
  have hknown : awaitedInput.Known := Known.of_toList (by decide +kernel)
  have hbounded : awaitedInput.hardware.Bounded := by decide +kernel
  have hroom : awaitedInput.RoomBounded := .of_blocks (by decide +kernel) (by decide +kernel)
  have hbank : awaitedInput.grid.resolve (bank 1) =
      .ok (some (.unit (awaitedInput.hardware.cell 1 0 1) .memory)) :=
    Grid.resolve_eq_unit_iff.mpr ⟨by decide +kernel, by decide +kernel, 1, 0, 1,
      ⟨by decide +kernel, by decide +kernel, by decide +kernel, by decide +kernel,
        by decide +kernel⟩, rfl⟩
  have hsoma : awaitedInput.grid.resolve (firstSoma 1) =
      .ok (some (.unit (awaitedInput.hardware.cell 1 0 1) .soma1)) :=
    Grid.resolve_withUnit hbank .soma1
  have hengaged : awaitedInput.Engages (awaitedInput.hardware.cell 1 0 1) ⟨0⟩ := by
    refine ⟨.soma1, ⟨1⟩, rfl, ?_, by decide +kernel, ?_⟩
    · exact hagrees.sits_iff.mpr ⟨firstSoma 1, by decide +kernel, hsoma⟩
    · apply (hagrees.wellFormed hids).adjacent_iff.mpr
      decide +kernel
  obtain ⟨-, hmoves, -⟩ :=
    reachable_awaitedInput.memoryReports_exact hids hknown hbounded hroom
  obtain ⟨hput, -⟩ := hmoves (bank 1) _ ⟨0⟩ hbank (by decide +kernel) hengaged
  obtain ⟨left, hrun, hsame⟩ := (hput hunplaced).exists_ok
  have hreturns : ((after (putIn (bank 1) ⟨0⟩) awaitedInput).coordinate? ⟨0⟩) =
      some (bank 1) := by decide +kernel
  rw [after, hrun] at hreturns
  exact ⟨hunplaced, left, hrun, hreturns, hsame⟩

/-- Four storage blocks in a bank where each takes a quarter of the bytes that a word can count. -/
def crowdedBank : Placement :=
  (onHardware ((TaskGraph.empty 0).runAll [
    .addStorage ⟨.input, .vector 4, .int8⟩,
    .addStorage ⟨.input, .vector 4, .int8⟩,
    .addStorage ⟨.input, .vector 4, .int8⟩,
    .addStorage ⟨.input, .vector 4, .int8⟩])
    { Hardware.singleChip 1 1 with alignment := 2 ^ 62 }).runAll [
      .putIn (bank 0) ⟨0⟩, .putIn (bank 0) ⟨1⟩, .putIn (bank 0) ⟨2⟩, .putIn (bank 0) ⟨3⟩]

theorem reachable_crowdedBank : crowdedBank.Reachable :=
  ⟨_, _, .onHardware (TaskGraph.Reachable.runAll (.empty (Nat.zero_le _))
    (by simp [TaskGraph.Command.Admits]) (by decide +kernel)) _, rfl⟩

/-- The blocks take `2 ^ 64` bytes together, and none at all is reported. -/
theorem memoryReports_lose_bytes :
    crowdedBank.hardware.validate = .ok () ∧ crowdedBank.Reachable ∧ crowdedBank.Known ∧
      (crowdedBank.memoryReport (bank 0)).toOption.map (·.peak) = some 0 ∧
        crowdedBank.Charges (crowdedBank.hardware.cell 0 0 1) (2 ^ 64) := by
  have hids : crowdedBank.graph.ids.next ≤ largestId := by decide +kernel
  have hknown : crowdedBank.Known := Known.of_toList (by decide +kernel)
  have hpresent : (crowdedBank.grid.pointAt? (crowdedBank.hardware.cell 0 0 1)).isSome = true := by
    decide +kernel
  obtain ⟨point, hpoint⟩ := Option.isSome_iff_exists.mp hpresent
  have hcharges := charges_of_point reachable_crowdedBank.agrees hids hknown hpoint
  have hsum : ((crowdedBank.grid.pointAt? (crowdedBank.hardware.cell 0 0 1)).map fun point =>
      ((neededAt crowdedBank.graph point).toList.map
        (crowdedBank.graph.room crowdedBank.hardware.alignment)).sum) = some (2 ^ 64) := by
    decide +kernel
  rw [hpoint, Option.map_some, Option.some.injEq] at hsum
  rw [hsum] at hcharges
  exact ⟨by decide +kernel, reachable_crowdedBank, hknown, by decide +kernel, hcharges⟩

end Placement

end TiledPlacement
