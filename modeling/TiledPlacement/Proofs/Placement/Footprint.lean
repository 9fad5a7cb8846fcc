import Mathlib.Algebra.BigOperators.Group.Finset.Basic
import Mathlib.Algebra.Order.BigOperators.Group.Finset
import Mathlib.Algebra.Order.Floor.Div
import Mathlib.GroupTheory.GroupAction.Ring
import TiledPlacement.Placement.Evaluation
import TiledPlacement.Proofs.Placement.Splitting

/-!
What a point needs of its memory bank. A storage block that is in the bank or next to a computation
of the point is needed once, over however many edges and for however many computations. The bytes
that are reported are those that the blocks take as long as words hold them.
-/

namespace TiledPlacement

open Execution

namespace TaskGraph

variable {graph : TaskGraph} {task other : TaskId}

/-- An edge leads from one of the tasks to the other. -/
def Adjacent (graph : TaskGraph) (task other : TaskId) : Prop :=
  ∃ edge, graph.edge? edge.id = some edge ∧
    (edge.src.task = task ∧ edge.dst.task = other ∨ edge.src.task = other ∧ edge.dst.task = task)

theorem WellFormed.adjacent_iff (hgraph : graph.WellFormed) :
    graph.Adjacent task other ↔
      task ∈ (graph.producers other).toList ∨ task ∈ (graph.consumers other).toList := by
  rw [hgraph.mem_producers_iff, hgraph.mem_consumers_iff]
  constructor
  · rintro ⟨edge, hedge, hforth | hback⟩
    · exact Or.inl ⟨edge, hedge, hforth⟩
    · exact Or.inr ⟨edge, hedge, hback⟩
  · rintro (⟨edge, hedge, hforth⟩ | ⟨edge, hedge, hback⟩)
    · exact ⟨edge, hedge, Or.inl hforth⟩
    · exact ⟨edge, hedge, Or.inr hback⟩

/-- Bits of the elements of a storage block, and none of another task. -/
def bits (graph : TaskGraph) (task : TaskId) : Nat :=
  match graph.payload? task with
  | some (.storage storage) => storage.shape.elements * storage.precision.bits
  | _ => 0

/-- Bytes that a storage block takes in a bank, in whole multiples of the alignment. -/
def room (graph : TaskGraph) (alignment : Nat) (task : TaskId) : Nat :=
  let bytes := graph.bits task ⌈/⌉ 8
  if alignment ≤ 1 then bytes else (bytes ⌈/⌉ alignment) * alignment

theorem exists_footprint (hstored : graph.isStorage task = true) (alignment : Nat) :
    ∃ bytes, graph.footprint? task alignment = some bytes := by
  obtain ⟨storage, hpayload⟩ := isStorage_iff.mp hstored
  obtain ⟨block, hblock, hstorage⟩ := payload?_eq_some_iff.mp hpayload
  rw [footprint?, hblock, Option.bind_some, Block.storage?, hstorage]
  exact ⟨_, rfl⟩

/-- The footprint of a storage block is what a word keeps of the bytes that it takes. -/
theorem footprint?_eq (hstored : graph.isStorage task = true)
    (hbits : graph.bits task < wordCount) (alignment : Nat) :
    graph.footprint? task alignment = some (word (graph.room alignment task)) := by
  obtain ⟨storage, hpayload⟩ := isStorage_iff.mp hstored
  obtain ⟨block, hblock, hstorage⟩ := payload?_eq_some_iff.mp hpayload
  have hvolume : word (storage.shape.volume * storage.precision.bits) = graph.bits task := by
    simp only [bits, hpayload] at hbits ⊢
    rw [Shape.volume, word_word_mul, word_of_lt hbits]
  have hceil : graph.bits task ⌈/⌉ 8 = (graph.bits task + 7) / 8 :=
    Nat.ceilDiv_eq_add_pred_div _ _
  have hbytes : (graph.bits task + 7) / 8 < wordCount := by omega
  simp only [footprint?, hblock, Option.bind_some, Block.storage?, hstorage, Option.map_some,
    storageBytes, Precision.bytesFor, hvolume, alignUp, room, hceil]
  split
  case isTrue => rw [word_of_lt hbytes]
  case isFalse halign =>
    rw [Nat.ceilDiv_eq_add_pred_div, Nat.add_sub_assoc (by omega)]

end TaskGraph

namespace MemoryReport

theorem le_largest {usages : List PhaseUsage} {usage : PhaseUsage} (hmember : usage ∈ usages) :
    usage.bytes ≤ largest usages := by
  induction usages with
  | nil => cases hmember
  | cons first rest induction =>
      rcases List.mem_cons.mp hmember with rfl | hrest
      · exact Nat.le_max_left _ _
      · exact Nat.le_trans (induction hrest) (Nat.le_max_right _ _)

theorem exists_eq_largest {usages : List PhaseUsage} (hsome : usages ≠ []) :
    ∃ usage ∈ usages, usage.bytes = largest usages := by
  induction usages with
  | nil => exact absurd rfl hsome
  | cons first rest induction =>
      by_cases hrest : rest = []
      · subst hrest
        exact ⟨first, List.mem_cons_self, (Nat.max_zero _).symm⟩
      · obtain ⟨usage, hmember, hlargest⟩ := induction hrest
        rcases Nat.le_total first.bytes (largest rest) with hle | hle
        · refine ⟨usage, List.mem_cons_of_mem _ hmember, hlargest.trans ?_⟩
          exact (Nat.max_eq_right hle).symm
        · exact ⟨first, List.mem_cons_self, (Nat.max_eq_left hle).symm⟩

end MemoryReport

namespace Placement

variable {placement : Placement} {cell : Cell} {point : Point} {block task : TaskId}

theorem mem_storageBeside_iff {graph : TaskGraph} (hgraph : graph.WellFormed) :
    block ∈ storageBeside graph task ↔
      graph.isComputation task = true ∧ graph.isStorage block = true ∧
        graph.Adjacent block task := by
  unfold storageBeside
  rw [hgraph.adjacent_iff]
  split
  case isTrue hcomputes =>
    rw [List.mem_filter, List.mem_append]
    exact ⟨fun hmember => ⟨hcomputes, hmember.2, hmember.1⟩,
      fun hbeside => ⟨hbeside.2.2, hbeside.2.1⟩⟩
  case isFalse hcomputes => simp [hcomputes]

/-- A computation in a slot of the point exchanges data with the block. -/
def Engages (placement : Placement) (cell : Cell) (block : TaskId) : Prop :=
  ∃ unit task, unit.isSlot = true ∧ placement.grid.Sits cell unit task ∧
    placement.graph.isComputation task = true ∧ placement.graph.Adjacent block task

/-- A storage block that is in the bank of the point or exchanges data with its computations. -/
def Needs (placement : Placement) (cell : Cell) (block : TaskId) : Prop :=
  placement.graph.isStorage block = true ∧
    (placement.grid.Sits cell .memory block ∨ placement.Engages cell block)

theorem mem_pipeline_iff {unit : FunctionalUnit} :
    unit ∈ FunctionalUnit.pipeline ↔ unit.isSlot = true := by
  cases unit <;> decide

theorem sits_iff_holds (hpoint : placement.grid.pointAt? cell = some point)
    {unit : FunctionalUnit} :
    placement.grid.Sits cell unit task ↔ point.holds unit task = true := by
  simp [Grid.Sits, hpoint]

/-- What is counted at a point: the tasks of the bank, and what its computations need. -/
theorem mem_neededAt_iff (hgraph : placement.graph.WellFormed)
    (hpoint : placement.grid.pointAt? cell = some point) :
    block ∈ neededAt placement.graph point ↔
      placement.grid.Sits cell .memory block ∨ placement.Needs cell block := by
  unfold neededAt Needs Engages
  simp only [Std.ExtTreeSet.mem_ofList, List.contains_iff_mem, List.mem_append, List.mem_flatMap,
    mem_pipeline_iff, Point.mem_residentsOf_iff, mem_storageBeside_iff hgraph,
    sits_iff_holds hpoint, Std.ExtTreeSet.mem_toList, Point.holds_memory]
  constructor
  · rintro (hbank | ⟨unit, hslot, task, hholds, hcomputes, hstored, hadjacent⟩)
    · exact Or.inl hbank
    · exact Or.inr ⟨hstored, Or.inr ⟨unit, task, hslot, hholds, hcomputes, hadjacent⟩⟩
  · rintro (hbank | ⟨hstored, hbank | ⟨unit, task, hslot, hholds, hcomputes, hadjacent⟩⟩)
    · exact Or.inl hbank
    · exact Or.inl hbank
    · exact Or.inr ⟨unit, hslot, task, hholds, hcomputes, hstored, hadjacent⟩

/-- Every placed task has a block. -/
def Known (placement : Placement) : Prop :=
  ∀ {task place}, placement.coordinate? task = some place → placement.graph.hasBlock task = true

theorem Known.of_toList (hblocks : ∀ entry ∈ placement.whereabouts.coordinates.toList,
    placement.graph.hasBlock entry.1 = true) : placement.Known := fun {task place} hplaced =>
  hblocks (task, place) (Std.ExtTreeMap.mem_toList_iff_getElem?_eq_some.mpr hplaced)

section Known

variable (hagrees : placement.Agrees) (hids : placement.graph.ids.next ≤ largestId)
  (hknown : placement.Known)
include hagrees hids hknown

theorem isStorage_of_sits (hsits : placement.grid.Sits cell .memory task) :
    placement.graph.isStorage task = true := by
  obtain ⟨place, hplaced, hresolve⟩ := hagrees.recorded hsits
  obtain ⟨payload, hpayload⟩ := TaskGraph.hasBlock_iff.mp (hknown hplaced)
  have hmay := hagrees.allowed hids hplaced hresolve hpayload
  cases payload with
  | storage storage => exact TaskGraph.isStorage_iff.mpr ⟨storage, hpayload⟩
  | computation computation =>
      simp [Payload.MayOccupy, Engine.accepts, FunctionalUnit.engine?] at hmay

theorem mem_neededAt_iff_needs (hpoint : placement.grid.pointAt? cell = some point) :
    block ∈ neededAt placement.graph point ↔ placement.Needs cell block := by
  rw [mem_neededAt_iff (hagrees.wellFormed hids) hpoint]
  refine or_iff_right_of_imp fun hbank => ?_
  exact ⟨isStorage_of_sits hagrees hids hknown hbank, Or.inl hbank⟩

end Known

theorem exists_totalFootprint {graph : TaskGraph} {tasks : List TaskId}
    (hstored : ∀ task ∈ tasks, graph.isStorage task = true) (alignment : Nat) :
    ∃ bytes, totalFootprint graph alignment tasks = .ok bytes := by
  induction tasks with
  | nil => exact ⟨0, rfl⟩
  | cons first rest induction =>
      rw [List.forall_mem_cons] at hstored
      obtain ⟨bytes, hbytes⟩ := TaskGraph.exists_footprint hstored.1 alignment
      obtain ⟨others, hothers⟩ := induction hstored.2
      rw [totalFootprint, hbytes, hothers]
      exact ⟨_, rfl⟩

theorem totalFootprint_eq {graph : TaskGraph} {alignment : Nat} {tasks : List TaskId}
    (hstored : ∀ task ∈ tasks, graph.isStorage task = true)
    (hbits : ∀ task ∈ tasks, graph.bits task < wordCount) :
    totalFootprint graph alignment tasks = .ok (word (tasks.map (graph.room alignment)).sum) := by
  induction tasks with
  | nil => rfl
  | cons first rest induction =>
      rw [List.forall_mem_cons] at hstored hbits
      simp only [totalFootprint, TaskGraph.footprint?_eq hstored.1 hbits.1,
        induction hstored.2 hbits.2, Except.map, List.map_cons, List.sum_cons, word_word_add,
        word_add_word]

/-- The bytes are what the blocks that a point needs take together, each counted once. -/
def Charges (placement : Placement) (cell : Cell) (bytes : Nat) : Prop :=
  ∃ needed : Finset TaskId, (∀ block, block ∈ needed ↔ placement.Needs cell block) ∧
    bytes = ∑ block ∈ needed, placement.graph.room placement.hardware.alignment block

/-- Words hold the bits of each storage block and the bytes that are needed at each point. -/
structure RoomBounded (placement : Placement) : Prop where
  bits : ∀ task, placement.graph.bits task < wordCount
  bytes : ∀ {cell bytes}, placement.Charges cell bytes → bytes < wordCount

/-- Words hold what is needed at a point if they hold what all blocks of the graph take together. -/
theorem RoomBounded.of_blocks
    (hbits : ∀ task ∈ placement.graph.taskIds, placement.graph.bits task < wordCount)
    (hbytes : ∑ task ∈ placement.graph.taskIds.toFinset,
      placement.graph.room placement.hardware.alignment task < wordCount) :
    placement.RoomBounded where
  bits := by
    intro task
    cases hpayload : placement.graph.payload? task with
    | none =>
        rw [TaskGraph.bits, hpayload]
        decide
    | some payload =>
        obtain ⟨block, hblock, -⟩ := TaskGraph.payload?_eq_some_iff.mp hpayload
        exact hbits task (TaskGraph.mem_taskIds_iff.mpr ⟨block, hblock⟩)
  bytes := by
    rintro cell _ ⟨needed, hneeded, rfl⟩
    refine Nat.lt_of_le_of_lt (Finset.sum_le_sum_of_subset fun task htask => ?_) hbytes
    obtain ⟨storage, hpayload⟩ := TaskGraph.isStorage_iff.mp ((hneeded task).mp htask).1
    obtain ⟨block, hblock, -⟩ := TaskGraph.payload?_eq_some_iff.mp hpayload
    exact List.mem_toFinset.mpr (TaskGraph.mem_taskIds_iff.mpr ⟨block, hblock⟩)

theorem charges_of_point (hagrees : placement.Agrees)
    (hids : placement.graph.ids.next ≤ largestId) (hknown : placement.Known)
    (hpoint : placement.grid.pointAt? cell = some point) :
    placement.Charges cell ((neededAt placement.graph point).toList.map
      (placement.graph.room placement.hardware.alignment)).sum := by
  refine ⟨(neededAt placement.graph point).toList.toFinset, fun block => ?_, ?_⟩
  · rw [List.mem_toFinset, Std.ExtTreeSet.mem_toList,
      mem_neededAt_iff_needs hagrees hids hknown hpoint]
  · rw [List.sum_toFinset _ (TaskGraph.nodup_toList _)]

/-! The report on a column. -/

/-- What a listed point of a known placement is charged with. -/
def measured (placement : Placement) (entry : Coordinate × Point) : PhaseUsage where
  step := (entry.1.step? placement.spaceDepth).getD 0
  phase := (entry.1.phase? placement.spaceDepth).getD 0
  bytes := ((totalFootprint placement.graph placement.hardware.alignment
    (neededAt placement.graph entry.2).toList).toOption).getD 0

/-- The report on a column of a known placement: what its points are charged with. -/
def columnReport (placement : Placement) (place : Coordinate) : MemoryReport where
  column := place.take placement.spaceDepth
  phases := (placement.grid.columnPoints place).map placement.measured
  capacity := placement.hardware.memoryBytes

theorem time_listed {grid : Grid} (hcell : grid.hardware.HasCell cell) :
    (grid.coordinateAt cell.place).step? grid.spaceDepth = some (grid.hardware.stepOf cell) ∧
      (grid.coordinateAt cell.place).phase? grid.spaceDepth =
        some (grid.hardware.phaseOf cell) := by
  have hreaches := Grid.reaches_coordinateAt hcell []
  rw [List.append_nil] at hreaches
  exact ⟨hreaches.step_eq, hreaches.phase_eq⟩

theorem mapM_eq_ok {ε α β : Type} {list : List α} {action : α → Except ε β} {result : α → β}
    (hok : ∀ element ∈ list, action element = .ok (result element)) :
    list.mapM action = .ok (list.map result) := by
  induction list with
  | nil => rfl
  | cons first rest induction =>
      rw [List.forall_mem_cons] at hok
      simp only [List.mapM_cons, hok.1, induction hok.2, List.map_cons]
      rfl

section Column

variable {place : Coordinate} {number : Nat} (hagrees : placement.Agrees)
  (hids : placement.graph.ids.next ≤ largestId) (hknown : placement.Known)
include hagrees hids hknown

theorem stored_of_needed (hpoint : placement.grid.pointAt? cell = some point) :
    ∀ block ∈ (neededAt placement.graph point).toList,
      placement.graph.isStorage block = true := by
  intro block hblock
  rw [Std.ExtTreeSet.mem_toList, mem_neededAt_iff_needs hagrees hids hknown hpoint] at hblock
  exact hblock.1

theorem phaseUsage_eq {entry : Coordinate × Point}
    (hentry : entry ∈ placement.grid.columnPoints place) :
    placement.phaseUsage entry.1 entry.2 = .ok (placement.measured entry) := by
  obtain ⟨cell, hpoint, -⟩ := Grid.exists_cell_of_mem hentry
  obtain ⟨bytes, hbytes⟩ := exists_totalFootprint (stored_of_needed hagrees hids hknown hpoint)
    placement.hardware.alignment
  simp only [phaseUsage, measured, hbytes]
  rfl

theorem memoryReport_eq (hnumber : placement.hardware.columnIndex? place = some number)
    (hpoints : placement.grid.columnPoints place ≠ []) :
    placement.memoryReport place = .ok (placement.columnReport place) := by
  have hdeep : ¬place.depth < placement.grid.spaceDepth :=
    Nat.not_lt.mpr (Grid.depth_of_columnIndex? hnumber)
  have hcolumn : placement.grid.column? (place.take placement.spaceDepth) =
      .ok (some (placement.grid.columnPoints place)) := by
    rw [spaceDepth, Grid.column?_take, Grid.column?_eq, if_neg hdeep,
      if_neg (by simpa using hpoints)]
  unfold memoryReport
  simp only [hcolumn, mapM_eq_ok fun _ hentry => phaseUsage_eq hagrees hids hknown hentry]
  rfl

end Column

/-- A report has one entry for each present point of the numbered column, with what that point is
charged with, and the largest of them is the peak. -/
structure Measures (placement : Placement) (number : Nat) (report : MemoryReport) : Prop where
  capacity : report.capacity = placement.hardware.memoryBytes
  once : (report.phases.map fun usage => (usage.step, usage.phase)).Nodup
  present : ∀ step phase,
    (step, phase) ∈ (report.phases.map fun usage => (usage.step, usage.phase)) ↔
      step < placement.hardware.steps ∧ phase < placement.hardware.phases ∧
        (placement.grid.pointAt? (placement.hardware.cell number step phase)).isSome = true
  bytes : ∀ usage ∈ report.phases,
    placement.Charges (placement.hardware.cell number usage.step usage.phase) usage.bytes
  largest : ∀ usage ∈ report.phases, usage.bytes ≤ report.peak
  attained : ∃ usage ∈ report.phases, usage.bytes = report.peak

section Measures

variable {place : Coordinate} {number : Nat} (hagrees : placement.Agrees)
  (hids : placement.graph.ids.next ≤ largestId) (hknown : placement.Known)
  (hbounded : placement.hardware.Bounded)
  (hnumber : placement.hardware.columnIndex? place = some number)

include hbounded hnumber in
theorem measured_cell {entry : Coordinate × Point}
    (hentry : entry ∈ placement.grid.columnPoints place) :
    ∃ cell, placement.hardware.HasCell cell ∧ placement.grid.pointAt? cell = some entry.2 ∧
      placement.grid.coordinateAt cell.place = entry.1 ∧
        placement.hardware.stepOf cell = (placement.measured entry).step ∧
          placement.hardware.phaseOf cell = (placement.measured entry).phase ∧
            placement.hardware.cell number (placement.measured entry).step
              (placement.measured entry).phase = cell := by
  obtain ⟨cell, hcell, hcolumn, hpoint, hlisted⟩ := (Grid.mem_columnPoints hbounded).mp hentry
  obtain ⟨hstep, hphase⟩ := time_listed hcell
  obtain rfl := Option.some.inj (hcolumn.symm.trans hnumber)
  have hmeasuredStep : placement.hardware.stepOf cell = (placement.measured entry).step := by
    simp only [measured, ← hlisted, spaceDepth, hstep, Option.getD_some]
    rfl
  have hmeasuredPhase : placement.hardware.phaseOf cell = (placement.measured entry).phase := by
    simp only [measured, ← hlisted, spaceDepth, hphase, Option.getD_some]
    rfl
  refine ⟨cell, hcell, hpoint, hlisted, hmeasuredStep, hmeasuredPhase, ?_⟩
  rw [← hmeasuredStep, ← hmeasuredPhase]
  exact hcell.cell_eq

include hbounded hnumber in
theorem mem_columnPoints_of_cell {cell : Cell} (hcell : placement.hardware.HasCell cell)
    (hcolumn : placement.hardware.columnOf cell = number)
    (hpoint : placement.grid.pointAt? cell = some point) :
    (placement.grid.coordinateAt cell.place, point) ∈ placement.grid.columnPoints place :=
  (Grid.mem_columnPoints hbounded).mpr ⟨cell, hcell, hcolumn ▸ hnumber, hpoint, rfl⟩

include hbounded hnumber in
/-- Points of a column differ in their step or their phase. -/
theorem measured_once : ((placement.columnReport place).phases.map
    fun usage => (usage.step, usage.phase)).Nodup := by
  rw [columnReport, List.map_map, List.Nodup, List.pairwise_map]
  have honce := List.pairwise_map.mp (placement.grid.columnPoints_once place)
  refine List.Pairwise.imp_of_mem (fun {entry other} hentry hother hdiffers hsame => ?_) honce
  obtain ⟨left, -, -, hleft, -, -, hleftCell⟩ := measured_cell hbounded hnumber hentry
  obtain ⟨right, -, -, hright, -, -, hrightCell⟩ := measured_cell hbounded hnumber hother
  obtain ⟨hstep, hphase⟩ := Prod.mk.inj hsame
  rw [hstep, hphase, hrightCell] at hleftCell
  exact hdiffers (by rw [← hleft, ← hright, hleftCell])

include hbounded hnumber in
/-- The steps and phases of a report are those at which the column has a point. -/
theorem mem_measured_iff (step phase : Nat) :
    (step, phase) ∈ ((placement.columnReport place).phases.map
        fun usage => (usage.step, usage.phase)) ↔
      step < placement.hardware.steps ∧ phase < placement.hardware.phases ∧
        (placement.grid.pointAt? (placement.hardware.cell number step phase)).isSome = true := by
  simp only [columnReport, List.map_map, List.mem_map, Function.comp_apply, Prod.mk.injEq]
  constructor
  · rintro ⟨entry, hentry, rfl, rfl⟩
    obtain ⟨other, hother, hfound, -, hstep, hphase, hsame⟩ :=
      measured_cell hbounded hnumber hentry
    rw [← hstep, ← hphase] at hsame ⊢
    exact ⟨hother.stepOf_lt, hother.phaseOf_lt, by rw [hsame, hfound]; rfl⟩
  · rintro ⟨hstep, hphase, hsome⟩
    obtain ⟨found, hfound⟩ := Option.isSome_iff_exists.mp hsome
    have hcolumn := hbounded.columns.columnIndex?_lt hnumber
    have hother := hbounded.hasCell_cell hcolumn hstep hphase
    obtain ⟨hlistedStep, hlistedPhase⟩ := time_listed hother
    have hnumbered := hbounded.columnOf_cell hcolumn hstep hphase
    refine ⟨_, mem_columnPoints_of_cell hbounded hnumber hother hnumbered hfound, ?_⟩
    have hstepOf := hbounded.stepOf_cell hcolumn hstep hphase
    have hphaseOf := hbounded.phaseOf_cell hcolumn hstep hphase
    simp only [measured, spaceDepth, hlistedStep, hlistedPhase, Option.getD_some]
    exact ⟨hstepOf, hphaseOf⟩

include hagrees hids hknown hbounded hnumber

theorem measures_columnReport (hroom : placement.RoomBounded)
    (hpoints : placement.grid.columnPoints place ≠ []) :
    placement.Measures number (placement.columnReport place) where
  capacity := rfl
  once := measured_once hbounded hnumber
  present := mem_measured_iff hbounded hnumber
  bytes usage husage := by
    obtain ⟨entry, hentry, rfl⟩ := List.mem_map.mp husage
    obtain ⟨other, -, hfound, -, -, -, hsame⟩ := measured_cell hbounded hnumber hentry
    have hcharges := charges_of_point hagrees hids hknown hfound
    have hexact : totalFootprint placement.graph placement.hardware.alignment
        (neededAt placement.graph entry.2).toList = _ :=
      totalFootprint_eq (stored_of_needed hagrees hids hknown hfound) fun block _ =>
        hroom.bits block
    rw [word_of_lt (hroom.bytes hcharges)] at hexact
    rw [hsame, measured, hexact]
    exact hcharges
  largest _ husage := MemoryReport.le_largest husage
  attained := MemoryReport.exists_eq_largest (by simpa [columnReport] using hpoints)

end Measures

end Placement

end TiledPlacement
