import TiledPlacement.Proofs.Placement.Restoring

/-!
Computations that move together with the storage blocks that only they read. However these blocks
lie at first, the group ends where it would have if all of it had been taken out and put in again.
-/

namespace TiledPlacement

open Execution

namespace Grid

variable {grid : Grid} {place : Coordinate} {cell : Cell} {unit : FunctionalUnit}

theorem resolve_push (hresolve : grid.resolve place = .ok (some (.point cell)))
    (unit : FunctionalUnit) :
    grid.resolve (place.push (.scalar unit.index)) = .ok (some (.unit cell unit)) := by
  obtain ⟨hdepth, column, step, phase, hreaches, hcell⟩ := resolve_eq_point_iff.mp hresolve
  have hlength : place.levels.length = grid.spaceDepth + 2 := hdepth
  have hbefore : ∀ offset < 2, (place.push (.scalar unit.index)).scalar?
      (grid.spaceDepth + offset) = place.scalar? (grid.spaceDepth + offset) := by
    intro offset hoffset
    simp only [Coordinate.scalar?, Coordinate.level?, Coordinate.push]
    rw [List.getElem?_append_left (by omega)]
  have hspace : (place.push (.scalar unit.index)).take grid.hardware.spaceDepth =
      place.take grid.hardware.spaceDepth := by
    have hfits : grid.hardware.spaceDepth ≤ place.levels.length := by
      rw [hlength]
      exact Nat.le_add_right _ 2
    simp [Coordinate.take, Coordinate.push, List.take_append_of_le_length hfits]
  have hcolumn : grid.hardware.columnIndex? (place.push (.scalar unit.index)) = some column := by
    rw [← Hardware.columnIndex?_take, hspace, Hardware.columnIndex?_take, hreaches.column_eq]
  refine resolve_eq_unit_iff.mpr ⟨?_, ?_, column, step, phase,
    ⟨hcolumn, (hbefore 0 (by decide)).trans hreaches.step_eq, hreaches.step_lt,
      (hbefore 1 (by decide)).trans hreaches.phase_eq, hreaches.phase_lt⟩, hcell⟩
  · simp only [Coordinate.depth, Coordinate.push, List.length_append, hlength,
      List.length_singleton]
    rfl
  · simp [Coordinate.unit?, Coordinate.scalar?, Coordinate.level?, Coordinate.push, hlength,
      Position.get?, Position.scalar, FunctionalUnit.ofIndex?_index]

/-- The other units of a point are named by the same levels but the last. -/
theorem resolve_withUnit (hresolve : grid.resolve place = .ok (some (.unit cell unit)))
    (other : FunctionalUnit) :
    grid.resolve (place.withUnit grid.spaceDepth other) = .ok (some (.unit cell other)) :=
  resolve_push (resolve_take hresolve) other

end Grid

namespace Placement

variable {origin placement left : Placement} {task operand : TaskId} {source target : Coordinate}
  {memory : Coordinate} {operands : List TaskId} {places : TaskId → Option Coordinate}

/-- All of the tasks are storage blocks, for which the bank of a present point has room. -/
structure Houses (placement : Placement) (operands : List TaskId) (memory : Coordinate) : Prop where
  bank : ∃ cell point, placement.grid.resolve memory = .ok (some (.unit cell .memory)) ∧
    placement.grid.pointAt? cell = some point
  stored : ∀ operand ∈ operands, ∃ storage,
    placement.graph.payload? operand = some (.storage storage)

namespace Houses

theorem reseated (hhouses : origin.Houses operands memory) (hreseated : Reseated origin left) :
    left.Houses operands memory where
  bank := by
    obtain ⟨cell, point, hresolve, hpoint⟩ := hhouses.bank
    obtain ⟨found, hfound⟩ := (hreseated.exists_point_iff cell).mpr ⟨point, hpoint⟩
    exact ⟨cell, found, (hreseated.resolve memory).trans hresolve, hfound⟩
  stored := by
    rw [hreseated.graph]
    exact hhouses.stored

theorem not_refused (hhouses : placement.Houses operands memory) (hoperand : operand ∈ operands)
    (error : PlacementError) : ¬Refused placement operand memory error := by
  obtain ⟨cell, point, hresolve, hpoint⟩ := hhouses.bank
  obtain ⟨storage, hpayload⟩ := hhouses.stored operand hoperand
  exact not_refused_of_free hresolve (Option.isSome_iff_exists.mpr ⟨point, hpoint⟩) hpayload
    (Or.inl rfl) (fun hslot => nomatch hslot) error

end Houses

/-! One operand after the other. -/

namespace Rearranged

/-- A loop that sends every task to the same place, or nowhere, never fails if none of its steps
does. Each step finds its task where it was at first, for no task is sent twice. -/
theorem ends_forM (value : Option Coordinate) (action : TaskId → PlacementAction Unit)
    (hleft : Rearranged origin places left) (honce : operands.Nodup)
    (hstep : ∀ {operand middle others}, operand ∈ operands → Rearranged origin others middle →
      others operand = places operand → Ends (action operand) middle
        (fun _ later => Rearranged origin
          (fun other => if other = operand then value else others other) later)
        (fun _ _ => False)) :
    Ends (operands.forM action) left
      (fun _ later => Rearranged origin
        (fun other => if other ∈ operands then value else places other) later)
      (fun _ _ => False) := by
  induction operands generalizing left places with
  | nil => exact hleft.mono fun other => by simp
  | cons first rest induction =>
      obtain ⟨hfresh, honce⟩ := List.nodup_cons.mp honce
      rw [ends_forM_cons]
      refine (hstep List.mem_cons_self hleft rfl).mono (fun _ middle hmiddle => ?_)
        (fun _ _ hfalse => hfalse)
      refine (induction hmiddle honce fun {operand} _ _ hoperand hothers hsame => ?_).mono
        (fun _ later hlater => ?_) (fun _ _ hfalse => hfalse)
      · have hdiffers : operand ≠ first := fun hequal => hfresh (hequal ▸ hoperand)
        rw [if_neg hdiffers] at hsame
        exact hstep (List.mem_cons_of_mem _ hoperand) hothers hsame
      · exact hlater.mono fun other => by by_cases hrest : other ∈ rest <;> simp [hrest]

theorem ends_takeOperandOut (hleft : Rearranged origin places left) (operand : TaskId) :
    Ends (takeOperandOut operand) left
      (fun _ later => Rearranged origin
        (fun other => if other = operand then none else places other) later)
      (fun _ _ => False) := by
  unfold takeOperandOut
  simp only [ends_bind, ends_get]
  cases hplaced : left.coordinate? operand with
  | none =>
      refine hleft.mono fun other => ?_
      split
      case isTrue hother => rw [hother, ← hleft.coordinate, hplaced]
      case isFalse => rfl
  | some place =>
      refine (ends_takeOut_rearranged hleft.reseated.agrees hplaced).mono (fun _ later hlater => ?_)
        (fun _ _ hfalse => hfalse)
      exact (hleft.trans hlater).mono fun other => by simp only [hleft.coordinate]

theorem ends_putOperandIn (hleft : Rearranged origin places left)
    (hhouses : origin.Houses operands memory) (hoperand : operand ∈ operands)
    (hunplaced : places operand = none) :
    Ends (putIn memory operand) left
      (fun _ later => Rearranged origin
        (fun other => if other = operand then some memory else places other) later)
      (fun _ _ => False) := by
  have hnowhere : left.coordinate? operand = none := (hleft.coordinate operand).trans hunplaced
  refine (ends_putIn_unplaced hleft.reseated.agrees hnowhere).mono (fun _ later hlater => ?_)
    (fun error _ hfailed => ?_)
  · exact (hleft.trans hlater.2).mono fun other => by simp only [hleft.coordinate]
  · exact (hhouses.reseated hleft.reseated).not_refused hoperand error hfailed.2

theorem ends_bringOperand (hleft : Rearranged origin places left)
    (hhouses : origin.Houses operands memory) (hoperand : operand ∈ operands) :
    Ends (bringOperand memory operand) left
      (fun _ later => Rearranged origin
        (fun other => if other = operand then some memory else places other) later)
      (fun _ _ => False) := by
  unfold bringOperand
  simp only [ends_bind, ends_get]
  split
  case isTrue =>
    rw [ends_bind]
    refine (hleft.ends_takeOperandOut operand).mono (fun _ middle hmiddle => ?_)
      (fun _ _ hfalse => hfalse)
    refine (hmiddle.ends_putOperandIn hhouses hoperand (if_pos rfl)).mono
      (fun _ later hlater => ?_) (fun _ _ hfalse => hfalse)
    exact hlater.mono fun other => by by_cases hother : other = operand <;> simp [hother]
  case isFalse hthere =>
    rw [Decidable.not_not] at hthere
    refine hleft.mono fun other => ?_
    split
    case isTrue hother => rw [hother, ← hleft.coordinate, hthere]
    case isFalse => rfl

/-- A bank beside a placed task has room for storage blocks. -/
theorem houses (hleft : Rearranged origin places left) (hplaced : places task = some target)
    (hstored : ∀ operand ∈ operands, ∃ storage,
      origin.graph.payload? operand = some (.storage storage)) :
    origin.Houses operands (origin.memoryAt target) := by
  obtain ⟨cell, unit, hresolve, point, hpoint, -⟩ :=
    hleft.reseated.agrees.located ((hleft.coordinate task).trans hplaced)
  rw [hleft.reseated.resolve] at hresolve
  obtain ⟨found, hfound⟩ := (hleft.reseated.exists_point_iff cell).mp ⟨point, hpoint⟩
  exact ⟨⟨cell, found, Grid.resolve_withUnit hresolve .memory, hfound⟩, hstored⟩

end Rearranged

/-! A computation and its operands. -/

/-- The operands of a computation, as the graph has them on record. -/
def group (placement : Placement) (task : TaskId) : List TaskId :=
  (placement.graph.group? task).getD []

/-- Where everyone is when a group is at a target and the others are where they were. -/
def gathered (placement : Placement) (task : TaskId) (target : Coordinate) (other : TaskId) :
    Option Coordinate :=
  if other ∈ placement.group task then some (placement.memoryAt target)
  else if other = task then some target
  else placement.coordinate? other

/-- Where everyone is when a group has been taken out. -/
def deserted (placement : Placement) (task other : TaskId) : Option Coordinate :=
  if other ∈ placement.group task then none
  else if other = task then none
  else placement.coordinate? other

section Group

variable (hagrees : origin.Agrees) (hids : origin.graph.ids.next ≤ largestId)
  (hcomputes : origin.graph.isComputation task = true)

include hcomputes in
theorem operands_eq : origin.operands task = .ok (origin.group task) := by
  unfold TaskGraph.isComputation at hcomputes
  unfold Placement.operands TaskGraph.block
  cases hblock : origin.graph.block? task with
  | none => simp [hblock] at hcomputes
  | some block =>
      rw [hblock, Option.any_some] at hcomputes
      simp [hcomputes, group]

include hcomputes in
theorem hasBlock_of_computes : origin.graph.hasBlock task = true := by
  obtain ⟨computation, hpayload⟩ := TaskGraph.isComputation_iff.mp hcomputes
  exact TaskGraph.hasBlock_iff.mpr ⟨_, hpayload⟩

include hagrees hids hcomputes

theorem group_eq : origin.group task = origin.graph.operands task :=
  hagrees.grouped.getD_group?_eq (hagrees.wellFormed hids) hcomputes

theorem nodup_group : (origin.group task).Nodup := by
  rw [group_eq hagrees hids hcomputes]
  exact TaskGraph.WellFormed.nodup_operands _ _

theorem stored_of_mem_group (hoperand : operand ∈ origin.group task) :
    ∃ storage, origin.graph.payload? operand = some (.storage storage) := by
  rw [group_eq hagrees hids hcomputes] at hoperand
  exact ((hagrees.wellFormed hids).mem_operands_iff.mp hoperand).1

theorem not_mem_group : task ∉ origin.group task := by
  intro hmember
  obtain ⟨computation, hcomputation⟩ := TaskGraph.isComputation_iff.mp hcomputes
  obtain ⟨storage, hstorage⟩ := stored_of_mem_group hagrees hids hcomputes hmember
  cases hcomputation.symm.trans hstorage

/-- An operand is never in a unit that runs computations. -/
theorem not_mem_group_of_sits {cell : Cell} {unit : FunctionalUnit} {other : TaskId}
    (hcheck : origin.checkSlot target task = .ok ())
    (hresolve : origin.grid.resolve target = .ok (some (.unit cell unit)))
    (hslot : unit.isSlot = true) (hsits : origin.grid.Sits cell unit other) :
    other ∉ origin.group task := by
  intro hmember
  obtain ⟨storage, hstorage⟩ := stored_of_mem_group hagrees hids hcomputes hmember
  obtain ⟨computation, hcomputation⟩ := TaskGraph.isComputation_iff.mp hcomputes
  obtain ⟨wanted, block, hwanted, hblock, hruns⟩ := checkSlot_ok hcheck
  obtain rfl : wanted = unit := Option.some.inj
    (hwanted.symm.trans (Grid.resolve_eq_unit_iff.mp hresolve).2.1)
  have hpayload := TaskGraph.payload?_eq_some_iff.mpr ⟨block, hblock, rfl⟩
  rw [Option.some.inj (hpayload.symm.trans hcomputation)] at hruns
  obtain ⟨place, hplaced, hplace⟩ := hagrees.recorded hsits
  have hlies := hagrees.allowed hids hplaced hplace hstorage
  cases wanted <;>
    simp_all [Payload.MayOccupy, Engine.accepts, FunctionalUnit.engine?, FunctionalUnit.isRouter,
      FunctionalUnit.isSlot]

/-- The target refuses the computation no matter where the operands are. -/
theorem Rearranged.refused_iff_of_deserted (hleft : Rearranged origin (origin.deserted task) left)
    (error : PlacementError) :
    Refused left task target error ↔ Refused origin task target error := by
  constructor
  · refine Refused.mono (hleft.reseated.symm hagrees) fun {cell unit other} _ _ _ _ hstays => ?_
    obtain ⟨place, hplaced, hplace⟩ := hleft.sits_iff.mp hstays
    rw [hagrees.sits_iff]
    simp only [deserted, Option.ite_none_left_eq_some] at hplaced
    exact ⟨place, hplaced.2.2, hplace⟩
  · refine Refused.mono hleft.reseated fun hcheck hresolve hslot hother hstays => ?_
    have houtside := not_mem_group_of_sits hagrees hids hcomputes hcheck hresolve hslot hstays
    obtain ⟨place, hplaced, hplace⟩ := hagrees.sits_iff.mp hstays
    exact hleft.sits_iff.mpr ⟨place, by simp [deserted, houtside, hother, hplaced], hplace⟩

theorem ends_takeGroupOut (hplaced : origin.coordinate? task = some source) :
    Ends (takeGroupOut source task) origin
      (fun _ left => Rearranged origin (origin.deserted task) left) (fun _ _ => False) := by
  unfold takeGroupOut
  simp only [ends_bind, ends_get, operands_eq hcomputes]
  refine (ends_takeOut_rearranged hagrees hplaced).mono (fun _ left hleft => ?_)
    (fun _ _ hfalse => hfalse)
  exact hleft.ends_forM none takeOperandOut (nodup_group hagrees hids hcomputes)
    fun _ hothers _ => hothers.ends_takeOperandOut _

theorem ends_putGroupIn (hleft : Rearranged origin (origin.deserted task) left) :
    Ends (putGroupIn target task) left
      (fun _ later => (∀ error, ¬Refused origin task target error) ∧
        Rearranged origin (origin.gathered task target) later)
      (fun error _ => Refused origin task target error) := by
  have hgraph := hleft.reseated.graph
  have hmemory : left.memoryAt target = origin.memoryAt target := by
    rw [memoryAt, memoryAt, hleft.reseated.spaceDepth]
  have hsame : left.operands task = .ok (origin.group task) := by
    rw [operands_eq (by rwa [hgraph]), group, group, hgraph]
  have hunplaced : left.coordinate? task = none := by simp [hleft.coordinate, deserted]
  unfold putGroupIn
  simp only [ends_bind, ends_get, hsame, hmemory]
  refine (ends_putIn_unplaced hleft.reseated.agrees hunplaced).mono ?_ ?_
  · rintro _ middle ⟨hfree, hmiddle⟩
    have hseated := hleft.trans hmiddle
    have hstored : ∀ operand ∈ origin.group task, ∃ storage,
        origin.graph.payload? operand = some (.storage storage) :=
      fun _ => stored_of_mem_group hagrees hids hcomputes
    have hhouses := hseated.houses (if_pos rfl) hstored
    have houtside := not_mem_group hagrees hids hcomputes
    have hloop := hseated.ends_forM (some (origin.memoryAt target))
      (putIn (origin.memoryAt target)) (nodup_group hagrees hids hcomputes)
      fun {operand} _ _ hoperand hothers hstill => by
        refine hothers.ends_putOperandIn hhouses hoperand (hstill.trans ?_)
        have hdiffers : operand ≠ task := fun hequal => houtside (hequal ▸ hoperand)
        simp [hdiffers, hleft.coordinate, deserted, hoperand]
    refine hloop.mono (fun _ later hlater => ?_) (fun _ _ hfalse => hfalse.elim)
    refine ⟨fun error hrefused => ?_, hlater.mono fun other => ?_⟩
    · rw [← hleft.refused_iff_of_deserted hagrees hids hcomputes] at hrefused
      exact hfree error hrefused
    · simp only [gathered, hleft.coordinate, deserted]
      split <;> simp_all
  · rintro error _ ⟨-, hrefused⟩
    exact (hleft.refused_iff_of_deserted hagrees hids hcomputes error).mp hrefused

theorem ends_moveGroup (hplaced : origin.coordinate? task = some source) :
    Ends (moveGroup task target) origin
      (fun _ later => (∀ error, ¬MoveRefused origin task source target error) ∧
        Rearranged origin (origin.gathered task target) later)
      (fun error left => left = origin ∧ MoveRefused origin task source target error) := by
  unfold moveGroup
  simp only [ends_bind, ends_get, operands_eq hcomputes]
  refine (ends_moveTask hagrees hids (hasBlock_of_computes hcomputes) hplaced).mono ?_
    (fun _ _ hfailed => hfailed)
  rintro _ middle ⟨hfree, hmiddle⟩
  have hstored : ∀ operand ∈ origin.group task, ∃ storage,
      origin.graph.payload? operand = some (.storage storage) :=
    fun _ => stored_of_mem_group hagrees hids hcomputes
  have hhouses := hmiddle.houses (if_pos rfl) hstored
  refine (hmiddle.ends_forM (some (origin.memoryAt target))
    (bringOperand (origin.memoryAt target)) (nodup_group hagrees hids hcomputes)
    fun hoperand hothers _ => hothers.ends_bringOperand hhouses hoperand).mono
    (fun _ later hlater => ⟨hfree, hlater⟩) (fun _ _ hfalse => hfalse.elim)

end Group

/-- A group is at a target and all else is where it was. -/
structure Regrouped (origin : Placement) (task : TaskId) (target : Coordinate)
    (left : Placement) : Prop where
  graph : left.graph = origin.graph
  hardware : left.hardware = origin.hardware
  routes : left.whereabouts.routes = origin.whereabouts.routes
  point : ∃ cell unit, origin.grid.resolve target = .ok (some (.unit cell unit)) ∧
    left.coordinate? task = some target ∧ left.grid.Sits cell unit task ∧
      ∀ operand ∈ origin.group task,
        left.coordinate? operand = some (origin.memoryAt target) ∧
          left.grid.Sits cell .memory operand
  others : ∀ other, other ≠ task → other ∉ origin.group task →
    left.coordinate? other = origin.coordinate? other ∧
      ∀ cell unit, left.grid.Sits cell unit other ↔ origin.grid.Sits cell unit other

theorem Rearranged.regrouped (hagrees : origin.Agrees) (houtside : task ∉ origin.group task)
    (hleft : Rearranged origin (origin.gathered task target) left) :
    Regrouped origin task target left where
  graph := hleft.reseated.graph
  hardware := hleft.reseated.hardware
  routes := hleft.routes
  point := by
    have hplaced : left.coordinate? task = some target := by
      simp [hleft.coordinate, gathered, houtside]
    obtain ⟨cell, unit, hresolve, hsits⟩ := hleft.reseated.agrees.located hplaced
    rw [hleft.reseated.resolve] at hresolve
    refine ⟨cell, unit, hresolve, hplaced, hsits, fun operand hoperand => ?_⟩
    have hlies : origin.gathered task target operand = some (origin.memoryAt target) :=
      if_pos hoperand
    rw [hleft.coordinate, hleft.sits_iff]
    exact ⟨hlies, _, hlies, Grid.resolve_withUnit hresolve .memory⟩
  others other hother hmember := by
    have hstays : origin.gathered task target other = origin.coordinate? other := by
      simp [gathered, hother, hmember]
    refine ⟨(hleft.coordinate other).trans hstays, fun cell unit => ?_⟩
    rw [hleft.sits_iff, hagrees.sits_iff, hstays]

/-- Moving a group to a place of the same unit does what taking it out and putting it in again does,
and succeeds just when that does, wherever the operands are at first: the computation is at the new
place then, its operands in the memory bank there and all others where they were. -/
theorem Reachable.moveGroup_eq_ok_iff {placement : Placement} (hreachable : placement.Reachable)
    (hids : placement.graph.ids.next ≤ largestId) {task : TaskId} {source : Coordinate}
    (hcomputes : placement.graph.isComputation task = true)
    (hplaced : placement.coordinate? task = some source) (target : Coordinate)
    (left : Placement) :
    (moveGroup task target placement = .ok () left ↔
      source.unit? placement.spaceDepth = target.unit? placement.spaceDepth ∧
        (do takeGroupOut source task; putGroupIn target task : PlacementAction Unit) placement =
          .ok () left) ∧
      (moveGroup task target placement = .ok () left →
        Regrouped placement task target left) := by
  have hagrees := hreachable.agrees
  have hmoves : Ends (moveGroup task target) placement _ _ :=
    ends_moveGroup hagrees hids hcomputes hplaced
  have hputs : Ends (do takeGroupOut source task; putGroupIn target task : PlacementAction Unit)
      placement (fun _ later => (∀ error, ¬Refused placement task target error) ∧
        Rearranged placement (placement.gathered task target) later)
      (fun error _ => Refused placement task target error) := by
    rw [ends_bind]
    exact (ends_takeGroupOut hagrees hids hcomputes hplaced).mono
      (fun _ _ htaken => ends_putGroupIn hagrees hids hcomputes htaken)
      (fun _ _ hfalse => hfalse.elim)
  refine ⟨⟨fun hrun => ?_, fun ⟨hsame, hrun⟩ => ?_⟩, fun hrun => ?_⟩
  · obtain ⟨hfree, hleft⟩ := hmoves.of_ok hrun
    have hsame := unit?_of_free hagrees hplaced hfree
    obtain ⟨unit, hcurrent⟩ := hagrees.exists_unit hplaced
    have hwanted := hsame.symm.trans hcurrent
    refine ⟨hsame, eq_ok_of_ends (hputs.mono (fun _ later hlater => ?_) fun error _ hrefused => ?_)⟩
    · exact hlater.2.unique hagrees hleft
    · exact hfree error (.refused hcurrent hwanted hrefused)
  · obtain ⟨hfree, hleft⟩ := hputs.of_ok hrun
    refine eq_ok_of_ends (hmoves.mono (fun _ later hlater => ?_) fun error _ hfailed => ?_)
    · exact hlater.2.unique hagrees hleft
    · exact hfree error (hfailed.2.refused_of_same hagrees hplaced hsame)
  · exact (hmoves.of_ok hrun).2.regrouped hagrees (not_mem_group hagrees hids hcomputes)

def firstSoma (core : Nat) : Coordinate :=
  .atTime ⟨[⟨[0, 0]⟩, ⟨[0, core]⟩]⟩ 0 1 .soma1

theorem reachable_placedShift : placedShift.Reachable :=
  ⟨_, _, .onHardware (TaskGraph.Reachable.runAll (.empty (Nat.zero_le _))
    (by simp [TaskGraph.Command.Admits]) (by decide +kernel)) _, rfl⟩

/-- The input of a computation is on another core, and on the new one with it afterwards. -/
theorem moveGroup_eq_ok_iff_placedShift :
    placedShift.group ⟨1⟩ = [⟨0⟩] ∧ placedShift.coordinate? ⟨0⟩ = some (bank 0) ∧
      placedShift.coordinate? ⟨1⟩ = some (firstSoma 1) ∧
        ∃ left, moveGroup ⟨1⟩ (firstSoma 2) placedShift = .ok () left ∧
          (do takeGroupOut (firstSoma 1) ⟨1⟩; putGroupIn (firstSoma 2) ⟨1⟩ :
              PlacementAction Unit) placedShift = .ok () left ∧
            Regrouped placedShift ⟨1⟩ (firstSoma 2) left := by
  have hplaced : placedShift.coordinate? ⟨1⟩ = some (firstSoma 1) := by decide +kernel
  have hreturns : fails (moveGroup ⟨1⟩ (firstSoma 2)) placedShift = false := by decide +kernel
  obtain ⟨_, hrun⟩ := run_eq_ok hreturns
  obtain ⟨hiff, hregrouped⟩ := reachable_placedShift.moveGroup_eq_ok_iff (by decide +kernel)
    (by decide +kernel) hplaced (firstSoma 2) _
  exact ⟨by decide +kernel, by decide +kernel, hplaced, _, hrun, (hiff.mp hrun).2,
    hregrouped hrun⟩

end Placement

end TiledPlacement
