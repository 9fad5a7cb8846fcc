import Mathlib.Data.List.Nodup
import TiledPlacement.Proofs.Action
import TiledPlacement.Proofs.Graph.Port
import TiledPlacement.Split.Plan

/-!
The numbers that planning takes. What a plan creates are new blocks without edges under exactly the
numbers that were taken, one each.
-/

namespace TiledPlacement

open Execution

variable {α : Type}

def TaskId.range (first count : Nat) : List TaskId := (List.range' first count).map TaskId.mk

theorem TaskId.mem_range_iff {first count : Nat} {task : TaskId} :
    task ∈ TaskId.range first count ↔ first ≤ task.raw ∧ task.raw < first + count := by
  simp only [TaskId.range, List.mem_map, List.mem_range'_1]
  constructor
  · rintro ⟨raw, hraw, rfl⟩
    exact hraw
  · exact fun hraw => ⟨task.raw, hraw, rfl⟩

theorem TaskId.nodup_range (first count : Nat) : (TaskId.range first count).Nodup :=
  List.Nodup.map (fun _ _ hequal => congrArg TaskId.raw hequal) (List.nodup_range' _)

theorem TaskId.range_append (first count more : Nat) :
    TaskId.range first count ++ TaskId.range (first + count) more =
      TaskId.range first (count + more) := by
  rw [TaskId.range, TaskId.range, TaskId.range, ← List.map_append, List.range'_append_1]

theorem Planner.ends_ofExcept {result : Except GraphError α} {ids : IdSource}
    {success : α → IdSource → Prop} {failure : GraphError → IdSource → Prop} :
    Ends (Planner.ofExcept result) ids success failure ↔
      (∀ value, result = .ok value → success value ids) ∧
        (∀ error, result = .error error → failure error ids) := by
  cases result with
  | ok value =>
      change success value ids ↔ _
      simp
  | error error =>
      change failure error ids ↔ _
      simp

theorem Planner.ends_takeTaskId {ids : IdSource} {success : TaskId → IdSource → Prop}
    {failure : GraphError → IdSource → Prop} :
    Ends Planner.takeTaskId ids success failure ↔ success ⟨ids.next⟩ ⟨ids.next + 1⟩ :=
  Iff.rfl

namespace SplitPlan

/-- The plan creates blocks without edges under the numbers taken from `before` to `after`. -/
structure Numbered (before after : IdSource) (plan : SplitPlan) : Prop where
  next : after.next = before.next + plan.created.length
  created : plan.created.Perm (TaskId.range before.next plan.created.length)
  blocks : (plan.blocks.map Block.id).Perm plan.created
  made : ∀ block ∈ plan.blocks, block.Made

theorem numbered_of_no_block (ids : IdSource) (edges : List Connection) :
    Numbered ids ids ⟨[], [], edges⟩ :=
  ⟨rfl, .nil, .nil, fun _ hblock => nomatch hblock⟩

theorem Numbered.append {before middle after : IdSource} {first second : SplitPlan}
    (hfirst : first.Numbered before middle) (hsecond : second.Numbered middle after) :
    (first.append second).Numbered before after where
  next := by
    rw [hsecond.next, hfirst.next, SplitPlan.append, List.length_append, Nat.add_assoc]
  created := by
    have hboth := hfirst.created.append hsecond.created
    rw [hfirst.next, TaskId.range_append] at hboth
    rw [SplitPlan.append, List.length_append]
    exact hboth
  blocks := by
    rw [SplitPlan.append, List.map_append]
    exact hfirst.blocks.append hsecond.blocks
  made block hblock := by
    rcases List.mem_append.mp hblock with hleft | hright
    · exact hfirst.made block hleft
    · exact hsecond.made block hright

theorem Numbered.of_block {before after : IdSource} {plan : SplitPlan} {block : Block}
    (hplan : plan.Numbered ⟨before.next + 1⟩ after) (hid : block.id = ⟨before.next⟩)
    (hmade : block.Made) {created : List TaskId} {blocks : List Block} {edges : List Connection}
    (hcreated : created.Perm (block.id :: plan.created))
    (hblocks : blocks.Perm (block :: plan.blocks)) :
    Numbered before after ⟨created, blocks, edges⟩ where
  next := by
    have hnext : after.next = before.next + 1 + plan.created.length := hplan.next
    rw [hnext, hcreated.length_eq, List.length_cons]
    omega
  created := by
    refine hcreated.trans ?_
    rw [hcreated.length_eq, List.length_cons, hid, Nat.add_comm, ← TaskId.range_append]
    exact hplan.created.cons _
  blocks := by
    refine (hblocks.map Block.id).trans (.trans ?_ hcreated.symm)
    exact hplan.blocks.cons _
  made other hother := by
    rcases List.mem_cons.mp (hblocks.mem_iff.mp hother) with rfl | hrest
    · exact hmade
    · exact hplan.made other hrest

theorem Numbered.id_mem_range {before after : IdSource} {plan : SplitPlan}
    (hplan : plan.Numbered before after) {block : Block} (hblock : block ∈ plan.blocks) :
    before.next ≤ block.id.raw ∧ block.id.raw < after.next := by
  have hcreated := hplan.blocks.mem_iff.mp (List.mem_map_of_mem hblock)
  have hrange := TaskId.mem_range_iff.mp (hplan.created.mem_iff.mp hcreated)
  rw [hplan.next]
  exact hrange

theorem Numbered.nodup {before after : IdSource} {plan : SplitPlan}
    (hplan : plan.Numbered before after) : (plan.blocks.map Block.id).Nodup :=
  (hplan.blocks.trans hplan.created).nodup_iff.mpr (TaskId.nodup_range _ _)

/-- Plans made one after the other are numbered one after the other. -/
theorem ends_mapM {ids : IdSource} {list : List α} {planner : α → Planner SplitPlan}
    (hplanner : ∀ element ∈ list, ∀ before, Ends (planner element) before
      (fun plan after => plan.Numbered before after) (fun _ after => before.next ≤ after.next)) :
    Ends (list.mapM planner) ids (fun plans after => (concat plans).Numbered ids after)
      (fun _ after => ids.next ≤ after.next) := by
  induction list generalizing ids with
  | nil => exact numbered_of_no_block ids []
  | cons element rest induction =>
      rw [ends_mapM_cons]
      refine (hplanner element List.mem_cons_self ids).mono (fun plan middle hplan => ?_)
        (fun _ _ hfailed => hfailed)
      have hmiddle : ids.next ≤ middle.next := by
        rw [hplan.next]
        exact Nat.le_add_right _ _
      refine (induction fun other hother => hplanner other (List.mem_cons_of_mem _ hother)).mono
        (fun plans after hplans => ?_) (fun _ _ hfailed => Nat.le_trans hmiddle hfailed)
      exact hplan.append hplans

end SplitPlan

namespace Split

open SplitPlan

variable {split : Split} {graph : TaskGraph}

theorem ends_planFeed {copy : TaskId} {port : Nat} {required : Window} {edge : Edge}
    {part : Window} (before : IdSource) :
    Ends (split.planFeed graph copy port required edge part) before
      (fun plan after => plan.Numbered before after) (fun _ after => before.next ≤ after.next) := by
  unfold planFeed
  rw [ends_bind, Planner.ends_ofExcept]
  refine ⟨fun sent _ => ?_, fun _ _ => Nat.le_refl _⟩
  dsimp only
  split
  case isFalse => exact numbered_of_no_block before _
  case isTrue =>
    unfold planOperand
    rw [ends_bind, Planner.ends_ofExcept]
    refine ⟨fun operand _ => ?_, fun _ _ => Nat.le_refl _⟩
    rw [ends_bind, Planner.ends_takeTaskId, ends_bind, Planner.ends_ofExcept]
    refine ⟨fun block hblock => ?_, fun _ _ => Nat.le_succ _⟩
    rw [ends_bind, Planner.ends_ofExcept]
    refine ⟨fun feeds _ => ?_, fun _ _ => Nat.le_succ _⟩
    obtain ⟨hid, hmade, -⟩ := Block.copyLike_ok hblock
    refine (numbered_of_no_block ⟨before.next + 1⟩ []).of_block hid hmade ?_ (.refl _)
    rw [hid]

theorem ends_planInputs {copy : TaskId} {ports : Nat} {window : Window} (before : IdSource) :
    Ends (split.planInputs graph copy ports window) before
      (fun plan after => plan.Numbered before after) (fun _ after => before.next ≤ after.next) := by
  unfold planInputs
  rw [ends_bind]
  refine (ends_mapM fun ((operand, whole), port) _ start => ?_).mono (fun _ _ hplans => hplans)
    (fun _ _ hfailed => hfailed)
  dsimp only
  rw [ends_bind]
  exact (ends_mapM fun (edge, part) _ start => ends_planFeed start).mono
    (fun _ _ hplans => hplans) (fun _ _ hfailed => hfailed)

theorem ends_planCopy {accumulator : Option TaskId} {part : SplitPart} (before : IdSource) :
    Ends (split.planCopy graph accumulator part) before
      (fun plan after => plan.Numbered before after) (fun _ after => before.next ≤ after.next) := by
  unfold planCopy
  rw [ends_bind, Planner.ends_takeTaskId, ends_bind, Planner.ends_ofExcept]
  refine ⟨fun block hblock => ?_, fun _ _ => Nat.le_succ _⟩
  obtain ⟨hid, -, hmade⟩ := Block.ofComputation_ok hblock
  rw [ends_bind]
  refine (ends_planInputs _).mono (fun inputs after hinputs => ?_)
    (fun _ _ hfailed => Nat.le_trans (Nat.le_succ _) hfailed)
  have hcopy : ∀ outputs, Numbered before after
      ⟨⟨before.next⟩ :: inputs.created, inputs.blocks ++ [block], inputs.edges ++ outputs⟩ := by
    intro outputs
    refine hinputs.of_block hid hmade ?_ List.perm_append_comm
    rw [hid]
  have hlater : before.next ≤ after.next := by
    rw [(hcopy []).next]
    exact Nat.le_add_right _ _
  cases accumulator with
  | some accumulator => exact hcopy _
  | none =>
      rw [ends_bind, Planner.ends_ofExcept]
      exact ⟨fun outputs _ => hcopy outputs, fun _ _ => hlater⟩

/-- A whole plan takes the numbers that it gives to the blocks it creates, and no others. -/
theorem ends_plan (before : IdSource) :
    Ends (split.plan graph) before
      (fun plan after => plan.Numbered before after) (fun _ after => before.next ≤ after.next) := by
  have hcopies : ∀ (accumulator : Option TaskId) (start : IdSource),
      Ends (split.parts.mapM (split.planCopy graph accumulator)) start
        (fun plans after => (concat plans).Numbered start after)
        (fun _ after => start.next ≤ after.next) :=
    fun accumulator start => ends_mapM fun part _ start => ends_planCopy start
  have hedges : ∀ {after : IdSource} {whole : SplitPlan}, whole.Numbered before after →
      Numbered before after { whole with edges := whole.edges.eraseDups } :=
    fun hwhole => ⟨hwhole.next, hwhole.created, hwhole.blocks, hwhole.made⟩
  unfold plan
  dsimp only
  by_cases hreduces : split.reduces = true
  · rw [if_pos hreduces, ends_bind, ends_map, Planner.ends_takeTaskId, ends_bind]
    refine (hcopies _ _).mono (fun plans after hplans => ?_)
      (fun _ _ hfailed => Nat.le_trans (Nat.le_succ _) hfailed)
    dsimp only
    rw [ends_bind, Planner.ends_ofExcept]
    have hlater : before.next ≤ after.next := by
      rw [hplans.next]
      exact Nat.le_trans (Nat.le_succ _) (Nat.le_add_right _ _)
    refine ⟨fun sums hsums => ?_, fun _ _ => hlater⟩
    unfold planAccumulator at hsums
    obtain ⟨block, hblock, hsums⟩ := bind_eq_ok_iff.mp hsums
    obtain ⟨hid, -, hmade⟩ := Block.ofComputation_ok hblock
    cases hsums
    refine hedges (hplans.of_block hid hmade ?_ List.perm_append_comm)
    rw [hid]
    exact List.perm_append_comm
  · rw [if_neg hreduces, ends_bind, ends_pure, ends_bind]
    refine (hcopies _ _).mono (fun plans after hplans => ?_) (fun _ _ hfailed => hfailed)
    exact hedges (hplans.append (numbered_of_no_block after []))

end Split

end TiledPlacement
