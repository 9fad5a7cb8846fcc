import TiledPlacement.Proofs.Placement.Reachable
import TiledPlacement.Proofs.Schedule.Delivery

/-!
Schedules that calls lead to. A run is a sequence of steps, and a step tries the task at the head of
the queue. Whatever the executor answers, the schedule stays exact about its graph; a task whose
attempt fails is the one thing that goes astray.
-/

namespace TiledPlacement

open Execution

namespace Schedule

section Step

variable {placement : Placement} {execute : Executor σ} {schedule : Schedule σ}

/-- What a step can do to a schedule. -/
inductive Stepped (placement : Placement) (schedule : Schedule σ) :
    EStateM.Result PlacementError (Schedule σ) StepOutcome → Prop
  | idle (hqueue : schedule.queue = []) : Stepped placement schedule (.ok .idle schedule)
  | fired {task : TaskId} {rest : List TaskId} (hqueue : schedule.queue = task :: rest)
      (executor : σ) :
      Stepped placement schedule (.ok (.fired task)
        (({ schedule with queue := rest, executor } : Schedule σ).fire placement.graph task))
  | requeued {task : TaskId} {rest : List TaskId} (hqueue : schedule.queue = task :: rest)
      (executor : σ) :
      Stepped placement schedule (.ok (.requeued task)
        { schedule with queue := rest ++ [task], executor })
  | failed {task : TaskId} {rest : List TaskId} (hqueue : schedule.queue = task :: rest)
      (error : PlacementError) (executor : σ) :
      Stepped placement schedule (.error error { schedule with queue := rest, executor })

theorem stepped (placement : Placement) (execute : Executor σ) (schedule : Schedule σ) :
    Stepped placement schedule (step placement execute schedule) := by
  unfold step
  cases hqueue : schedule.queue with
  | nil => exact .idle hqueue
  | cons task rest =>
      dsimp only
      cases placement.coordinate? task with
      | none => exact .failed hqueue _ schedule.executor
      | some place =>
          dsimp only
          cases execute placement.grid place task schedule.executor with
          | error error executor => exact .failed hqueue error executor
          | ok progress executor =>
              cases progress with
              | done => exact .fired hqueue executor
              | busy => exact .requeued hqueue executor

/-- The task at the head of the queue, if its attempt fails. -/
def lost? (placement : Placement) (execute : Executor σ) (schedule : Schedule σ) : Option TaskId :=
  if fails (step placement execute) schedule then schedule.queue.head? else none

theorem Accounts.after_step (hgraph : placement.graph.WellFormed) {lost : List TaskId}
    (haccounts : Accounts placement.graph [] lost schedule) :
    Accounts placement.graph [] ((schedule.lost? placement execute).toList ++ lost)
      (after (step placement execute) schedule) := by
  have hstepped := stepped placement execute schedule
  unfold lost? after fails
  generalize step placement execute schedule = result at hstepped
  cases hstepped with
  | idle hqueue => exact haccounts
  | fired hqueue executor => exact haccounts.fire hgraph hqueue executor
  | requeued hqueue executor => exact haccounts.requeue hqueue executor
  | failed hqueue error executor =>
      simp only [hqueue, if_true]
      exact haccounts.lose hqueue executor

end Step

section Run

variable {placement : Placement} {execute : Executor σ} {schedule : Schedule σ}

/-- The schedule after some steps, whether or not they fail. -/
def stepMany (placement : Placement) (execute : Executor σ) : Nat → Schedule σ → Schedule σ
  | 0, schedule => schedule
  | count + 1, schedule =>
      after (step placement execute) (stepMany placement execute count schedule)

/-- The tasks whose attempts fail in some steps, the last first. -/
def lostIn (placement : Placement) (execute : Executor σ) : Nat → Schedule σ → List TaskId
  | 0, _ => []
  | count + 1, schedule =>
      ((stepMany placement execute count schedule).lost? placement execute).toList ++
        lostIn placement execute count schedule

theorem Accounts.stepMany (hgraph : placement.graph.WellFormed)
    (haccounts : Accounts placement.graph [] [] schedule) (count : Nat) :
    Accounts placement.graph [] (lostIn placement execute count schedule)
      (stepMany placement execute count schedule) := by
  induction count with
  | zero => exact haccounts
  | succ count induction => exact induction.after_step hgraph

theorem runFrom_eq (schedule : Schedule σ) (retries : Nat) :
    runFrom placement execute schedule retries =
      match step placement execute schedule with
      | .error error next => .error error next
      | .ok .idle next => .ok next.fired next
      | .ok (.fired _) next => runFrom placement execute next 0
      | .ok (.requeued _) next =>
          if next.pending ≤ retries + 1 then .error (.deadlock next.pending) next
          else runFrom placement execute next (retries + 1) := by
  rw [runFrom]
  split <;> rename_i hstep <;> simp only [hstep]

/-- What every step keeps as long as none fails, a run keeps that does not fail either; it stops
with an empty queue then. -/
theorem ends_runFrom {property failed : Schedule σ → Prop}
    (hkeeps : ∀ schedule, property schedule →
      Ends (step placement execute) schedule (fun _ => property) (fun _ => failed))
    (hstuck : ∀ schedule, property schedule → failed schedule) (retries : Nat) :
    ∀ schedule, property schedule → Ends (runFrom placement execute · retries) schedule
      (fun fired last => property last ∧ last.queue = [] ∧ fired = last.fired)
      (fun _ => failed) := by
  intro schedule
  induction schedule, retries using runFrom.induct placement execute with
  | case1 schedule retries error next hstep =>
      intro hschedule
      have hnext := (hkeeps schedule hschedule).of_error hstep
      simpa only [Ends, runFrom_eq schedule, hstep] using hnext
  | case2 schedule retries next hstep =>
      intro hschedule
      have hnext := (hkeeps schedule hschedule).of_ok hstep
      have hstepped := stepped placement execute schedule
      rw [hstep] at hstepped
      have hqueue : next.queue = [] := by
        cases hstepped with
        | idle hqueue => exact hqueue
      simpa only [Ends, runFrom_eq schedule, hstep] using And.intro hnext ⟨hqueue, trivial⟩
  | case3 schedule retries task next hstep hless induction =>
      intro hschedule
      have hnext := induction ((hkeeps schedule hschedule).of_ok hstep)
      simpa only [Ends, runFrom_eq schedule, hstep] using hnext
  | case4 schedule retries task next hstep hsame hall =>
      intro hschedule
      have hnext := hstuck next ((hkeeps schedule hschedule).of_ok hstep)
      simpa only [Ends, runFrom_eq schedule, hstep, if_pos hall] using hnext
  | case5 schedule retries task next hstep hsame hmore induction =>
      intro hschedule
      have hnext := induction ((hkeeps schedule hschedule).of_ok hstep)
      simpa only [Ends, runFrom_eq schedule, hstep, if_neg hmore] using hnext

/-- What every step keeps, every run keeps. -/
theorem keeps_runFrom {property : Schedule σ → Prop}
    (hkeeps : Keeps property (step placement execute)) (retries : Nat) :
    Keeps property (runFrom placement execute · retries) := fun schedule hschedule =>
  (ends_runFrom hkeeps (fun _ hnext => hnext) retries schedule hschedule).mono
    (fun _ _ hlast => hlast.1) (fun _ _ hlast => hlast)

theorem keeps_stepMany (origin : Schedule σ) :
    Keeps (fun schedule => ∃ count, schedule = stepMany placement execute count origin)
      (step placement execute) := by
  intro schedule hschedule
  obtain ⟨count, rfl⟩ := hschedule
  apply ends_iff.mpr
  constructor
  · intro outcome left hstep
    exact ⟨count + 1, by rw [stepMany, after, hstep]⟩
  · intro error left hstep
    exact ⟨count + 1, by rw [stepMany, after, hstep]⟩

/-- Schedules that calls lead to, failing ones included. -/
inductive Reached (placement : Placement) (execute : Executor σ) : Schedule σ → Prop
  | start (executor : σ) : Reached placement execute (Schedule.start placement.graph executor)
  | step {schedule : Schedule σ} (hreached : Reached placement execute schedule) :
      Reached placement execute (after (step placement execute) schedule)
  | run {schedule : Schedule σ} (hreached : Reached placement execute schedule) :
      Reached placement execute (after (run placement execute) schedule)

theorem Reached.exists_stepMany (hreached : Reached placement execute schedule) :
    ∃ executor count,
      schedule = stepMany placement execute count (Schedule.start placement.graph executor) := by
  induction hreached with
  | start executor => exact ⟨executor, 0, rfl⟩
  | step hreached induction =>
      obtain ⟨executor, count, rfl⟩ := induction
      exact ⟨executor, count + 1, rfl⟩
  | run hreached induction =>
      obtain ⟨executor, hschedule⟩ := induction
      exact ⟨executor, (keeps_runFrom (keeps_stepMany _) 0).after hschedule⟩

theorem Reached.accounts (hplacement : placement.Reachable)
    (hids : placement.graph.ids.next ≤ largestId) (hreached : Reached placement execute schedule) :
    ∃ executor count,
      schedule = stepMany placement execute count (Schedule.start placement.graph executor) ∧
        Accounts placement.graph []
          (lostIn placement execute count (Schedule.start placement.graph executor)) schedule := by
  obtain ⟨executor, count, rfl⟩ := hreached.exists_stepMany
  refine ⟨executor, count, rfl, ?_⟩
  exact (accounts_start placement.graph executor).stepMany (hplacement.agrees.wellFormed hids) count

/-- Whatever the executor answers and whichever calls fail: a task is dormant as long as a producer
of one of its inputs has not fired, and it awaits as many inputs as come from such producers; the
tasks that have fired are listed once each, every one after all its producers. -/
theorem Reached.fanIn_exact (hplacement : placement.Reachable)
    (hids : placement.graph.ids.next ≤ largestId) (hreached : Reached placement execute schedule) :
    (∀ task, placement.graph.hasBlock task = true →
      (schedule.state? task = some .dormant ↔
        ∃ edge ∈ placement.graph.inputEdges task, edge.src.task ∉ schedule.fired) ∧
      schedule.awaited[task]? = some ((placement.graph.inputEdges task).countP
        fun edge => decide (edge.src.task ∉ schedule.fired))) ∧
    (∀ task, task ∈ schedule.fired ↔ schedule.state? task = some .fired) ∧
    schedule.fired.Nodup ∧
    ∀ before task later, schedule.fired = before ++ task :: later →
      ∀ edge ∈ placement.graph.inputEdges task, edge.src.task ∈ before := by
  obtain ⟨executor, count, -, haccounts⟩ := hreached.accounts hplacement hids
  refine ⟨fun task hknown => ?_, fun task => haccounts.fired_iff, haccounts.fired_nodup,
    haccounts.ordered⟩
  obtain ⟨block, hblock⟩ := Option.isSome_iff_exists.mp
    ((Std.ExtTreeMap.contains_eq_isSome_getElem?).symm.trans hknown)
  change placement.graph.block? task = some block at hblock
  refine ⟨haccounts.dormant_iff hblock, ?_⟩
  rw [haccounts.awaited, hblock, Option.map_some]
  rfl

/-- Two inputs and the computation that multiplies them, placed on a chip with two cores. -/
def multipliedInputs : Placement :=
  (Placement.onHardware ((TaskGraph.empty 0).runAll [
    .addStorage ⟨.input, .vector 4, .int8⟩,
    .addStorage ⟨.input, .vector 4, .int8⟩,
    .addComputation ⟨.vectorProduct 0, .vector 4, .int8, .absent⟩,
    .connectWhole ⟨0⟩ ⟨2⟩ 0,
    .connectWhole ⟨1⟩ ⟨2⟩ 1]) (.singleChip 1 2)).runAll [
    .putIn (.atTime ⟨[⟨[0, 0]⟩, ⟨[0, 0]⟩]⟩ 0 0 .memory) ⟨0⟩,
    .putIn (.atTime ⟨[⟨[0, 0]⟩, ⟨[0, 1]⟩]⟩ 0 0 .memory) ⟨1⟩,
    .putIn (.atTime ⟨[⟨[0, 0]⟩, ⟨[0, 1]⟩]⟩ 0 0 .axon) ⟨2⟩]

theorem reachable_multipliedInputs : multipliedInputs.Reachable :=
  ⟨_, _, .onHardware (TaskGraph.Reachable.runAll (.empty (Nat.zero_le _))
    (by simp [TaskGraph.Command.Admits]) (by decide +kernel)) _, rfl⟩

/-- When the first input has fired the product awaits the second one. -/
theorem Reached.fanIn_exact_multipliedInputs :
    ∃ schedule, Reached multipliedInputs Executor.pipeline schedule ∧ schedule.fired = [⟨0⟩] ∧
      schedule.state? ⟨2⟩ = some .dormant ∧ schedule.awaited[(⟨2⟩ : TaskId)]? = some 1 := by
  have hreached : Reached multipliedInputs Executor.pipeline _ := .step (.start ∅)
  obtain ⟨htasks, -⟩ := hreached.fanIn_exact reachable_multipliedInputs (by decide +kernel)
  obtain ⟨hdormant, hawaited⟩ := htasks ⟨2⟩ (by decide +kernel)
  refine ⟨_, hreached, by decide +kernel, ?_, hawaited.trans (by decide +kernel)⟩
  rw [hdormant, ← TaskGraph.outstanding_pos_iff]
  decide +kernel

theorem lost?_eq_none_iff :
    schedule.lost? placement execute = none ↔ fails (step placement execute) schedule = false := by
  have hstepped := stepped placement execute schedule
  unfold lost? fails
  generalize step placement execute schedule = result at hstepped
  cases hstepped with
  | idle hqueue => simp
  | fired hqueue executor => simp
  | requeued hqueue executor => simp
  | failed hqueue error executor => simp [hqueue]

theorem lostIn_eq_nil_iff {count : Nat} :
    lostIn placement execute count schedule = [] ↔
      ∀ index < count,
        fails (step placement execute) (stepMany placement execute index schedule) = false := by
  induction count with
  | zero => simp [lostIn]
  | succ count induction =>
      rw [lostIn, List.append_eq_nil_iff, Option.toList_eq_nil_iff, lost?_eq_none_iff, induction]
      constructor
      · intro hboth index hindex
        rcases Nat.lt_succ_iff_lt_or_eq.mp hindex with hless | rfl
        · exact hboth.2 index hless
        · exact hboth.1
      · intro hnever
        exact ⟨hnever count (Nat.lt_succ_self count),
          fun index hindex => hnever index (Nat.lt_succ_of_lt hindex)⟩

/-- The activated tasks as the graph lists them are those in the queue and those lost. -/
theorem Accounts.length_activated {lost : List TaskId}
    (haccounts : Accounts placement.graph [] lost schedule) :
    (placement.graph.taskIds.filter fun task =>
      decide (schedule.state? task = some .activated)).length = schedule.pending + lost.length := by
  rw [pending, ← List.length_append]
  apply List.Perm.length_eq
  apply (List.perm_ext_iff_of_nodup (placement.graph.nodup_taskIds.filter _)
    haccounts.nodup).mpr
  intro task
  rw [List.mem_filter, decide_eq_true_eq, List.mem_append, ← haccounts.activated,
    TaskGraph.mem_taskIds_iff]
  exact and_iff_right_of_imp haccounts.known

/-- The calls have made some steps, and the tasks whose attempts failed in them are the activated
ones that are not queued. So the queue holds exactly the activated tasks if and only if no step has
failed, and otherwise one task less for each that has. -/
theorem Reached.activated_iff_queued_or_lost (hplacement : placement.Reachable)
    (hids : placement.graph.ids.next ≤ largestId) (hreached : Reached placement execute schedule) :
    ∃ executor count,
      schedule = stepMany placement execute count (Schedule.start placement.graph executor) ∧
      (schedule.queue ++
        lostIn placement execute count (Schedule.start placement.graph executor)).Nodup ∧
      (∀ task, schedule.state? task = some .activated ↔ task ∈ schedule.queue ∨
        task ∈ lostIn placement execute count (Schedule.start placement.graph executor)) ∧
      (placement.graph.taskIds.filter fun task =>
          decide (schedule.state? task = some .activated)).length =
        schedule.pending +
          (lostIn placement execute count (Schedule.start placement.graph executor)).length ∧
      ((∀ task, schedule.state? task = some .activated ↔ task ∈ schedule.queue) ↔
        ∀ index < count, fails (Schedule.step placement execute)
          (stepMany placement execute index (Schedule.start placement.graph executor)) =
            false) := by
  obtain ⟨executor, count, hschedule, haccounts⟩ := hreached.accounts hplacement hids
  refine ⟨executor, count, hschedule, haccounts.nodup, haccounts.activated,
    haccounts.length_activated, ?_⟩
  rw [← lostIn_eq_nil_iff]
  constructor
  · intro hqueue
    apply List.eq_nil_iff_forall_not_mem.mpr
    intro task hlost
    have hqueued := (hqueue task).mp ((haccounts.activated task).mpr (Or.inr hlost))
    exact (List.nodup_append.mp haccounts.nodup).2.2 task hqueued task hlost rfl
  · intro hnone task
    rw [haccounts.activated, hnone]
    simp

/-- An input that is not placed anywhere. -/
def unplacedInput : Placement :=
  .onHardware ((TaskGraph.empty 0).runAll [.addStorage ⟨.input, .vector 4, .int8⟩])
    (.singleChip 1 1)

theorem reachable_unplacedInput : unplacedInput.Reachable :=
  ⟨_, [], .onHardware (TaskGraph.Reachable.runAll (.empty (Nat.zero_le _))
    (by simp [TaskGraph.Command.Admits]) (by decide +kernel)) _, rfl⟩

theorem Reached.activated_iff_queued_or_lost_unplacedInput :
    ∃ schedule, Reached unplacedInput Executor.pipeline schedule ∧ schedule.pending = 0 ∧
      ∃ executor count,
        schedule = stepMany unplacedInput Executor.pipeline count
          (Schedule.start unplacedInput.graph executor) ∧
        (lostIn unplacedInput Executor.pipeline count
          (Schedule.start unplacedInput.graph executor)).length = 1 := by
  have hreached : Reached unplacedInput Executor.pipeline _ := .step (.start ∅)
  obtain ⟨executor, count, hschedule, -, -, hlength, -⟩ :=
    hreached.activated_iff_queued_or_lost reachable_unplacedInput (by decide +kernel)
  have hpending : (after (Schedule.step unplacedInput Executor.pipeline)
      (Schedule.start unplacedInput.graph ∅)).pending = 0 := by decide +kernel
  rw [hpending, Nat.zero_add] at hlength
  exact ⟨_, hreached, hpending, executor, count, hschedule, hlength.symm.trans (by decide +kernel)⟩

/-- The attempt at a task without a place fails; then the task is activated and nothing is queued,
and the next run succeeds without it. -/
theorem failed_attempt_unqueues :
    unplacedInput.Reachable ∧ ∃ schedule, Reached unplacedInput Executor.pipeline schedule ∧
      schedule.state? ⟨0⟩ = some .activated ∧ schedule.queue = [] ∧
        run unplacedInput Executor.pipeline schedule = .ok [] schedule := by
  refine ⟨reachable_unplacedInput, _, .step (.start ∅), by decide +kernel, by decide +kernel, ?_⟩
  rw [run, runFrom_eq]
  rfl

end Run

end Schedule

end TiledPlacement
