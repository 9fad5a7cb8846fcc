import TiledPlacement.Proofs.Cycle
import TiledPlacement.Proofs.Schedule.Attempts

/-!
Schedules that run the units of each point in pipeline order. A task then waits for the producers of
its inputs and for the earlier units of its point. What fires is what does not wait, directly or
not, for a cycle; what is left over shows in the result as a deadlock if any of it is activated.
-/

namespace TiledPlacement

namespace Placement

def Feeds (placement : Placement) (producer consumer : TaskId) : Prop :=
  ∃ id edge, placement.graph.edge? id = some edge ∧ edge.src.task = producer ∧
    edge.dst.task = consumer

/-- The second task sits in a computing unit of a point in which the first occupies an earlier
unit. -/
def RunsBefore (placement : Placement) (first second : TaskId) : Prop :=
  ∃ cell unit earlier, unit ∈ [FunctionalUnit.axon, .soma1, .soma2] ∧
    placement.grid.Sits cell unit second ∧ earlier.index < unit.index ∧
      placement.grid.Sits cell earlier first

def Precedes (placement : Placement) (first second : TaskId) : Prop :=
  placement.Feeds first second ∨ placement.RunsBefore first second

/-- Every block of the graph is placed, and nothing else is. -/
structure Complete (placement : Placement) : Prop where
  agrees : placement.Agrees
  wellFormed : placement.graph.WellFormed
  placed : ∀ {task block}, placement.graph.block? task = some block →
    ∃ place, placement.coordinate? task = some place
  known : ∀ {task place}, placement.coordinate? task = some place →
    ∃ block, placement.graph.block? task = some block

theorem Reachable.complete {placement : Placement} (hplacement : placement.Reachable)
    (hids : placement.graph.ids.next ≤ largestId)
    (hplaced : ∀ task, placement.graph.hasBlock task = true ↔ placement.isPlaced task = true) :
    placement.Complete := by
  have hiff : ∀ task, (∃ block, placement.graph.block? task = some block) ↔
      ∃ place, placement.coordinate? task = some place := by
    intro task
    have htask := hplaced task
    simp only [TaskGraph.hasBlock, isPlaced, Std.ExtTreeMap.contains_eq_isSome_getElem?,
      Option.isSome_iff_exists] at htask
    exact htask
  refine ⟨hplacement.agrees, hplacement.agrees.wellFormed hids, ?_, ?_⟩
  · exact fun hblock => (hiff _).mp ⟨_, hblock⟩
  · exact fun hplace => (hiff _).mpr ⟨_, hplace⟩

/-- A cycle of tasks that wait for one another holds the task up. -/
def HeldUp (placement : Placement) (task : TaskId) : Prop :=
  ∃ origin, Relation.TransGen placement.Precedes origin origin ∧
    Relation.ReflTransGen placement.Precedes origin task

end Placement

/-- Where all that is related to an entry comes before it, the relation leads nowhere endlessly. -/
theorem EachAfter.acc {relation : α → α → Prop} {list : List α}
    (hlist : EachAfter (fun before item => ∀ other, relation other item → other ∈ before) list) :
    ∀ item ∈ list, Acc relation item := by
  have hprefix : ∀ before after, list = before ++ after → ∀ item ∈ before, Acc relation item := by
    intro before
    induction before using List.reverseRecOn with
    | nil => exact fun _ _ item hitem => absurd hitem List.not_mem_nil
    | append_singleton before last induction =>
        intro after hsplit item hitem
        rw [List.append_assoc, List.singleton_append] at hsplit
        have hbefore := induction (last :: after) hsplit
        rcases List.mem_append.mp hitem with hearlier | hlast
        · exact hbefore item hearlier
        · rw [List.mem_singleton.mp hlast]
          exact Acc.intro last fun other hrelated =>
            hbefore other (hlist before last after hsplit other hrelated)
  exact hprefix list [] (List.append_nil list).symm

namespace FunctionalUnit

theorem waits_iff {unit earlier : FunctionalUnit} :
    (unit.isRouter = false ∧ earlier ∈ unit.earlier) ↔
      unit ∈ [FunctionalUnit.axon, .soma1, .soma2] ∧ earlier.index < unit.index := by
  cases unit <;> cases earlier <;> decide

theorem isSlot_of_earlier {unit earlier : FunctionalUnit} (hearlier : earlier ∈ unit.earlier) :
    earlier.isSlot = true := by
  revert hearlier
  cases unit <;> cases earlier <;> decide

end FunctionalUnit

namespace Executor

theorem isBlocked_iff {executed : TaskSet} {point : Point} {unit : FunctionalUnit} :
    isBlocked executed point unit = true ↔ ∃ earlier ∈ unit.earlier, ∃ other,
      point.holds earlier other = true ∧ other ∉ executed := by
  simp only [isBlocked, List.any_eq_true, Option.any_eq_true, Bool.not_eq_true_eq_eq_false,
    ← Bool.not_eq_true, Std.ExtTreeSet.contains_iff_mem]
  constructor
  · intro hblocked
    obtain ⟨earlier, hearlier, other, hoccupant, hunexecuted⟩ := hblocked
    have hslot := FunctionalUnit.isSlot_of_earlier hearlier
    exact ⟨earlier, hearlier, other, (Point.holds_slot hslot other).mpr hoccupant, hunexecuted⟩
  · intro hblocked
    obtain ⟨earlier, hearlier, other, hholds, hunexecuted⟩ := hblocked
    have hslot := FunctionalUnit.isSlot_of_earlier hearlier
    exact ⟨earlier, hearlier, other, (Point.holds_slot hslot other).mp hholds, hunexecuted⟩

variable {placement : Placement} {task : TaskId} {place : Coordinate}

theorem locate_placed {grid : Grid} {cell : Cell} {unit : FunctionalUnit} {point : Point}
    (hresolve : grid.resolve place = .ok (some (.unit cell unit)))
    (hpoint : grid.pointAt? cell = some point) (hholds : point.holds unit task = true) :
    locate grid place task = .ok (point, unit) := by
  have hunit := (Grid.resolve_eq_unit_iff.mp hresolve).2.1
  unfold locate
  rw [hunit, Grid.point?_of_resolve hresolve, hpoint]
  simp only [bind, Except.bind, hholds, if_true]
  rfl

/-- A placed task is busy as long as an earlier unit of its point holds a task that has not been
executed; the request never fails. -/
theorem pipeline_placed (hagrees : placement.Agrees)
    (hplaced : placement.coordinate? task = some place) (executed : TaskSet) :
    ((∃ other, placement.RunsBefore other task ∧ other ∉ executed) ∧
        pipeline placement.grid place task executed = .ok .busy executed) ∨
      ((∀ other, placement.RunsBefore other task → other ∈ executed) ∧
        pipeline placement.grid place task executed = .ok .done (executed.insert task)) := by
  obtain ⟨cell, unit, hresolve, hsits⟩ := hagrees.located hplaced
  obtain ⟨point, hpoint, hholds⟩ := hsits
  have hlocate := locate_placed hresolve hpoint hholds
  have hbefore : ∀ other, placement.RunsBefore other task ↔
      unit.isRouter = false ∧ ∃ earlier ∈ unit.earlier, point.holds earlier other = true := by
    intro other
    constructor
    · intro hruns
      obtain ⟨otherCell, otherUnit, earlier, hcomputes, hotherSits, hless, hoccupies⟩ := hruns
      obtain ⟨rfl, rfl⟩ := hagrees.sits_unique ⟨point, hpoint, hholds⟩ hotherSits
      obtain ⟨found, hfound, hearlier⟩ := hoccupies
      obtain rfl := Option.some.inj (hpoint.symm.trans hfound)
      obtain ⟨hrouter, hmember⟩ := FunctionalUnit.waits_iff.mpr ⟨hcomputes, hless⟩
      exact ⟨hrouter, earlier, hmember, hearlier⟩
    · intro hboth
      obtain ⟨hrouter, earlier, hmember, hearlier⟩ := hboth
      obtain ⟨hcomputes, hless⟩ := FunctionalUnit.waits_iff.mp ⟨hrouter, hmember⟩
      exact ⟨cell, unit, earlier, hcomputes, ⟨point, hpoint, hholds⟩, hless,
        point, hpoint, hearlier⟩
  have hrun : pipeline placement.grid place task executed =
      if isBlocked executed point unit && !unit.isRouter then .ok .busy executed
      else .ok .done (executed.insert task) := by
    unfold pipeline
    rw [hlocate]
    change (if isBlocked executed point unit && !unit.isRouter then pure .busy
      else do
        modify (·.insert task)
        return .done : EStateM PlacementError TaskSet Progress) executed = _
    split <;> rfl
  rw [hrun]
  split
  case isTrue hbusy =>
    rw [Bool.and_eq_true, Bool.not_eq_true', isBlocked_iff] at hbusy
    obtain ⟨⟨earlier, hmember, other, hearlier, hunexecuted⟩, hrouter⟩ := hbusy
    exact Or.inl ⟨⟨other, (hbefore other).mpr ⟨hrouter, earlier, hmember, hearlier⟩, hunexecuted⟩,
      rfl⟩
  case isFalse hfree =>
    refine Or.inr ⟨fun other hruns => ?_, rfl⟩
    obtain ⟨hrouter, earlier, hmember, hearlier⟩ := (hbefore other).mp hruns
    by_contra hunexecuted
    apply hfree
    rw [Bool.and_eq_true, Bool.not_eq_true', isBlocked_iff]
    exact ⟨⟨earlier, hmember, other, hearlier, hunexecuted⟩, hrouter⟩

end Executor

namespace Schedule

variable {placement : Placement} {schedule : Schedule TaskSet} {task : TaskId} {rest : List TaskId}

/-- An earlier unit of the task's point holds a task that has not fired. -/
def Blocked (placement : Placement) (schedule : Schedule TaskSet) (task : TaskId) : Prop :=
  ∃ other, placement.RunsBefore other task ∧ other ∉ schedule.fired

/-- What has fired is what has been executed, each task after all earlier units of its point. -/
structure Pipelined (placement : Placement) (schedule : Schedule TaskSet) : Prop where
  accounts : Accounts placement.graph [] [] schedule
  executed : ∀ task, task ∈ schedule.executor ↔ task ∈ schedule.fired
  ordered : EachAfter (fun before task => ∀ other, placement.RunsBefore other task →
    other ∈ before) schedule.fired

theorem pipelined_start (placement : Placement) :
    Pipelined placement (start placement.graph ∅) where
  accounts := accounts_start placement.graph ∅
  executed := by simp [start]
  ordered := eachAfter_nil _

theorem Pipelined.requeue (hpipelined : Pipelined placement schedule)
    (hqueue : schedule.queue = task :: rest) :
    Pipelined placement { schedule with queue := rest ++ [task] } where
  accounts := hpipelined.accounts.requeue hqueue schedule.executor
  executed := hpipelined.executed
  ordered := hpipelined.ordered

theorem Pipelined.fire (hgraph : placement.graph.WellFormed)
    (hpipelined : Pipelined placement schedule) (hqueue : schedule.queue = task :: rest)
    (hbefore : ∀ other, placement.RunsBefore other task → other ∈ schedule.fired) :
    Pipelined placement
      (({ schedule with
          queue := rest
          executor := schedule.executor.insert task } : Schedule TaskSet).fire
        placement.graph task) where
  accounts := hpipelined.accounts.fire hgraph hqueue _
  executed := by
    intro other
    rw [executor_fire, fired_fire, Std.ExtTreeSet.mem_insert, Std.LawfulEqCmp.compare_eq_iff_eq,
      List.mem_append, List.mem_singleton, hpipelined.executed, eq_comm, or_comm]
  ordered := by
    rw [fired_fire]
    exact hpipelined.ordered.concat hbefore

/-- The head of the queue goes back if it is blocked and fires if it is not. -/
theorem Pipelined.step (hcomplete : placement.Complete) (hpipelined : Pipelined placement schedule)
    (hqueue : schedule.queue = task :: rest) :
    (Blocked placement schedule task ∧
        Schedule.step placement Executor.pipeline schedule =
          .ok (.requeued task) { schedule with queue := rest ++ [task] }) ∨
      ∃ next, Schedule.step placement Executor.pipeline schedule = .ok (.fired task) next ∧
        Pipelined placement next := by
  have hactivated := (hpipelined.accounts.activated task).mpr
    (Or.inl (hqueue ▸ List.mem_cons_self))
  obtain ⟨block, hblock⟩ := hpipelined.accounts.known hactivated
  obtain ⟨place, hplace⟩ := hcomplete.placed hblock
  unfold Schedule.step
  simp only [hqueue, hplace]
  rcases Executor.pipeline_placed hcomplete.agrees hplace schedule.executor with
    ⟨⟨other, hruns, hunexecuted⟩, hbusy⟩ | ⟨hbefore, hdone⟩
  · rw [hpipelined.executed] at hunexecuted
    exact Or.inl ⟨⟨other, hruns, hunexecuted⟩, by simp only [hbusy]⟩
  · refine Or.inr ⟨_, by simp only [hdone],
      hpipelined.fire hcomplete.wellFormed hqueue fun other hruns => ?_⟩
    exact (hpipelined.executed other).mp (hbefore other hruns)

/-- The last `retries` tasks of the queue have been tried in vain since a task fired. -/
structure Retried (placement : Placement) (retries : Nat) (schedule : Schedule TaskSet) : Prop where
  pipelined : Pipelined placement schedule
  tried : ∃ untried tried, schedule.queue = untried ++ tried ∧ tried.length = retries ∧
    (untried = [] → tried = []) ∧ ∀ task ∈ tried, Blocked placement schedule task

theorem Pipelined.retried (hpipelined : Pipelined placement schedule) :
    Retried placement 0 schedule :=
  ⟨hpipelined, schedule.queue, [], by simp⟩

/-- What the next step does when the last `retries` steps were in vain. -/
inductive Attempted (placement : Placement) (retries : Nat) :
    EStateM.Result PlacementError (Schedule TaskSet) StepOutcome → Prop
  | idle {last : Schedule TaskSet} (hpipelined : Pipelined placement last)
      (hqueue : last.queue = []) : Attempted placement retries (.ok .idle last)
  | fired {task : TaskId} {next : Schedule TaskSet} (hpipelined : Pipelined placement next) :
      Attempted placement retries (.ok (.fired task) next)
  | requeued {task : TaskId} {next : Schedule TaskSet} {untried tried : List TaskId}
      (hpipelined : Pipelined placement next) (hsplit : next.queue = untried ++ tried)
      (hlength : tried.length = retries + 1)
      (hblocked : ∀ task ∈ tried, Blocked placement next task) :
      Attempted placement retries (.ok (.requeued task) next)

theorem Retried.attempted {retries : Nat} (hcomplete : placement.Complete)
    (hretried : Retried placement retries schedule) :
    Attempted placement retries (Schedule.step placement Executor.pipeline schedule) := by
  cases hqueue : schedule.queue with
  | nil =>
      unfold Schedule.step
      simp only [hqueue]
      exact .idle hretried.pipelined hqueue
  | cons task rest =>
      rcases hretried.pipelined.step hcomplete hqueue with ⟨hblocked, hstep⟩ | ⟨next, hstep, hnext⟩
      · obtain ⟨untried, tried, hsplit, hlength, hnone, htried⟩ := hretried.tried
        rw [hstep]
        cases untried with
        -- The head has not been tried since a task fired, or else the run would have stopped.
        | nil =>
            rw [hnone rfl, hqueue] at hsplit
            cases hsplit
        | cons first untried =>
            rw [hqueue, List.cons_append, List.cons.injEq] at hsplit
            obtain ⟨rfl, rfl⟩ := hsplit
            refine .requeued (hretried.pipelined.requeue hqueue) (List.append_assoc _ tried _) ?_ ?_
            · rw [List.length_append, hlength, List.length_singleton]
            · intro other hother
              rcases List.mem_append.mp hother with hbefore | hlast
              · exact htried other hbefore
              · rw [List.mem_singleton.mp hlast]
                exact hblocked
      · rw [hstep]
        exact .fired hnext

/-- How a run in pipeline order ends. -/
inductive Ended (placement : Placement) :
    EStateM.Result PlacementError (Schedule TaskSet) (List TaskId) → Prop
  | drained {last : Schedule TaskSet} (hpipelined : Pipelined placement last)
      (hqueue : last.queue = []) : Ended placement (.ok last.fired last)
  | deadlocked {last : Schedule TaskSet} (hpipelined : Pipelined placement last)
      (hqueue : last.queue ≠ []) (hblocked : ∀ task ∈ last.queue, Blocked placement last task) :
      Ended placement (.error (.deadlock last.pending) last)

theorem Retried.ended (hcomplete : placement.Complete) {retries : Nat}
    (hretried : Retried placement retries schedule) :
    Ended placement (runFrom placement Executor.pipeline schedule retries) := by
  induction schedule, retries using runFrom.induct placement Executor.pipeline with
  | case1 schedule retries error next hstep =>
      have hattempted := hretried.attempted hcomplete
      rw [hstep] at hattempted
      cases hattempted
  | case2 schedule retries next hstep =>
      have hattempted := hretried.attempted hcomplete
      simp only [runFrom_eq schedule, hstep] at hattempted ⊢
      cases hattempted with
      | idle hpipelined hqueue => exact .drained hpipelined hqueue
  | case3 schedule retries task next hstep hless induction =>
      have hattempted := hretried.attempted hcomplete
      simp only [runFrom_eq schedule, hstep] at hattempted ⊢
      cases hattempted with
      | fired hpipelined => exact induction hpipelined.retried
  | case4 schedule retries task next hstep hsame hall =>
      have hattempted := hretried.attempted hcomplete
      simp only [runFrom_eq schedule, hstep, if_pos hall] at hattempted ⊢
      cases hattempted with
      | requeued hpipelined hsplit hlength hblocked =>
          rename_i untried tried
          rw [pending, hsplit, List.length_append] at hall
          have hnone : untried = [] := List.eq_nil_of_length_eq_zero (by omega)
          rw [hnone, List.nil_append] at hsplit
          refine .deadlocked hpipelined ?_ (hsplit ▸ hblocked)
          rw [hsplit]
          exact List.ne_nil_of_length_eq_add_one hlength
  | case5 schedule retries task next hstep hsame hmore induction =>
      have hattempted := hretried.attempted hcomplete
      simp only [runFrom_eq schedule, hstep, if_neg hmore] at hattempted ⊢
      cases hattempted with
      | requeued hpipelined hsplit hlength hblocked =>
          rename_i untried tried
          refine induction ⟨hpipelined, untried, tried, hsplit, hlength, ?_, hblocked⟩
          intro hnone
          rw [pending, hsplit, hnone, List.nil_append] at hmore
          omega

/-! What a run leaves behind: nothing more can fire. -/

/-- Nothing in the queue can run. -/
structure Settled (placement : Placement) (last : Schedule TaskSet) : Prop where
  pipelined : Pipelined placement last
  blocked : ∀ task ∈ last.queue, Blocked placement last task

theorem exists_settled (hcomplete : placement.Complete) :
    ∃ last, Settled placement last ∧ run placement Executor.pipeline (start placement.graph ∅) =
      if last.queue = [] then .ok last.fired last else .error (.deadlock last.pending) last := by
  have hended := (pipelined_start placement).retried.ended hcomplete
  unfold run
  generalize runFrom placement Executor.pipeline (start placement.graph ∅) 0 = result at hended
  cases hended with
  | drained hpipelined hqueue =>
      rename_i last
      refine ⟨last, ⟨hpipelined, ?_⟩, (if_pos hqueue).symm⟩
      rw [hqueue]
      exact List.forall_mem_nil _
  | deadlocked hpipelined hqueue hblocked =>
      rename_i last
      exact ⟨last, ⟨hpipelined, hblocked⟩, (if_neg hqueue).symm⟩

theorem Pipelined.each_after (hgraph : placement.graph.WellFormed)
    (hpipelined : Pipelined placement schedule) :
    EachAfter (fun before task => ∀ other, placement.Precedes other task → other ∈ before)
      schedule.fired := by
  intro before task after hsplit other hprecedes
  rcases hprecedes with hfeeds | hruns
  · obtain ⟨id, edge, hedge, rfl, hconsumer⟩ := hfeeds
    apply hpipelined.accounts.ordered before task after hsplit edge
    rw [hgraph.mem_inputEdges_iff, hgraph.edge_id hedge]
    exact ⟨hedge, hconsumer⟩
  · exact hpipelined.ordered before task after hsplit other hruns

/-- Where nothing more can fire, a task that has not fired waits for another that has not. -/
theorem Settled.exists_unfired (hcomplete : placement.Complete)
    (hsettled : Settled placement schedule) {block : Block}
    (hblock : placement.graph.block? task = some block) (hunfired : task ∉ schedule.fired) :
    ∃ other, placement.Precedes other task ∧ other ∉ schedule.fired ∧
      ∃ block, placement.graph.block? other = some block := by
  have haccounts := hsettled.pipelined.accounts
  have hgraph := hcomplete.wellFormed
  by_cases hready : ∀ edge ∈ placement.graph.inputEdges task, edge.src.task ∈ schedule.fired
  · have hactivated : schedule.state? task = some .activated := by
      rw [haccounts.state_eq, hblock, TaskGraph.outstanding_eq_zero_iff.mpr hready]
      simp [stateAt, hunfired]
    have hqueued : task ∈ schedule.queue := by
      simpa using (haccounts.activated task).mp hactivated
    obtain ⟨other, hruns, hother⟩ := hsettled.blocked task hqueued
    refine ⟨other, Or.inr hruns, hother, ?_⟩
    obtain ⟨cell, unit, earlier, -, -, -, hsits⟩ := hruns
    obtain ⟨place, hplace, -⟩ := hcomplete.agrees.recorded hsits
    exact hcomplete.known hplace
  · push Not at hready
    obtain ⟨edge, hinput, hproducer⟩ := hready
    obtain ⟨hedge, hconsumer⟩ := hgraph.mem_inputEdges_iff.mp hinput
    exact ⟨edge.src.task, Or.inl ⟨edge.id, edge, hedge, rfl, hconsumer⟩, hproducer,
      hgraph.end_known hedge .output⟩

/-- The tasks that have fired are those that no cycle holds up. -/
theorem Settled.fired_iff (hcomplete : placement.Complete)
    (hsettled : Settled placement schedule) :
    task ∈ schedule.fired ↔
      placement.graph.hasBlock task = true ∧ ¬placement.HeldUp task := by
  rw [TaskGraph.hasBlock, Std.ExtTreeMap.contains_eq_isSome_getElem?, Option.isSome_iff_exists]
  change _ ↔ (∃ block, placement.graph.block? task = some block) ∧ _
  constructor
  · intro hfired
    have hacc := (hsettled.pipelined.each_after hcomplete.wellFormed).acc task hfired
    exact ⟨hsettled.pipelined.accounts.fired_known task hfired, not_followsCycle_of_acc hacc⟩
  · intro hboth
    obtain ⟨⟨block, hblock⟩, hfree⟩ := hboth
    by_contra hunfired
    apply hfree
    -- What has not fired waits for more that has not fired, and so on without end.
    apply followsCycle_of_waiting (fun task => task ∉ schedule.fired ∧
      ∃ block, placement.graph.block? task = some block) _ _ ⟨hunfired, block, hblock⟩
    · apply placement.graph.taskIds.finite_toSet.subset
      intro other hother
      exact TaskGraph.mem_taskIds_iff.mpr hother.2
    · intro other hother
      obtain ⟨hlate, otherBlock, hknown⟩ := hother
      exact hsettled.exists_unfired hcomplete hknown hlate

/-- Blocks that have not fired although all their producers have. -/
def stuck (graph : TaskGraph) (fired : List TaskId) : List TaskId :=
  graph.taskIds.filter fun task =>
    decide (task ∉ fired ∧ ∀ edge ∈ graph.inputEdges task, edge.src.task ∈ fired)

theorem Accounts.stuck_eq {graph : TaskGraph} {lost : List TaskId} {schedule : Schedule σ}
    (haccounts : Accounts graph [] lost schedule) :
    stuck graph schedule.fired = graph.taskIds.filter fun task =>
      decide (schedule.state? task = some .activated) := by
  apply List.filter_congr
  intro task hmember
  obtain ⟨block, hblock⟩ := TaskGraph.mem_taskIds_iff.mp hmember
  rw [decide_eq_decide]
  refine ⟨fun hready => ?_, haccounts.ready⟩
  rw [haccounts.state_eq, hblock, TaskGraph.outstanding_eq_zero_iff.mpr hready.2]
  simp [stateAt, hready.1]

theorem Accounts.length_stuck (haccounts : Accounts placement.graph [] [] schedule) :
    (stuck placement.graph schedule.fired).length = schedule.pending := by
  rw [haccounts.stuck_eq, haccounts.length_activated]
  rfl

/-- A run in pipeline order from the start ends. Exactly the blocks that no cycle holds up fire,
each after everything that precedes it; the run succeeds with them in this order if no other task
has all its producers fired, and otherwise it reports how many such tasks there are. -/
theorem run_pipeline (hplacement : placement.Reachable)
    (hids : placement.graph.ids.next ≤ largestId)
    (hplaced : ∀ task, placement.graph.hasBlock task = true ↔ placement.isPlaced task = true) :
    ∃ last : Schedule TaskSet,
      (∀ task, task ∈ last.fired ↔
        placement.graph.hasBlock task = true ∧ ¬placement.HeldUp task) ∧
      last.fired.Nodup ∧
      EachAfter (fun before task => ∀ other, placement.Precedes other task → other ∈ before)
        last.fired ∧
      run placement Executor.pipeline (start placement.graph ∅) =
        if stuck placement.graph last.fired = [] then .ok last.fired last
        else .error (.deadlock (stuck placement.graph last.fired).length) last := by
  have hcomplete := hplacement.complete hids hplaced
  obtain ⟨last, hsettled, hrun⟩ := exists_settled hcomplete
  have haccounts := hsettled.pipelined.accounts
  refine ⟨last, fun task => hsettled.fired_iff hcomplete, haccounts.fired_nodup,
    hsettled.pipelined.each_after hcomplete.wellFormed, ?_⟩
  rw [hrun, haccounts.length_stuck]
  congr 1
  rw [← List.length_eq_zero_iff, ← List.length_eq_zero_iff, haccounts.length_stuck, pending]

/-- An input and three computations that it feeds, two of them through one another, against the
pipeline order of the point in which both are. -/
def crossed : Placement :=
  (Placement.onHardware ((TaskGraph.empty 0).runAll [
    .addStorage ⟨.input, .vector 4, .int8⟩,
    .addComputation ⟨.vectorShift 0, .vector 4, .int8, .absent⟩,
    .addComputation ⟨.vectorShift 0, .vector 4, .int8, .absent⟩,
    .addComputation ⟨.vectorShift 0, .vector 4, .int8, .absent⟩,
    .connectWhole ⟨0⟩ ⟨1⟩ 0,
    .connectWhole ⟨1⟩ ⟨2⟩ 0,
    .connectWhole ⟨0⟩ ⟨3⟩ 0]) (.singleChip 1 1)).runAll [
    .putIn (.atTime ⟨[⟨[0, 0]⟩, ⟨[0, 0]⟩]⟩ 0 0 .memory) ⟨0⟩,
    .putIn (.atTime ⟨[⟨[0, 0]⟩, ⟨[0, 0]⟩]⟩ 0 0 .soma2) ⟨1⟩,
    .putIn (.atTime ⟨[⟨[0, 0]⟩, ⟨[0, 0]⟩]⟩ 0 0 .soma1) ⟨2⟩,
    .putIn (.atTime ⟨[⟨[0, 0]⟩, ⟨[0, 0]⟩]⟩ 0 1 .soma1) ⟨3⟩]

theorem reachable_crossed : crossed.Reachable :=
  ⟨_, _, .onHardware (TaskGraph.Reachable.runAll (.empty (Nat.zero_le _))
    (by simp [TaskGraph.Command.Admits]) (by decide +kernel)) _, rfl⟩

theorem run_crossed :
    run crossed Executor.pipeline (start crossed.graph ∅) = .error (.deadlock 1)
      (stepMany crossed Executor.pipeline 4 (start crossed.graph ∅)) := by
  have hinput : step crossed Executor.pipeline (start crossed.graph ∅) =
    .ok (.fired ⟨0⟩) (stepMany crossed Executor.pipeline 1 (start crossed.graph ∅)) := rfl
  have hbusy : step crossed Executor.pipeline
      (stepMany crossed Executor.pipeline 1 (start crossed.graph ∅)) =
    .ok (.requeued ⟨1⟩) (stepMany crossed Executor.pipeline 2 (start crossed.graph ∅)) := rfl
  have hother : step crossed Executor.pipeline
      (stepMany crossed Executor.pipeline 2 (start crossed.graph ∅)) =
    .ok (.fired ⟨3⟩) (stepMany crossed Executor.pipeline 3 (start crossed.graph ∅)) := rfl
  have hstuck : step crossed Executor.pipeline
      (stepMany crossed Executor.pipeline 3 (start crossed.graph ∅)) =
    .ok (.requeued ⟨1⟩) (stepMany crossed Executor.pipeline 4 (start crossed.graph ∅)) := rfl
  rw [run, runFrom_eq]
  simp only [hinput]
  rw [runFrom_eq]
  simp only [hbusy]
  rw [if_neg (by decide +kernel), runFrom_eq]
  simp only [hother]
  rw [runFrom_eq]
  simp only [hstuck]
  have hpending : (stepMany crossed Executor.pipeline 4 (start crossed.graph ∅)).pending = 1 := by
    decide +kernel
  rw [if_pos (by decide +kernel), hpending]

/-- The two computations in pipeline order wait for each other; the third one fires. -/
theorem run_pipeline_crossed :
    ∃ last, run crossed Executor.pipeline (start crossed.graph ∅) = .error (.deadlock 1) last ∧
      last.fired = [⟨0⟩, ⟨3⟩] ∧ ¬crossed.HeldUp ⟨3⟩ ∧ crossed.HeldUp ⟨1⟩ ∧ crossed.HeldUp ⟨2⟩ := by
  have hkeys : crossed.graph.blocks.keys = crossed.whereabouts.coordinates.keys := by
    decide +kernel
  have hplaced : ∀ task, crossed.graph.hasBlock task = true ↔ crossed.isPlaced task = true := by
    intro task
    rw [TaskGraph.hasBlock, Placement.isPlaced, Std.ExtTreeMap.contains_iff_mem,
      Std.ExtTreeMap.contains_iff_mem, ← Std.ExtTreeMap.mem_keys, hkeys, Std.ExtTreeMap.mem_keys]
  obtain ⟨last, hfired, -, -, hrun⟩ :=
    run_pipeline reachable_crossed (by decide +kernel) hplaced
  rw [run_crossed] at hrun
  split at hrun
  case isTrue => cases hrun
  case isFalse =>
    injection hrun with _ hlast
    have hlist : last.fired = [⟨0⟩, ⟨3⟩] := hlast ▸ (by decide +kernel)
    refine ⟨last, hlast ▸ run_crossed, hlist, ((hfired ⟨3⟩).mp ?_).2, ?_, ?_⟩
    · rw [hlist]
      decide
    · by_contra hfree
      have hfirst := (hfired ⟨1⟩).mpr ⟨by decide +kernel, hfree⟩
      rw [hlist] at hfirst
      revert hfirst
      decide
    · by_contra hfree
      have hsecond := (hfired ⟨2⟩).mpr ⟨by decide +kernel, hfree⟩
      rw [hlist] at hsecond
      revert hsecond
      decide

end Schedule

end TiledPlacement
