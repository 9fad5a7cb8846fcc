import TiledPlacement.Placement.Basic

/-!
Dataflow schedules of a placed graph. A task is dormant until every producer of its inputs has
fired; then it waits in a queue. A step asks the executor to run the head of the queue and either
fires it or puts it back at the end.
-/

namespace TiledPlacement

/-!
Executors decide whether the hardware at a coordinate can run a task now. An executor keeps a state
of its own from one request to the next; being busy is an answer and not an error.
-/

inductive Progress
  | done
  | busy
  deriving DecidableEq, Repr

/-- A request to run a task at a coordinate of a grid. -/
abbrev Executor (σ : Type) :=
  Grid → Coordinate → TaskId → EStateM PlacementError σ Progress

namespace Executor

/-- The point and the unit at which a task is asked to run. -/
def locate (grid : Grid) (place : Coordinate) (task : TaskId) :
    Except GridError (Point × FunctionalUnit) := do
  match place.unit? grid.spaceDepth with
  | none => throw (.contract place .unitRequired)
  | some unit =>
      match ← grid.point? place with
      | none => throw (.notFound place)
      | some point =>
          if point.holds unit task then return (point, unit)
          else throw (.notResident task place)

/-- Whether an earlier unit of the point holds a task that has not been executed. -/
def isBlocked (executed : TaskSet) (point : Point) (unit : FunctionalUnit) : Bool :=
  unit.earlier.any fun earlier =>
    (point.occupant? earlier).any fun task => !executed.contains task

/-- Runs the units of a point in pipeline order; the state is what has been executed. The router
halves wait for nothing. -/
def pipeline : Executor TaskSet := fun grid place task => do
  match locate grid place task with
  | .error error => throw (.grid error)
  | .ok (point, unit) =>
      if isBlocked (← get) point unit && !unit.isRouter then
        return .busy
      modify (·.insert task)
      return .done

/-- Busy for as many requests as the state still holds for a task, and done after that. -/
def stalling : Executor (TaskMap Nat) := fun _ _ task => do
  match (← get)[task]? with
  | some (left + 1) =>
      modify (·.insert task left)
      return .busy
  | _ => return .done

end Executor

/-! Schedules and their steps. -/

inductive TaskState
  | dormant
  | activated
  | fired
  deriving DecidableEq, Repr

inductive StepOutcome
  | fired (task : TaskId)
  | requeued (task : TaskId)
  | idle
  deriving DecidableEq, Repr

structure Schedule (σ : Type) where
  states : TaskMap TaskState
  /-- How many inputs of each task are still to arrive. -/
  awaited : TaskMap Nat
  queue : List TaskId
  /-- Tasks that have fired, in order. -/
  fired : List TaskId
  executor : σ

namespace Schedule

/-- Before the first step: tasks without inputs are activated, ascending. -/
def start (graph : TaskGraph) (executor : σ) : Schedule σ where
  states := graph.blocks.map fun task _ =>
    if (graph.inputEdges task).isEmpty then .activated else .dormant
  awaited := graph.blocks.map fun task _ => (graph.inputEdges task).length
  queue := graph.taskIds.filter fun task => (graph.inputEdges task).isEmpty
  fired := []
  executor

def state? (schedule : Schedule σ) (task : TaskId) : Option TaskState :=
  schedule.states[task]?

/-- How many activated tasks wait to run. -/
def pending (schedule : Schedule σ) : Nat := schedule.queue.length

def setState (schedule : Schedule σ) (task : TaskId) (state : TaskState) : Schedule σ :=
  { schedule with states := schedule.states.insert task state }

/-- One input of a task has arrived; the last one activates it. -/
def deliver (schedule : Schedule σ) (task : TaskId) : Schedule σ :=
  match schedule.awaited[task]? with
  | none => schedule
  | some awaited =>
      let left := awaited - 1
      let schedule := { schedule with awaited := schedule.awaited.insert task left }
      if left = 0 ∧ schedule.state? task = some .dormant then
        { schedule.setState task .activated with queue := schedule.queue ++ [task] }
      else
        schedule

/-- Record that a task has run and deliver along each of its output edges. -/
def fire (schedule : Schedule σ) (graph : TaskGraph) (task : TaskId) : Schedule σ :=
  (graph.outputEdges task).foldl (fun schedule edge => schedule.deliver edge.dst.task)
    { schedule.setState task .fired with fired := schedule.fired ++ [task] }

/-- Try the head of the queue. A task whose attempt fails has left the queue. -/
def step (placement : Placement) (execute : Executor σ) :
    EStateM PlacementError (Schedule σ) StepOutcome := fun schedule =>
  match schedule.queue with
  | [] => .ok .idle schedule
  | task :: queue =>
      match placement.coordinate? task with
      | none => .error (.notPlaced task) { schedule with queue }
      | some place =>
          match execute placement.grid place task schedule.executor with
          | .error error executor => .error error { schedule with queue, executor }
          | .ok .busy executor =>
              .ok (.requeued task) { schedule with queue := queue ++ [task], executor }
          | .ok .done executor =>
              .ok (.fired task) ({ schedule with queue, executor }.fire placement.graph task)

/-! Each task is fired at most once: what is dormant or queued grows less with every firing. -/

def dormant (schedule : Schedule σ) : TaskMap TaskState :=
  schedule.states.filter fun _ state => decide (state = .dormant)

def remaining (schedule : Schedule σ) : Nat := schedule.dormant.size + schedule.queue.length

theorem dormant_setState (schedule : Schedule σ) (task : TaskId) {state : TaskState}
    (hstate : state ≠ .dormant) :
    (schedule.setState task state).dormant = schedule.dormant.erase task := by
  apply Std.ExtTreeMap.ext_getElem?
  intro other
  simp only [dormant, setState, Std.ExtTreeMap.getElem?_filter', Std.ExtTreeMap.getElem?_erase,
    Std.ExtTreeMap.getElem?_insert]
  split
  · simp [hstate]
  · rfl

theorem mem_dormant_iff {schedule : Schedule σ} {task : TaskId} :
    task ∈ schedule.dormant ↔ schedule.state? task = some .dormant := by
  rw [Std.ExtTreeMap.mem_iff_isSome_getElem?, dormant, Std.ExtTreeMap.getElem?_filter', state?]
  cases schedule.states[task]? <;> simp

theorem remaining_deliver (schedule : Schedule σ) (task : TaskId) :
    (schedule.deliver task).remaining = schedule.remaining := by
  unfold deliver
  split
  case h_1 => rfl
  case h_2 awaited hawaited =>
    dsimp only
    split
    case isFalse => rfl
    case isTrue hlast =>
      have hmember : task ∈ schedule.dormant := mem_dormant_iff.mpr hlast.2
      have hsize : (schedule.setState task .activated).dormant.size =
          schedule.dormant.size - 1 := by
        rw [dormant_setState schedule task (by decide), Std.ExtTreeMap.size_erase,
          if_pos (Std.ExtTreeMap.contains_iff_mem.mpr hmember)]
      have hpositive : schedule.dormant.size ≠ 0 := by
        intro hzero
        rw [← Std.ExtTreeMap.eq_empty_iff_size_eq_zero] at hzero
        rw [hzero] at hmember
        exact Std.ExtTreeMap.not_mem_empty hmember
      change (schedule.setState task .activated).dormant.size +
        (schedule.queue ++ [task]).length = schedule.dormant.size + schedule.queue.length
      rw [hsize, List.length_append, List.length_singleton]
      omega

theorem remaining_fire_le (schedule : Schedule σ) (graph : TaskGraph) (task : TaskId) :
    (schedule.fire graph task).remaining ≤ schedule.remaining := by
  have hdeliveries : ∀ (edges : List Edge) (schedule : Schedule σ),
      (edges.foldl (fun schedule edge => schedule.deliver edge.dst.task) schedule).remaining =
        schedule.remaining := by
    intro edges
    induction edges with
    | nil => intro schedule; rfl
    | cons edge rest induction =>
        intro schedule
        rw [List.foldl_cons, induction, remaining_deliver]
  have hsize : (schedule.setState task .fired).dormant.size ≤ schedule.dormant.size := by
    rw [dormant_setState schedule task (by decide)]
    exact Std.ExtTreeMap.size_erase_le
  rw [fire, hdeliveries]
  exact Nat.add_le_add_right hsize _

theorem remaining_step_fired {placement : Placement} {execute : Executor σ}
    {schedule next : Schedule σ} {task : TaskId}
    (hstep : step placement execute schedule = .ok (.fired task) next) :
    next.remaining < schedule.remaining := by
  unfold step at hstep
  split at hstep
  · cases hstep
  · rename_i queue hqueue
    split at hstep
    · cases hstep
    · split at hstep
      · cases hstep
      · cases hstep
      · rename_i executor hdone
        cases hstep
        apply Nat.lt_of_le_of_lt (remaining_fire_le _ _ _)
        change schedule.dormant.size + queue.length < schedule.dormant.size + schedule.queue.length
        rw [hqueue, List.length_cons]
        omega

theorem step_requeued {placement : Placement} {execute : Executor σ}
    {schedule next : Schedule σ} {task : TaskId}
    (hstep : step placement execute schedule = .ok (.requeued task) next) :
    next.remaining = schedule.remaining ∧ next.queue.length = schedule.queue.length := by
  unfold step at hstep
  split at hstep
  · cases hstep
  · rename_i queue hqueue
    split at hstep
    · cases hstep
    · split at hstep
      · cases hstep
      · cases hstep
        simp [remaining, dormant, hqueue]
      · cases hstep

/-- Step until nothing is queued, given that the last `retries` steps all met a busy task. When
each queued task has been tried in vain the schedule is deadlocked. -/
def runFrom (placement : Placement) (execute : Executor σ) (schedule : Schedule σ)
    (retries : Nat) : EStateM.Result PlacementError (Schedule σ) (List TaskId) :=
  match hstep : step placement execute schedule with
  | .error error next => .error error next
  | .ok .idle next => .ok next.fired next
  | .ok (.fired _) next =>
      have := remaining_step_fired hstep
      runFrom placement execute next 0
  | .ok (.requeued _) next =>
      have := step_requeued hstep
      if next.pending ≤ retries + 1 then
        .error (.deadlock next.pending) next
      else
        runFrom placement execute next (retries + 1)
termination_by (schedule.remaining, schedule.pending - retries)
decreasing_by
  all_goals
    simp_wf
    simp only [pending, Prod.lex_def] at *
    omega

/-- Run until nothing is queued; returns all tasks that have fired, in order. -/
def run (placement : Placement) (execute : Executor σ) :
    EStateM PlacementError (Schedule σ) (List TaskId) := fun schedule =>
  runFrom placement execute schedule 0

end Schedule

end TiledPlacement
