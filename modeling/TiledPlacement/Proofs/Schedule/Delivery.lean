import TiledPlacement.Proofs.Graph.Awaited
import TiledPlacement.Schedule

/-!
What a schedule keeps about the tasks of its graph: how many inputs each still awaits, which are
dormant, which have fired and in which order. The account is kept while a task that fires delivers
along its output edges one after the other, with some edges still underway.
-/

namespace TiledPlacement

/-- Every entry of a list has a property relative to the entries before it. -/
def EachAfter (holds : List α → α → Prop) (list : List α) : Prop :=
  ∀ before item after, list = before ++ item :: after → holds before item

theorem eachAfter_nil (holds : List α → α → Prop) : EachAfter holds [] := by
  intro before item after hsplit
  simp at hsplit

theorem EachAfter.concat {holds : List α → α → Prop} {list : List α} {last : α}
    (hlist : EachAfter holds list) (hlast : holds list last) :
    EachAfter holds (list ++ [last]) := by
  intro before item after hsplit
  rcases List.eq_nil_or_concat after with rfl | ⟨rest, final, rfl⟩
  · obtain ⟨rfl, hitem⟩ := List.append_inj' hsplit rfl
    cases hitem
    exact hlast
  · rw [List.concat_eq_append, ← List.cons_append, ← List.append_assoc] at hsplit
    exact hlist before item rest (List.append_inj' hsplit rfl).1

namespace Schedule

/-- The state of a task that awaits some inputs when some tasks have fired. -/
def stateAt (fired : List TaskId) (awaited : Nat) (task : TaskId) : TaskState :=
  if task ∈ fired then .fired else if awaited = 0 then .activated else .dormant

theorem stateAt_succ (fired : List TaskId) (left : Nat) (task : TaskId) :
    stateAt fired (left + 1) task = if task ∈ fired then .fired else .dormant := by
  simp [stateAt]

/-- The schedule is exact about its graph, but for edges underway. The tasks in `lost` are
activated and have left the queue. -/
structure Accounts (graph : TaskGraph) (underway : List Edge) (lost : List TaskId)
    (schedule : Schedule σ) : Prop where
  awaited : ∀ task, schedule.awaited[task]? =
    (graph.block? task).map fun _ => graph.missing schedule.fired underway task
  state : ∀ task, schedule.state? task = (graph.block? task).map fun _ =>
    stateAt schedule.fired (graph.missing schedule.fired underway task) task
  activated : ∀ task, schedule.state? task = some .activated ↔
    task ∈ schedule.queue ∨ task ∈ lost
  nodup : (schedule.queue ++ lost).Nodup
  fired_known : ∀ task ∈ schedule.fired, ∃ block, graph.block? task = some block
  fired_nodup : schedule.fired.Nodup
  ordered : EachAfter (fun before task => ∀ edge ∈ graph.inputEdges task, edge.src.task ∈ before)
    schedule.fired

@[simp] theorem state?_setState (schedule : Schedule σ) (task other : TaskId) (state : TaskState) :
    (schedule.setState task state).state? other =
      if other = task then some state else schedule.state? other := by
  simp only [state?, setState, Std.ExtTreeMap.getElem?_insert, Std.LawfulEqCmp.compare_eq_iff_eq,
    @eq_comm _ task other]

section Delivery

variable {graph : TaskGraph} {underway : List Edge} {lost : List TaskId} {schedule : Schedule σ}

theorem deliver_of_unknown {task : TaskId} (hunknown : schedule.awaited[task]? = none) :
    schedule.deliver task = schedule := by
  rw [deliver, hunknown]

/-- The schedule after an arrival that leaves a task `left` inputs to await. -/
def awaiting (schedule : Schedule σ) (task : TaskId) (left : Nat) : Schedule σ :=
  { schedule with awaited := schedule.awaited.insert task left }

def activate (schedule : Schedule σ) (task : TaskId) : Schedule σ :=
  { schedule.setState task .activated with queue := schedule.queue ++ [task] }

theorem deliver_of_awaited {task : TaskId} {left : Nat}
    (hawaited : schedule.awaited[task]? = some (left + 1)) :
    schedule.deliver task =
      if left = 0 ∧ schedule.state? task = some .dormant then
        (schedule.awaiting task left).activate task
      else schedule.awaiting task left := by
  rw [deliver, hawaited]
  rfl

theorem getElem?_awaiting (schedule : Schedule σ) (task other : TaskId) (left : Nat) :
    (schedule.awaiting task left).awaited[other]? =
      if other = task then some left else schedule.awaited[other]? := by
  simp only [awaiting, Std.ExtTreeMap.getElem?_insert, Std.LawfulEqCmp.compare_eq_iff_eq,
    @eq_comm _ task other]

theorem Accounts.deliver_unknown {edge : Edge}
    (haccounts : Accounts graph (edge :: underway) lost schedule)
    (hunknown : graph.block? edge.dst.task = none) :
    Accounts graph underway lost schedule := by
  have hmissing : ∀ {task block}, graph.block? task = some block →
      graph.missing schedule.fired (edge :: underway) task =
        graph.missing schedule.fired underway task := by
    intro task block hknown
    apply graph.missing_cons_of_ne
    intro hsame
    rw [hsame, hunknown] at hknown
    cases hknown
  refine { haccounts with awaited := fun task => ?_, state := fun task => ?_ }
  · rw [haccounts.awaited]
    cases hknown : graph.block? task with
    | none => rfl
    | some block => rw [hmissing hknown]
  · rw [haccounts.state]
    cases hknown : graph.block? task with
    | none => rfl
    | some block => rw [hmissing hknown]

theorem Accounts.awaited_arrival {edge : Edge} {block : Block}
    (haccounts : Accounts graph (edge :: underway) lost schedule)
    (hblock : graph.block? edge.dst.task = some block) (task : TaskId) :
    (schedule.awaiting edge.dst.task
        (graph.missing schedule.fired underway edge.dst.task)).awaited[task]? =
      (graph.block? task).map fun _ => graph.missing schedule.fired underway task := by
  rw [getElem?_awaiting]
  split
  case isTrue hsame =>
    subst hsame
    rw [hblock, Option.map_some]
  case isFalse hother => rw [haccounts.awaited, graph.missing_cons_of_ne _ _ hother]

theorem Accounts.state_other {edge : Edge}
    (haccounts : Accounts graph (edge :: underway) lost schedule) {task : TaskId}
    (hother : task ≠ edge.dst.task) :
    schedule.state? task = (graph.block? task).map fun _ =>
      stateAt schedule.fired (graph.missing schedule.fired underway task) task := by
  rw [haccounts.state, graph.missing_cons_of_ne _ _ hother]

theorem Accounts.state_receiver {edge : Edge} {block : Block}
    (haccounts : Accounts graph (edge :: underway) lost schedule)
    (hblock : graph.block? edge.dst.task = some block) :
    schedule.state? edge.dst.task =
      some (if edge.dst.task ∈ schedule.fired then .fired else .dormant) := by
  rw [haccounts.state, hblock, graph.missing_cons_self, Option.map_some, stateAt_succ]

/-- The last input of a dormant task has arrived. -/
theorem Accounts.activate {edge : Edge} {block : Block}
    (haccounts : Accounts graph (edge :: underway) lost schedule)
    (hblock : graph.block? edge.dst.task = some block)
    (hlast : graph.missing schedule.fired underway edge.dst.task = 0)
    (hdormant : schedule.state? edge.dst.task = some .dormant) :
    Accounts graph underway lost
      ((schedule.awaiting edge.dst.task
        (graph.missing schedule.fired underway edge.dst.task)).activate edge.dst.task) := by
  have hunfired : edge.dst.task ∉ schedule.fired := by
    intro hfired
    rw [haccounts.state_receiver hblock, if_pos hfired] at hdormant
    cases hdormant
  have hunqueued : edge.dst.task ∉ schedule.queue ++ lost := by
    rw [List.mem_append, ← haccounts.activated, hdormant]
    simp
  constructor
  case awaited => exact haccounts.awaited_arrival hblock
  case state =>
    intro task
    change (schedule.setState edge.dst.task .activated).state? task = _
    rw [state?_setState]
    split
    case isTrue hsame =>
      subst hsame
      simp only [Schedule.activate, awaiting, setState, hblock, Option.map_some, stateAt,
        hunfired, hlast, if_true, if_false]
    case isFalse hother => exact haccounts.state_other hother
  case activated =>
    intro task
    change (schedule.setState edge.dst.task .activated).state? task = _ ↔
      task ∈ schedule.queue ++ [edge.dst.task] ∨ _
    rw [state?_setState, List.mem_append, List.mem_singleton]
    split
    case isTrue hsame => simp [hsame]
    case isFalse hother => simp [hother, haccounts.activated]
  case nodup =>
    change (schedule.queue ++ [edge.dst.task] ++ lost).Nodup
    rw [List.append_assoc, List.singleton_append]
    exact List.perm_middle.nodup_iff.mpr (List.nodup_cons.mpr ⟨hunqueued, haccounts.nodup⟩)
  case fired_known => exact haccounts.fired_known
  case fired_nodup => exact haccounts.fired_nodup
  case ordered => exact haccounts.ordered

/-- An input of a task has arrived that is not its last, or has fired all the same. -/
theorem Accounts.awaiting {edge : Edge} {block : Block}
    (haccounts : Accounts graph (edge :: underway) lost schedule)
    (hblock : graph.block? edge.dst.task = some block)
    (hmore : ¬(graph.missing schedule.fired underway edge.dst.task = 0 ∧
      schedule.state? edge.dst.task = some .dormant)) :
    Accounts graph underway lost
      (schedule.awaiting edge.dst.task
        (graph.missing schedule.fired underway edge.dst.task)) := by
  refine { haccounts with
    awaited := haccounts.awaited_arrival hblock
    state := fun task => ?_ }
  by_cases hother : task = edge.dst.task
  · subst hother
    have hreceiver := haccounts.state_receiver hblock
    change schedule.state? edge.dst.task = _
    by_cases hfired : edge.dst.task ∈ schedule.fired
    · simp [hreceiver, hblock, stateAt, Schedule.awaiting, hfired]
    · rw [hreceiver, if_neg hfired] at hmore
      have hsome : graph.missing schedule.fired underway edge.dst.task ≠ 0 :=
        fun hnone => hmore ⟨hnone, rfl⟩
      simp [hreceiver, hblock, stateAt, Schedule.awaiting, hfired, hsome]
  · exact haccounts.state_other hother

/-- The edge at the head of those underway has arrived. -/
theorem Accounts.deliver {edge : Edge}
    (haccounts : Accounts graph (edge :: underway) lost schedule) :
    Accounts graph underway lost (schedule.deliver edge.dst.task) := by
  have hawaited := haccounts.awaited edge.dst.task
  cases hblock : graph.block? edge.dst.task with
  | none =>
      rw [hblock] at hawaited
      rw [deliver_of_unknown hawaited]
      exact haccounts.deliver_unknown hblock
  | some block =>
      rw [hblock, Option.map_some, graph.missing_cons_self] at hawaited
      rw [deliver_of_awaited hawaited]
      split
      case isTrue hlast => exact haccounts.activate hblock hlast.1 hlast.2
      case isFalse hmore => exact haccounts.awaiting hblock hmore

theorem Accounts.deliverAll (haccounts : Accounts graph underway lost schedule) :
    Accounts graph [] lost
      (underway.foldl (fun schedule edge => schedule.deliver edge.dst.task) schedule) := by
  induction underway generalizing schedule with
  | nil => exact haccounts
  | cons edge rest induction => exact induction haccounts.deliver

@[simp] theorem fired_deliver (schedule : Schedule σ) (task : TaskId) :
    (schedule.deliver task).fired = schedule.fired := by
  unfold Schedule.deliver
  split
  · rfl
  · dsimp only
    split <;> rfl

@[simp] theorem executor_deliver (schedule : Schedule σ) (task : TaskId) :
    (schedule.deliver task).executor = schedule.executor := by
  unfold Schedule.deliver
  split
  · rfl
  · dsimp only
    split <;> rfl

/-- What no single delivery changes is the same after all of them. -/
theorem foldl_deliver {β : Type} {read : Schedule σ → β}
    (hread : ∀ schedule task, read (schedule.deliver task) = read schedule) (edges : List Edge)
    (schedule : Schedule σ) :
    read (edges.foldl (fun schedule edge => schedule.deliver edge.dst.task) schedule) =
      read schedule := by
  induction edges generalizing schedule with
  | nil => rfl
  | cons edge rest induction => rw [List.foldl_cons, induction, hread]

theorem fired_fire (schedule : Schedule σ) (graph : TaskGraph) (task : TaskId) :
    (schedule.fire graph task).fired = schedule.fired ++ [task] :=
  foldl_deliver fired_deliver _ _

theorem executor_fire (schedule : Schedule σ) (graph : TaskGraph) (task : TaskId) :
    (schedule.fire graph task).executor = schedule.executor :=
  foldl_deliver executor_deliver _ _

end Delivery

section Firing

variable {graph : TaskGraph} {lost : List TaskId} {schedule : Schedule σ} {task : TaskId}
  {rest : List TaskId}

theorem Accounts.state_eq (haccounts : Accounts graph [] lost schedule) (task : TaskId) :
    schedule.state? task = (graph.block? task).map fun _ =>
      stateAt schedule.fired (graph.outstanding schedule.fired task) task := by
  rw [haccounts.state]
  rfl

theorem Accounts.known (haccounts : Accounts graph [] lost schedule) {state : TaskState}
    (hstate : schedule.state? task = some state) : ∃ block, graph.block? task = some block := by
  rw [haccounts.state_eq, Option.map_eq_some_iff] at hstate
  obtain ⟨block, hblock, -⟩ := hstate
  exact ⟨block, hblock⟩

/-- An activated task has not fired, and all its producers have. -/
theorem Accounts.ready (haccounts : Accounts graph [] lost schedule)
    (hactivated : schedule.state? task = some .activated) :
    task ∉ schedule.fired ∧ ∀ edge ∈ graph.inputEdges task, edge.src.task ∈ schedule.fired := by
  rw [haccounts.state_eq, Option.map_eq_some_iff] at hactivated
  obtain ⟨block, -, hstate⟩ := hactivated
  unfold stateAt at hstate
  split at hstate
  case isTrue => cases hstate
  case isFalse hunfired =>
    split at hstate
    case isTrue hnone => exact ⟨hunfired, TaskGraph.outstanding_eq_zero_iff.mp hnone⟩
    case isFalse => cases hstate

/-- The head of the queue fires: its output edges are underway. -/
theorem Accounts.depart (hgraph : graph.WellFormed) (haccounts : Accounts graph [] lost schedule)
    (hqueue : schedule.queue = task :: rest) (executor : σ) :
    Accounts graph (graph.outputEdges task) lost
      { schedule.setState task .fired with
        queue := rest
        fired := schedule.fired ++ [task]
        executor } := by
  -- The inputs that the firing provides are still awaited: their edges are underway.
  have hnodup := haccounts.nodup
  rw [hqueue, List.cons_append, List.nodup_cons, List.mem_append] at hnodup
  obtain ⟨hgone, hrest⟩ := hnodup
  have hactivated := (haccounts.activated task).mpr (Or.inl (hqueue ▸ List.mem_cons_self))
  obtain ⟨block, hblock⟩ := haccounts.known hactivated
  obtain ⟨hunfired, hproducers⟩ := haccounts.ready hactivated
  have hmissing : ∀ other, graph.missing (schedule.fired ++ [task]) (graph.outputEdges task) other =
      graph.missing schedule.fired [] other :=
    fun other => (hgraph.outstanding_concat hunfired other).symm
  constructor
  case awaited =>
    intro other
    dsimp only
    rw [hmissing]
    exact haccounts.awaited other
  case state =>
    intro other
    dsimp only
    rw [hmissing]
    change (schedule.setState task .fired).state? other = _
    rw [state?_setState]
    split
    case isTrue hsame =>
      subst hsame
      simp [hblock, stateAt]
    case isFalse hother =>
      rw [haccounts.state]
      simp only [stateAt, List.mem_append, List.mem_singleton, hother, or_false]
  case activated =>
    intro other
    change (schedule.setState task .fired).state? other = _ ↔ other ∈ rest ∨ other ∈ lost
    rw [state?_setState]
    split
    case isTrue hsame =>
      subst hsame
      simp [hgone]
    case isFalse hother =>
      rw [haccounts.activated, hqueue, List.mem_cons]
      simp [hother]
  case nodup => exact hrest
  case fired_known =>
    intro other hfired
    rcases List.mem_append.mp hfired with hbefore | hlast
    · exact haccounts.fired_known other hbefore
    · rw [List.mem_singleton.mp hlast]
      exact ⟨block, hblock⟩
  case fired_nodup =>
    exact (List.perm_append_singleton task schedule.fired).nodup_iff.mpr
      (List.nodup_cons.mpr ⟨hunfired, haccounts.fired_nodup⟩)
  case ordered => exact haccounts.ordered.concat hproducers

theorem Accounts.fire (hgraph : graph.WellFormed) (haccounts : Accounts graph [] lost schedule)
    (hqueue : schedule.queue = task :: rest) (executor : σ) :
    Accounts graph [] lost
      (({ schedule with queue := rest, executor } : Schedule σ).fire graph task) :=
  (haccounts.depart hgraph hqueue executor).deliverAll

/-- A busy task goes to the end of the queue. -/
theorem Accounts.requeue (haccounts : Accounts graph [] lost schedule)
    (hqueue : schedule.queue = task :: rest) (executor : σ) :
    Accounts graph [] lost { schedule with queue := rest ++ [task], executor } := by
  have hnodup := haccounts.nodup
  rw [hqueue] at hnodup
  refine { haccounts with activated := fun other => ?_, nodup := ?_ }
  · change schedule.state? other = _ ↔ other ∈ rest ++ [task] ∨ _
    rw [haccounts.activated, hqueue, List.mem_cons, List.mem_append, List.mem_singleton,
      or_comm (a := other = task)]
  · change (rest ++ [task] ++ lost).Nodup
    rw [List.append_assoc, List.singleton_append]
    exact List.perm_middle.nodup_iff.mpr hnodup

/-- A task whose attempt fails is lost: it stays activated, outside the queue. -/
theorem Accounts.lose (haccounts : Accounts graph [] lost schedule)
    (hqueue : schedule.queue = task :: rest) (executor : σ) :
    Accounts graph [] (task :: lost) { schedule with queue := rest, executor } := by
  have hnodup := haccounts.nodup
  rw [hqueue] at hnodup
  refine { haccounts with activated := fun other => ?_, nodup := ?_ }
  · change schedule.state? other = _ ↔ other ∈ rest ∨ _
    rw [haccounts.activated, hqueue, List.mem_cons, List.mem_cons]
    exact or_assoc.trans or_left_comm
  · exact List.perm_middle.nodup_iff.mpr hnodup

/-- Where a task has fired, so have its producers, before it. -/
theorem Accounts.producers_fired (haccounts : Accounts graph [] lost schedule)
    (hfired : task ∈ schedule.fired) :
    ∀ edge ∈ graph.inputEdges task, edge.src.task ∈ schedule.fired := by
  obtain ⟨before, after, hsplit⟩ := List.append_of_mem hfired
  intro edge hedge
  rw [hsplit]
  exact List.mem_append_left _ (haccounts.ordered before task after hsplit edge hedge)

theorem Accounts.fired_iff (haccounts : Accounts graph [] lost schedule) :
    task ∈ schedule.fired ↔ schedule.state? task = some .fired := by
  rw [haccounts.state_eq]
  constructor
  · intro hfired
    obtain ⟨block, hblock⟩ := haccounts.fired_known task hfired
    simp [hblock, stateAt, hfired]
  · intro hstate
    obtain ⟨block, -, hstate⟩ := Option.map_eq_some_iff.mp hstate
    unfold stateAt at hstate
    split at hstate
    case isTrue hfired => exact hfired
    case isFalse => split at hstate <;> cases hstate

theorem Accounts.dormant_iff (haccounts : Accounts graph [] lost schedule) {block : Block}
    (hblock : graph.block? task = some block) :
    schedule.state? task = some .dormant ↔
      ∃ edge ∈ graph.inputEdges task, edge.src.task ∉ schedule.fired := by
  rw [haccounts.state_eq, hblock, Option.map_some, ← TaskGraph.outstanding_pos_iff]
  constructor
  · intro hstate
    apply Nat.pos_of_ne_zero
    intro hzero
    rw [hzero] at hstate
    simp only [stateAt, if_true, Option.some.injEq] at hstate
    split at hstate <;> cases hstate
  · intro hsome
    have hunfired : task ∉ schedule.fired := by
      intro hfired
      have hnone := TaskGraph.outstanding_eq_zero_iff.mpr (haccounts.producers_fired hfired)
      exact absurd hnone (Nat.ne_of_gt hsome)
    simp [stateAt, hunfired, Nat.ne_of_gt hsome]

theorem accounts_start (graph : TaskGraph) (executor : σ) :
    Accounts graph [] [] (start graph executor) := by
  have houtstanding : ∀ task, graph.missing [] [] task = (graph.inputEdges task).length := by
    intro task
    simp [TaskGraph.missing, TaskGraph.outstanding]
  have hstate : ∀ task, (start graph executor).state? task = (graph.block? task).map fun _ =>
      if (graph.inputEdges task).isEmpty then TaskState.activated else .dormant := by
    intro task
    rw [state?, start, Std.ExtTreeMap.getElem?_map]
    rfl
  constructor
  case awaited =>
    intro task
    rw [start, Std.ExtTreeMap.getElem?_map]
    simp only [houtstanding]
    rfl
  case state =>
    intro task
    rw [hstate]
    simp [stateAt, houtstanding, start]
  case activated =>
    intro task
    rw [hstate]
    simp only [start, List.mem_filter, TaskGraph.mem_taskIds_iff, List.not_mem_nil, or_false]
    cases graph.block? task <;> simp
  case nodup =>
    rw [List.append_nil]
    exact graph.nodup_taskIds.filter _
  case fired_known => exact List.forall_mem_nil _
  case fired_nodup => exact List.nodup_nil
  case ordered => exact eachAfter_nil _

end Firing

end Schedule

end TiledPlacement
