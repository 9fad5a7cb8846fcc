/-!
Runs of actions that keep what they have changed when they fail. `Ends` says in which states a run
may end, with a value or with an error; `Keeps` says that a property of the state survives every
run, failing ones included; `Returns` that an action never fails.
-/

namespace TiledPlacement

theorem bind_eq_ok_iff {ε α β : Type} {action : Except ε α} {next : α → Except ε β} {result : β} :
    (action >>= next) = .ok result ↔ ∃ value, action = .ok value ∧ next value = .ok result := by
  cases action with
  | error error =>
      constructor
      · exact fun hok => nomatch hok
      · exact fun ⟨_, hok, _⟩ => nomatch hok
  | ok value =>
      constructor
      · exact fun hok => ⟨value, rfl, hok⟩
      · rintro ⟨_, hvalue, hok⟩
        cases hvalue
        exact hok

theorem mapError_eq_ok_iff {ε ε' α : Type} {change : ε → ε'} {result : Except ε α} {value : α} :
    result.mapError change = .ok value ↔ result = .ok value := by
  cases result with
  | error error => exact ⟨fun hok => (nomatch hok), fun hok => (nomatch hok)⟩
  | ok found =>
      constructor
      · intro hok
        exact congrArg Except.ok (Except.ok.inj hok)
      · intro hok
        exact congrArg Except.ok (Except.ok.inj hok)

theorem mapError_eq_error_iff {ε ε' α : Type} {change : ε → ε'} {result : Except ε α}
    {error : ε'} : result.mapError change = .error error ↔
      ∃ found, result = .error found ∧ change found = error := by
  cases result with
  | error found =>
      constructor
      · intro herror
        exact ⟨found, rfl, Except.error.inj herror⟩
      · rintro ⟨other, hfound, rfl⟩
        cases hfound
        rfl
  | ok value =>
      constructor
      · intro herror
        cases herror
      · rintro ⟨found, hfound, -⟩
        cases hfound

theorem exists_mapM_ok {ε α β : Type} {list : List α} {change : α → Except ε β}
    (hok : ∀ element ∈ list, ∃ value, change element = .ok value) :
    ∃ values, list.mapM change = .ok values := by
  induction list with
  | nil => exact ⟨[], rfl⟩
  | cons first rest induction =>
      obtain ⟨value, hvalue⟩ := hok first List.mem_cons_self
      obtain ⟨values, hvalues⟩ :=
        induction fun element hmember => hok element (List.mem_cons_of_mem _ hmember)
      exact ⟨value :: values, by rw [List.mapM_cons, hvalue, hvalues]; rfl⟩

namespace Execution

variable {ε σ α β : Type}

/-- The state that a run leaves behind. -/
def after (action : EStateM ε σ α) (state : σ) : σ :=
  match action state with
  | .ok _ left => left
  | .error _ left => left

def fails (action : EStateM ε σ α) (state : σ) : Bool :=
  match action state with
  | .ok _ _ => false
  | .error _ _ => true

def returned? (action : EStateM ε σ α) (state : σ) : Option α :=
  match action state with
  | .ok value _ => some value
  | .error _ _ => none

theorem run_eq_ok {action : EStateM ε σ α} {state : σ} (hreturns : fails action state = false) :
    ∃ value, action state = .ok value (after action state) := by
  unfold fails at hreturns
  unfold after
  cases hrun : action state with
  | ok value left => exact ⟨value, rfl⟩
  | error error left =>
      rw [hrun] at hreturns
      cases hreturns

theorem run_eq_ok_of_returned {action : EStateM ε σ α} {state : σ} {value : α}
    (hreturns : returned? action state = some value) :
    action state = .ok value (after action state) := by
  unfold returned? at hreturns
  unfold after
  cases hrun : action state with
  | ok found left =>
      rw [hrun] at hreturns
      rw [Option.some.inj hreturns]
  | error error left =>
      rw [hrun] at hreturns
      cases hreturns

theorem run_eq_error {action : EStateM ε σ α} {state : σ} (hfails : fails action state = true) :
    ∃ error, action state = .error error (after action state) := by
  unfold fails at hfails
  unfold after
  cases hrun : action state with
  | ok value left =>
      rw [hrun] at hfails
      cases hfails
  | error error left => exact ⟨error, rfl⟩

def Ends (action : EStateM ε σ α) (state : σ) (success : α → σ → Prop)
    (failure : ε → σ → Prop) : Prop :=
  match action state with
  | .ok value left => success value left
  | .error error left => failure error left

variable {state : σ} {success : α → σ → Prop} {failure : ε → σ → Prop}

theorem ends_iff {action : EStateM ε σ α} :
    Ends action state success failure ↔
      (∀ value left, action state = .ok value left → success value left) ∧
        (∀ error left, action state = .error error left → failure error left) := by
  unfold Ends
  cases action state with
  | ok value left =>
      constructor
      · intro hsuccess
        refine ⟨fun _ _ hrun => ?_, fun _ _ hrun => nomatch hrun⟩
        cases hrun
        exact hsuccess
      · exact fun hends => hends.1 value left rfl
  | error error left =>
      constructor
      · intro hfailure
        refine ⟨fun _ _ hrun => (nomatch hrun), fun _ _ hrun => ?_⟩
        cases hrun
        exact hfailure
      · exact fun hends => hends.2 error left rfl

theorem Ends.of_ok {action : EStateM ε σ α} {value : α} {left : σ}
    (hends : Ends action state success failure) (hrun : action state = .ok value left) :
    success value left :=
  (ends_iff.mp hends).1 value left hrun

theorem Ends.of_error {action : EStateM ε σ α} {error : ε} {left : σ}
    (hends : Ends action state success failure) (hrun : action state = .error error left) :
    failure error left :=
  (ends_iff.mp hends).2 error left hrun

theorem Ends.exists_value {action : EStateM ε σ α}
    (hends : Ends action state success (fun _ _ => False)) :
    ∃ value left, action state = .ok value left ∧ success value left := by
  cases hrun : action state with
  | ok value left => exact ⟨value, left, rfl, hends.of_ok hrun⟩
  | error error left => exact (hends.of_error hrun).elim

theorem exists_error_of_ends {action : EStateM ε σ α}
    (hends : Ends action state (fun _ _ => False) (fun _ _ => True)) :
    ∃ error left, action state = .error error left := by
  cases hrun : action state with
  | ok value left => exact (hends.of_ok hrun).elim
  | error error left => exact ⟨error, left, rfl⟩

theorem Ends.exists_ok {action : EStateM ε σ PUnit} {success : PUnit → σ → Prop}
    (hends : Ends action state success (fun _ _ => False)) :
    ∃ left, action state = .ok ⟨⟩ left ∧ success ⟨⟩ left := by
  obtain ⟨_, left, hrun, hleft⟩ := hends.exists_value
  exact ⟨left, hrun, hleft⟩

theorem ends_of_ok_iff {action : EStateM ε σ α} {value : α} {left : σ}
    (hrun : action state = .ok value left) :
    Ends action state success failure ↔ success value left := by
  unfold Ends
  rw [hrun]

theorem Ends.eq_ok {action : EStateM ε σ α} {value : α} {left : σ}
    (hends : Ends action state (fun found after => found = value ∧ after = left)
      (fun _ _ => False)) : action state = .ok value left := by
  unfold Ends at hends
  split at hends
  case h_1 found after hrun => rw [hrun, hends.1, hends.2]
  case h_2 => exact hends.elim

theorem eq_ok_of_ends {action : EStateM ε σ PUnit} {left : σ}
    (hends : Ends action state (fun _ after => after = left) (fun _ _ => False)) :
    action state = .ok ⟨⟩ left := by
  obtain ⟨_, hrun, rfl⟩ := hends.exists_ok
  exact hrun

/-- An action fails with just the errors for which there is a reason if it fails only for a reason,
there is none when it succeeds and no two errors have one. -/
theorem Ends.eq_error_iff {action : EStateM ε σ α} {reason : ε → Prop}
    (hends : Ends action state (fun _ _ => ∀ error, ¬reason error)
      (fun error left => left = state ∧ reason error))
    (hunique : ∀ {error other}, reason error → reason other → error = other) (error : ε) :
    action state = .error error state ↔ reason error := by
  unfold Ends at hends
  cases hrun : action state with
  | ok value left =>
      rw [hrun] at hends
      exact ⟨fun herror => (nomatch herror), fun hreason => absurd hreason (hends error)⟩
  | error found left =>
      rw [hrun] at hends
      obtain ⟨rfl, hfound⟩ := hends
      constructor
      · intro herror
        cases herror
        exact hfound
      · intro hreason
        rw [hunique hfound hreason]

theorem Ends.after {action : EStateM ε σ α} {property : σ → Prop}
    (hends : Ends action state (fun _ => property) (fun _ => property)) :
    property (after action state) := by
  rw [ends_iff] at hends
  unfold Execution.after
  cases hrun : action state with
  | ok value left => exact hends.1 value left hrun
  | error error left => exact hends.2 error left hrun

theorem Ends.mono {action : EStateM ε σ α} {success' : α → σ → Prop}
    {failure' : ε → σ → Prop} (hends : Ends action state success failure)
    (hsuccess : ∀ value left, success value left → success' value left)
    (hfailure : ∀ error left, failure error left → failure' error left) :
    Ends action state success' failure' := by
  rw [ends_iff] at hends ⊢
  exact ⟨fun value left hrun => hsuccess value left (hends.1 value left hrun),
    fun error left hrun => hfailure error left (hends.2 error left hrun)⟩

theorem Ends.and {action : EStateM ε σ α} {success' : α → σ → Prop} {failure' : ε → σ → Prop}
    (hends : Ends action state success failure) (hothers : Ends action state success' failure') :
    Ends action state (fun value left => success value left ∧ success' value left)
      (fun error left => failure error left ∧ failure' error left) := by
  rw [ends_iff] at hends hothers ⊢
  exact ⟨fun value left hrun => ⟨hends.1 value left hrun, hothers.1 value left hrun⟩,
    fun error left hrun => ⟨hends.2 error left hrun, hothers.2 error left hrun⟩⟩

/-! One rule for each way of building an action. -/

@[simp] theorem ends_pure {value : α} :
    Ends (pure value) state success failure ↔ success value state :=
  Iff.rfl

@[simp] theorem ends_throw {error : ε} :
    Ends (throw error : EStateM ε σ α) state success failure ↔ failure error state :=
  Iff.rfl

@[simp] theorem ends_get {success : σ → σ → Prop} :
    Ends (get : EStateM ε σ σ) state success failure ↔ success state state :=
  Iff.rfl

@[simp] theorem ends_set {left : σ} {success : PUnit → σ → Prop} :
    Ends (set left : EStateM ε σ PUnit) state success failure ↔ success ⟨⟩ left :=
  Iff.rfl

@[simp] theorem ends_modify {change : σ → σ} {success : PUnit → σ → Prop} :
    Ends (modify change : EStateM ε σ PUnit) state success failure ↔
      success ⟨⟩ (change state) :=
  Iff.rfl

@[simp] theorem ends_modifyGet {change : σ → α × σ} :
    Ends (modifyGet change : EStateM ε σ α) state success failure ↔
      success (change state).1 (change state).2 :=
  Iff.rfl

theorem ends_bind {action : EStateM ε σ β} {next : β → EStateM ε σ α} :
    Ends (action >>= next) state success failure ↔
      Ends action state (fun value left => Ends (next value) left success failure) failure := by
  unfold Ends
  change (match EStateM.bind action next state with
    | .ok value left => success value left
    | .error error left => failure error left) ↔ _
  unfold EStateM.bind
  cases action state <;> exact Iff.rfl

theorem ends_map {action : EStateM ε σ β} {change : β → α} :
    Ends (change <$> action) state success failure ↔
      Ends action state (fun value => success (change value)) failure := by
  unfold Ends
  change (match EStateM.map change action state with
    | .ok value left => success value left
    | .error error left => failure error left) ↔ _
  unfold EStateM.map
  cases action state <;> exact Iff.rfl

theorem ends_discard {action : EStateM ε σ β} {success : PUnit → σ → Prop} :
    Ends (discard action) state success failure ↔
      Ends action state (fun _ => success ⟨⟩) failure :=
  ends_map

theorem after_discard (action : EStateM ε σ α) (state : σ) :
    after (discard action) state = after action state := by
  have hends : Ends action state (fun _ left => left = after action state)
      (fun _ left => left = after action state) := by
    unfold Ends after
    cases action state <;> exact rfl
  exact (ends_discard.mpr hends).after

theorem ends_tryCatch {action : EStateM ε σ α} {handler : ε → EStateM ε σ α} :
    Ends (tryCatch action handler) state success failure ↔
      Ends action state success (fun error left => Ends (handler error) left success failure) := by
  unfold Ends
  change (match EStateM.tryCatch action handler state with
    | .ok value left => success value left
    | .error error left => failure error left) ↔ _
  unfold EStateM.tryCatch
  cases hrun : action state <;> exact Iff.rfl

@[simp] theorem ends_mapM_nil {action : β → EStateM ε σ α} {success : List α → σ → Prop} :
    Ends ([].mapM action) state success failure ↔ success [] state :=
  Iff.rfl

theorem ends_mapM_cons {action : β → EStateM ε σ α} {first : β} {rest : List β}
    {success : List α → σ → Prop} :
    Ends ((first :: rest).mapM action) state success failure ↔
      Ends (action first) state (fun value left =>
        Ends (rest.mapM action) left (fun values => success (value :: values)) failure)
        failure := by
  rw [List.mapM_cons, ends_bind]
  simp only [ends_bind, ends_pure]

@[simp] theorem ends_forM_nil {action : β → EStateM ε σ PUnit} {success : PUnit → σ → Prop} :
    Ends (List.forM [] action) state success failure ↔ success ⟨⟩ state :=
  Iff.rfl

theorem ends_forM_cons {action : β → EStateM ε σ PUnit} {first : β} {rest : List β}
    {success : PUnit → σ → Prop} :
    Ends (List.forM (first :: rest) action) state success failure ↔
      Ends (action first) state (fun _ left => Ends (rest.forM action) left success failure)
        failure :=
  ends_bind

theorem forM_map_eq {γ : Type} {list : List β} {change : β → γ} {action : β → EStateM ε σ PUnit}
    {other : γ → EStateM ε σ PUnit}
    (hsame : ∀ element ∈ list, action element = other (change element)) :
    list.forM action = (list.map change).forM other := by
  induction list with
  | nil => rfl
  | cons first rest induction =>
      rw [List.map_cons, List.forM, List.forM, hsame first List.mem_cons_self,
        induction fun element hmember => hsame element (List.mem_cons_of_mem _ hmember)]

theorem Ends.foldlM {list : List β} {action : α → β → EStateM ε σ α}
    (hstep : ∀ value, ∀ element ∈ list, ∀ state, success value state →
      Ends (action value element) state success failure) {first : α}
    (hfirst : success first state) : Ends (list.foldlM action first) state success failure := by
  induction list generalizing first state with
  | nil => exact hfirst
  | cons element rest induction =>
      rw [List.foldlM_cons, ends_bind]
      refine (hstep first element List.mem_cons_self state hfirst).mono (fun value left hleft => ?_)
        (fun _ _ hleft => hleft)
      exact induction (fun value' element' hmember =>
        hstep value' element' (List.mem_cons_of_mem _ hmember)) hleft

/-! Properties that survive. -/

def Keeps (property : σ → Prop) (action : EStateM ε σ α) : Prop :=
  ∀ state, property state → Ends action state (fun _ => property) (fun _ => property)

variable {property : σ → Prop}

theorem Keeps.after {action : EStateM ε σ α} (hkeeps : Keeps property action)
    (hstate : property state) : property (after action state) :=
  (hkeeps state hstate).after

theorem Keeps.of_after {action : EStateM ε σ α}
    (hafter : ∀ state, property state → property (Execution.after action state)) :
    Keeps property action := by
  intro state hstate
  have hleft := hafter state hstate
  unfold Execution.after at hleft
  unfold Ends
  cases hrun : action state with
  | ok value left =>
      rw [hrun] at hleft
      exact hleft
  | error error left =>
      rw [hrun] at hleft
      exact hleft

theorem Keeps.pure (value : α) : Keeps property (pure value : EStateM ε σ α) :=
  fun _ hstate => hstate

theorem Keeps.throw (error : ε) : Keeps property (throw error : EStateM ε σ α) :=
  fun _ hstate => hstate

theorem Keeps.modify {change : σ → σ}
    (hchange : ∀ state, property state → property (change state)) :
    Keeps property (modify change : EStateM ε σ PUnit) :=
  fun state hstate => hchange state hstate

theorem Keeps.bind {action : EStateM ε σ β} {next : β → EStateM ε σ α}
    (haction : Keeps property action) (hnext : ∀ value, Keeps property (next value)) :
    Keeps property (action >>= next) := by
  intro state hstate
  rw [ends_bind]
  exact (haction state hstate).mono (fun value left hleft => hnext value left hleft)
    (fun _ _ hleft => hleft)

/-- What follows a look at the state may use what holds there. -/
theorem Keeps.get_bind {next : σ → EStateM ε σ α}
    (hnext : ∀ state, property state →
      Ends (next state) state (fun _ => property) (fun _ => property)) :
    Keeps property (get >>= next) := by
  intro state hstate
  rw [ends_bind]
  exact hnext state hstate

theorem Keeps.discard {action : EStateM ε σ α} (haction : Keeps property action) :
    Keeps property (discard action) := by
  intro state hstate
  rw [ends_discard]
  exact haction state hstate

theorem Keeps.tryCatch {action : EStateM ε σ α} {handler : ε → EStateM ε σ α}
    (haction : Keeps property action) (hhandler : ∀ error, Keeps property (handler error)) :
    Keeps property (tryCatch action handler) := by
  intro state hstate
  rw [ends_tryCatch]
  exact (haction state hstate).mono (fun _ _ hleft => hleft)
    (fun error left hleft => hhandler error left hleft)

theorem Keeps.forM {list : List β} {action : β → EStateM ε σ PUnit}
    (haction : ∀ element ∈ list, Keeps property (action element)) :
    Keeps property (list.forM action) := by
  induction list with
  | nil => exact Keeps.pure _
  | cons first rest induction =>
      refine Keeps.bind (haction first List.mem_cons_self) fun _ => ?_
      exact induction fun element hmember => haction element (List.mem_cons_of_mem _ hmember)

theorem Keeps.foldlM {list : List β} {action : α → β → EStateM ε σ α} (first : α)
    (haction : ∀ value, ∀ element ∈ list, Keeps property (action value element)) :
    Keeps property (list.foldlM action first) :=
  fun _ hstate => Ends.foldlM (fun value element hmember state hleft =>
    haction value element hmember state hleft) hstate

/-! Actions that return from whatever state. -/

def Returns (action : EStateM ε σ α) : Prop :=
  ∀ state, Ends action state (fun _ _ => True) (fun _ _ => False)

theorem Returns.exists_ok {action : EStateM ε σ α} (hreturns : Returns action) (state : σ) :
    ∃ value left, action state = .ok value left := by
  have hends := hreturns state
  unfold Ends at hends
  cases hrun : action state with
  | ok value left => exact ⟨value, left, rfl⟩
  | error error left =>
      rw [hrun] at hends
      exact hends.elim

theorem Returns.pure (value : α) : Returns (pure value : EStateM ε σ α) := fun _ => trivial

theorem Returns.bind {action : EStateM ε σ β} {next : β → EStateM ε σ α}
    (haction : Returns action) (hnext : ∀ value, Returns (next value)) :
    Returns (action >>= next) := by
  intro state
  rw [ends_bind]
  exact (haction state).mono (fun value left _ => hnext value left) (fun _ _ hfalse => hfalse)

theorem Returns.ends_bind {action : EStateM ε σ β} {next : β → EStateM ε σ α}
    (haction : Returns action)
    (hnext : ∀ value left, Ends (next value) left success failure) :
    Ends (action >>= next) state success failure := by
  rw [Execution.ends_bind]
  exact (haction state).mono (fun value left _ => hnext value left) (fun _ _ hfalse => hfalse.elim)

theorem Returns.forM {list : List β} {action : β → EStateM ε σ PUnit}
    (haction : ∀ element ∈ list, Returns (action element)) : Returns (list.forM action) := by
  induction list with
  | nil => exact Returns.pure _
  | cons first rest induction =>
      refine Returns.bind (haction first List.mem_cons_self) fun _ => induction ?_
      exact fun element hmember => haction element (List.mem_cons_of_mem _ hmember)

theorem Returns.mapM {list : List β} {action : β → EStateM ε σ α}
    (haction : ∀ element ∈ list, Returns (action element)) : Returns (list.mapM action) := by
  induction list with
  | nil => exact Returns.pure _
  | cons first rest induction =>
      rw [List.mapM_cons]
      refine Returns.bind (haction first List.mem_cons_self) fun value => ?_
      refine Returns.bind (induction fun element hmember =>
        haction element (List.mem_cons_of_mem _ hmember)) fun values => ?_
      exact Returns.pure _

end Execution

end TiledPlacement
