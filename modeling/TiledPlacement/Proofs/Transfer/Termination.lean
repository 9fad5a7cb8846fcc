import Mathlib.Algebra.Order.BigOperators.Group.List
import Mathlib.Data.List.Count
import TiledPlacement.Proofs.Transfer.Legs

/-!
Simulations end in exact arithmetic. In a round that completes nothing some transfer gets through a
hop, or the transfers of the round catch up with another one; there are only so many hops left, and
only so many transfers that are ready later.
-/

namespace TiledPlacement

namespace Simulation

variable {simulation next : Simulation Rat} {plan : Plan} {edges : List EdgeId}

def hopsLeft (simulation : Simulation Rat) (edge : EdgeId) : Nat :=
  (simulation.transfer? edge).elim 0 fun transfer => transfer.hops.length - transfer.next

/-- Hops that the transfers in the queue have still to cross. -/
def workLeft (simulation : Simulation Rat) : Nat :=
  (simulation.queue.map fun event => simulation.hopsLeft event.edge).sum

/-- Events that the first one in the queue does not share its time with. -/
def waiting (simulation : Simulation Rat) : Nat :=
  simulation.queue.countP fun event =>
    simulation.queue.head?.any fun first => decide (first.time < event.time)

/-- A bound on the rounds until the next completion. -/
def roundsLeft (simulation : Simulation Rat) : Nat :=
  simulation.workLeft * (simulation.queue.length + 1) + simulation.waiting

/-- Rounds that are enough for each call until the queue is empty. -/
def allowance (simulation : Simulation Rat) : Nat :=
  (simulation.workLeft + 1) * (simulation.queue.length + 1)

theorem roundsLeft_lt_allowance (simulation : Simulation Rat) :
    simulation.roundsLeft < simulation.allowance := by
  unfold roundsLeft allowance
  rw [Nat.succ_mul]
  exact Nat.add_lt_add_left (Nat.lt_succ_of_le List.countP_le_length) _

theorem waiting_of_first {first : Event Rat} {rest : List (Event Rat)}
    (hqueue : simulation.queue = first :: rest) :
    simulation.waiting = simulation.queue.countP fun event => decide (first.time < event.time) := by
  unfold waiting
  rw [hqueue]
  rfl

theorem Plans.waiting_eq (hplans : simulation.Plans plan) :
    simulation.waiting = plan.later.length := by
  obtain ⟨first, rest, hqueue, htime⟩ := hplans.first
  rw [waiting_of_first hqueue, htime, hplans.queue.countP_eq, List.countP_append]
  have hready : (plan.legs.map fun leg => (⟨plan.start, leg.edge⟩ : Event Rat)).countP
      (fun event => decide (plan.start < event.time)) = 0 := by
    rw [List.countP_eq_zero]
    intro event hevent
    obtain ⟨leg, -, rfl⟩ := List.mem_map.mp hevent
    exact fun hless => lt_irrefl plan.start (of_decide_eq_true hless)
  have hlater : plan.later.countP (fun event => decide (plan.start < event.time)) =
      plan.later.length :=
    List.countP_eq_length.mpr fun event hevent => decide_eq_true (hplans.later_lt event hevent)
  rw [hready, hlater, Nat.zero_add]

theorem Plans.workLeft_eq (hplans : simulation.Plans plan) :
    simulation.workLeft = (plan.legs.map fun leg => simulation.hopsLeft leg.edge).sum +
      (plan.later.map fun event => simulation.hopsLeft event.edge).sum := by
  have hperm := (hplans.queue.map fun event => simulation.hopsLeft event.edge).sum_eq
  rwa [List.map_append, List.sum_append, List.map_map] at hperm

section Passage

variable (hsane : simulation.Sane) (hpassage : simulation.Passage plan edges next)
include hsane hpassage

theorem Sane.hopsLeft_later {event : Event Rat} (hevent : event ∈ plan.later) :
    next.hopsLeft event.edge = simulation.hopsLeft event.edge := by
  have hperm := (hsane.plans hpassage.plan?).queue.map (·.edge)
  rw [List.map_append, List.map_map] at hperm
  have hnodup := List.nodup_append.mp (hperm.nodup_iff.mp hsane.sound.queue.nodup)
  have hother : event.edge ∉ plan.legs.map (·.edge) := fun hmember =>
    hnodup.2.2 event.edge hmember event.edge (List.mem_map_of_mem hevent) rfl
  rw [hopsLeft, hpassage.kept _ hother, hopsLeft]

theorem Sane.hopsLeft_leg {leg : Leg Rat} (hleg : leg ∈ plan.legs) :
    next.hopsLeft leg.edge + (if leg.isThrough plan.deadline = true then 1 else 0) =
      simulation.hopsLeft leg.edge := by
  have hplots := (hsane.plans hpassage.plan?).plots leg hleg
  have hhop : leg.transfer.next < leg.transfer.hops.length :=
    (List.getElem?_eq_some_iff.mp hplots.link).1
  obtain ⟨transfer, htransfer, hhops, -, hnext, -⟩ := hpassage.of_leg hleg
  rw [hopsLeft, hopsLeft, htransfer, hplots.transfer, Option.elim_some, Option.elim_some, hhops,
    hnext, Leg.next_advance]
  split <;> omega

theorem Sane.hopsLeft_le :
    ∀ leg ∈ plan.legs, next.hopsLeft leg.edge ≤ simulation.hopsLeft leg.edge :=
  fun _ hleg => Nat.le_of_add_right_le (Nat.le_of_eq (hsane.hopsLeft_leg hpassage hleg))

theorem Sane.workLeft_passage :
    next.workLeft + ((plan.legs.filter (·.isFinished plan.deadline)).map
        fun leg => next.hopsLeft leg.edge).sum =
      (plan.legs.map fun leg => next.hopsLeft leg.edge).sum +
        (plan.later.map fun event => simulation.hopsLeft event.edge).sum := by
  have hqueue : next.workLeft = ((plan.legs.filter fun leg => !leg.isFinished plan.deadline).map
      fun leg => next.hopsLeft leg.edge).sum +
        (plan.later.map fun event => next.hopsLeft event.edge).sum := by
    have hperm := (hpassage.queue.map fun event => next.hopsLeft event.edge).sum_eq
    rwa [List.map_append, List.sum_append, List.map_map] at hperm
  have hlegs := ((List.filter_append_perm (fun leg : Leg Rat => leg.isFinished plan.deadline)
    plan.legs).map fun leg => next.hopsLeft leg.edge).sum_eq
  have hlater : ∀ event ∈ plan.later,
      next.hopsLeft event.edge = simulation.hopsLeft event.edge :=
    fun _ hevent => hsane.hopsLeft_later hpassage hevent
  rw [List.map_append, List.sum_append] at hlegs
  rw [← List.map_congr_left hlater, ← hlegs, hqueue]
  omega

theorem Sane.workLeft_passage_le : next.workLeft ≤ simulation.workLeft := by
  have hpassed := hsane.workLeft_passage hpassage
  have hlegs := List.sum_le_sum (hsane.hopsLeft_le hpassage)
  rw [(hsane.plans hpassage.plan?).workLeft_eq]
  omega

theorem Sane.workLeft_passage_lt {leg : Leg Rat} (hleg : leg ∈ plan.legs)
    (hthrough : leg.isThrough plan.deadline = true) : next.workLeft < simulation.workLeft := by
  have hpassed := hsane.workLeft_passage hpassage
  have hless : next.hopsLeft leg.edge < simulation.hopsLeft leg.edge := by
    have hcrossed := hsane.hopsLeft_leg hpassage hleg
    rw [if_pos hthrough] at hcrossed
    omega
  have hlegs := List.sum_lt_sum _ _ (hsane.hopsLeft_le hpassage) ⟨leg, hleg, hless⟩
  rw [(hsane.plans hpassage.plan?).workLeft_eq]
  omega

theorem Sane.length_passage : next.queue.length + edges.length = simulation.queue.length := by
  have hlegs := (List.filter_append_perm (fun leg : Leg Rat => leg.isFinished plan.deadline)
    plan.legs).length_eq
  rw [hpassage.queue.length_eq, hpassage.edges.length_eq,
    (hsane.plans hpassage.plan?).queue.length_eq]
  simp only [List.length_append, List.length_map] at hlegs ⊢
  omega

/-- If no leg gets through its hop, then those of the round are back when another one is ready. -/
theorem Sane.waiting_passage (hnone : ∀ leg ∈ plan.legs, ¬leg.isThrough plan.deadline = true) :
    next.waiting < simulation.waiting := by
  have hplans := hsane.plans hpassage.plan?
  obtain ⟨event, hevent, htime⟩ : ∃ event ∈ plan.later, event.time = plan.deadline := by
    rcases hplans.attained with ⟨leg, hleg, hfinish⟩ | hlater
    · exact absurd (Leg.isThrough_of_finish_le hfinish.le) (hnone leg hleg)
    · exact hlater
  -- No event that comes back waits now, nor does the one that the deadline has reached.
  have hleast : ∀ event ∈ next.queue, plan.deadline ≤ event.time := hpassage.le_next hplans
  calc
    next.waiting ≤ next.queue.countP fun event => decide (plan.deadline < event.time) := by
      unfold waiting
      apply List.countP_mono_left
      intro event hevent hless
      obtain ⟨first, hfirst, hless⟩ := (Option.any_eq_true _ _).mp hless
      have hfirst := hleast first (List.mem_of_head? hfirst)
      exact decide_eq_true (hfirst.trans_lt (of_decide_eq_true hless))
    _ = plan.later.countP fun event => decide (plan.deadline < event.time) := by
      rw [hpassage.queue.countP_eq, List.countP_append]
      apply Nat.add_eq_right.mpr
      rw [List.countP_eq_zero]
      intro event hevent
      obtain ⟨leg, -, rfl⟩ := List.mem_map.mp hevent
      exact fun hless => lt_irrefl plan.deadline (of_decide_eq_true hless)
    _ < plan.later.length :=
      List.countP_lt_length_iff.mpr ⟨event, hevent, decide_eq_false (htime ▸ lt_irrefl _)⟩
    _ = simulation.waiting := hplans.waiting_eq.symm

theorem Sane.roundsLeft_passage (hnone : edges = []) :
    next.roundsLeft < simulation.roundsLeft := by
  have hlength := hsane.length_passage hpassage
  rw [hnone, List.length_nil, Nat.add_zero] at hlength
  unfold roundsLeft
  rw [hlength]
  -- One hop less outweighs however many events wait after the round.
  by_cases hthrough : ∃ leg ∈ plan.legs, leg.isThrough plan.deadline = true
  · obtain ⟨leg, hleg, hthrough⟩ := hthrough
    have hwork := hsane.workLeft_passage_lt hpassage hleg hthrough
    have hwaiting : next.waiting ≤ simulation.queue.length :=
      hlength ▸ List.countP_le_length
    have hproduct := Nat.mul_le_mul_right (simulation.queue.length + 1) (Nat.succ_le_of_lt hwork)
    rw [Nat.succ_mul] at hproduct
    omega
  · have hwaiting := hsane.waiting_passage hpassage fun leg hleg hleading =>
      hthrough ⟨leg, hleg, hleading⟩
    have hproduct := Nat.mul_le_mul_right (simulation.queue.length + 1)
      (hsane.workLeft_passage_le hpassage)
    omega

end Passage

theorem Arrival.hopsLeft {time : Rat} (harrival : simulation.Arrival edges time next)
    (edge : EdgeId) : next.hopsLeft edge = simulation.hopsLeft edge := by
  unfold Simulation.hopsLeft
  rw [harrival.transfer?]
  split
  · cases simulation.transfer? edge <;> rfl
  · rfl

/-! Calls of rounds. -/

/-- What a round or a call that completes transfers at a time leaves to be done. -/
structure Reduces (simulation : Simulation Rat) (time : Rat) (next : Simulation Rat) : Prop where
  sane : next.Sane
  workLeft : next.workLeft ≤ simulation.workLeft
  length : next.queue.length < simulation.queue.length
  since : ∀ event ∈ next.queue, time ≤ event.time
  after : ∀ least, (∀ event ∈ simulation.queue, least ≤ event.time) → least ≤ time

theorem Plans.least_le (hplans : simulation.Plans plan) {least : Rat}
    (hleast : ∀ event ∈ simulation.queue, least ≤ event.time) : least ≤ plan.deadline := by
  obtain ⟨first, rest, hqueue, htime⟩ := hplans.first
  have hstart := hleast first (hqueue ▸ List.mem_cons_self)
  exact (htime ▸ hstart).trans hplans.start_lt.le

theorem Sane.reduces (hsane : simulation.Sane) {time : Rat}
    (hround : simulation.round = .completed edges time next) : simulation.Reduces time next := by
  have hturned := hsane.sound.turned
  rw [hround] at hturned
  have hnonempty : edges ≠ [] := by
    cases hturned with
    | completed hcompletes _ => exact hcompletes.nonempty
  have hsome := List.length_pos_iff.mpr hnonempty
  obtain ⟨hcompleted, hnext⟩ := hsane.completed hround
  constructor
  case sane => exact hnext
  all_goals
    rcases hcompleted with harrival | ⟨plan, hpassage, rfl⟩
  case workLeft.inl =>
    have hperm := (harrival.queue.map fun event => simulation.hopsLeft event.edge).sum_eq
    rw [List.map_append, List.sum_append] at hperm
    unfold Simulation.workLeft
    simp only [harrival.hopsLeft]
    omega
  case workLeft.inr => exact hsane.workLeft_passage_le hpassage
  case length.inl =>
    have hlength := harrival.queue.length_eq
    rw [List.length_append, List.length_map] at hlength
    omega
  case length.inr =>
    have hlength := hsane.length_passage hpassage
    omega
  case since.inl =>
    intro event hevent
    exact harrival.first event (harrival.queue.mem_iff.mpr (List.mem_append_right _ hevent))
  case since.inr => exact hpassage.le_next (hsane.plans hpassage.plan?)
  case after.inl =>
    intro least hleast
    obtain ⟨edge, hedge⟩ := List.exists_mem_of_ne_nil edges hnonempty
    exact hleast ⟨time, edge⟩ (harrival.queue.mem_iff.mpr
      (List.mem_append_left _ (List.mem_map_of_mem hedge)))
  case after.inr => exact fun least hleast => (hsane.plans hpassage.plan?).least_le hleast

theorem Sane.reduces_evaluate (hsane : simulation.Sane) {limit : Nat} {time : Rat}
    (hevaluate : simulation.evaluate limit = some (.completed edges time, next)) :
    simulation.Reduces time next := by
  induction limit generalizing simulation with
  | zero => cases hevaluate
  | succ limit induction =>
      unfold evaluate at hevaluate
      split at hevaluate
      case h_1 => cases hevaluate
      case h_2 hround =>
        cases hevaluate
        exact hsane.reduces hround
      case h_3 middle hround =>
        obtain ⟨plan, hpassage, hmiddle⟩ := hsane.advanced hround
        have hplans := hsane.plans hpassage.plan?
        have hreduces := induction hmiddle hevaluate
        constructor
        case sane => exact hreduces.sane
        case workLeft => exact hreduces.workLeft.trans (hsane.workLeft_passage_le hpassage)
        case length => exact hreduces.length.trans_eq (hsane.length_passage hpassage)
        case since => exact hreduces.since
        case after =>
          intro least hleast
          apply hreduces.after
          intro event hevent
          exact (hplans.least_le hleast).trans (hpassage.le_next hplans event hevent)

theorem Sane.exists_evaluate (hsane : simulation.Sane) {limit : Nat}
    (hlimit : simulation.roundsLeft < limit) :
    ∃ result, simulation.evaluate limit = some result := by
  induction limit generalizing simulation with
  | zero => exact absurd hlimit (Nat.not_lt_zero _)
  | succ limit induction =>
      unfold evaluate
      cases hround : simulation.round with
      | idle => exact ⟨_, rfl⟩
      | completed edges time next => exact ⟨_, rfl⟩
      | advanced next =>
          obtain ⟨plan, hpassage, hnext⟩ := hsane.advanced hround
          have hfewer := hsane.roundsLeft_passage hpassage rfl
          exact induction hnext (hfewer.trans_le (Nat.le_of_lt_succ hlimit))

/-- Everything about a run to completion: each unfinished transfer completes once, in the order of
time, and none is left. -/
structure Finishes (simulation : Simulation Rat) (completions : List (EdgeId × Rat))
    (last : Simulation Rat) : Prop where
  sound : last.Sound
  queue : last.queue = []
  ordered : completions.Pairwise fun earlier later => earlier.2 ≤ later.2
  after : ∀ least, (∀ event ∈ simulation.queue, least ≤ event.time) →
    ∀ completion ∈ completions, least ≤ completion.2
  nodup : (completions.map Prod.fst).Nodup
  due : ∀ completion ∈ completions, simulation.outcome? completion.1 = some none
  finish : ∀ completion ∈ completions, last.outcome? completion.1 = some (some completion.2)
  kept : ∀ edge, edge ∉ completions.map Prod.fst → last.outcome? edge = simulation.outcome? edge

theorem Finishes.mem_iff {last : Simulation Rat} {completions : List (EdgeId × Rat)}
    (hfinishes : simulation.Finishes completions last) (edge : EdgeId) :
    edge ∈ completions.map Prod.fst ↔ simulation.outcome? edge = some none := by
  constructor
  · intro hmember
    obtain ⟨completion, hcompletion, rfl⟩ := List.mem_map.mp hmember
    exact hfinishes.due completion hcompletion
  · intro hunfinished
    by_contra hother
    have hqueued := (hfinishes.sound.queue.mem_iff edge).mpr
      ((hfinishes.kept edge hother).trans hunfinished)
    rw [hfinishes.queue] at hqueued
    cases hqueued

theorem Finishes.idle {last : Simulation Rat} (hsound : last.Sound) (hqueue : last.queue = [])
    (houtcome : ∀ edge, last.outcome? edge = simulation.outcome? edge) :
    simulation.Finishes [] last where
  sound := hsound
  queue := hqueue
  ordered := List.Pairwise.nil
  after := fun _ _ _ hmember => absurd hmember List.not_mem_nil
  nodup := List.nodup_nil
  due := fun _ hmember => absurd hmember List.not_mem_nil
  finish := fun _ hmember => absurd hmember List.not_mem_nil
  kept := fun edge _ => houtcome edge

theorem Finishes.call {last : Simulation Rat} {later : List (EdgeId × Rat)} {time : Rat}
    (hfinishes : next.Finishes later last) (hcompletes : simulation.Completes edges time next)
    (hreduces : simulation.Reduces time next) :
    simulation.Finishes (edges.map (fun edge => (edge, time)) ++ later) last := by
  have hedges : (edges.map fun edge => (edge, time)).map Prod.fst = edges := by
    rw [List.map_map, Function.comp_def]
    exact List.map_id edges
  have hlater := hfinishes.after time hreduces.since
  have hapart : ∀ edge ∈ edges, edge ∉ later.map Prod.fst := by
    intro edge hedge hmember
    have hdue := (hfinishes.mem_iff edge).mp hmember
    rw [hcompletes.outcome, if_pos hedge] at hdue
    cases hdue
  constructor
  case sound => exact hfinishes.sound
  case queue => exact hfinishes.queue
  case ordered =>
    apply List.pairwise_append.mpr
    refine ⟨?_, hfinishes.ordered, ?_⟩
    · rw [List.pairwise_map]
      exact List.pairwise_of_forall fun _ _ => le_rfl
    · intro earlier hearlier completion hcompletion
      obtain ⟨edge, -, rfl⟩ := List.mem_map.mp hearlier
      exact hlater completion hcompletion
  case after =>
    intro least hleast completion hcompletion
    have htime := hreduces.after least hleast
    rcases List.mem_append.mp hcompletion with hnow | hrest
    · obtain ⟨edge, -, rfl⟩ := List.mem_map.mp hnow
      exact htime
    · exact htime.trans (hlater completion hrest)
  case nodup =>
    rw [List.map_append, hedges]
    apply List.nodup_append.mpr
    refine ⟨hcompletes.nodup, hfinishes.nodup, ?_⟩
    rintro edge hedge _ hmember rfl
    exact hapart edge hedge hmember
  case due =>
    intro completion hcompletion
    rcases List.mem_append.mp hcompletion with hnow | hrest
    · obtain ⟨edge, hedge, rfl⟩ := List.mem_map.mp hnow
      exact hcompletes.due edge hedge
    · have hdue := hfinishes.due completion hrest
      rw [hcompletes.outcome] at hdue
      split at hdue
      case isTrue => cases hdue
      case isFalse => exact hdue
  case finish =>
    intro completion hcompletion
    rcases List.mem_append.mp hcompletion with hnow | hrest
    · obtain ⟨edge, hedge, rfl⟩ := List.mem_map.mp hnow
      exact (hfinishes.kept edge (hapart edge hedge)).trans
        ((hcompletes.outcome edge).trans (if_pos hedge))
    · exact hfinishes.finish completion hrest
  case kept =>
    intro edge hother
    rw [List.map_append, hedges, List.mem_append, not_or] at hother
    exact (hfinishes.kept edge hother.2).trans
      ((hcompletes.outcome edge).trans (if_neg hother.1))

theorem allowance_le {limit : Nat} {time : Rat} (hreduces : simulation.Reduces time next)
    (hlimit : simulation.allowance ≤ limit) : next.allowance ≤ limit := by
  refine Nat.le_trans (Nat.mul_le_mul ?_ ?_) hlimit
  · exact Nat.succ_le_succ hreduces.workLeft
  · exact Nat.succ_le_succ hreduces.length.le

theorem Sane.exists_runCalls (hsane : simulation.Sane) {limit calls : Nat}
    (hlimit : simulation.allowance ≤ limit) (hcalls : simulation.queue.length < calls) :
    ∃ completions last, simulation.runCalls limit calls = some (completions, last) ∧
      simulation.Finishes completions last := by
  induction calls generalizing simulation with
  | zero => exact absurd hcalls (Nat.not_lt_zero _)
  | succ calls induction =>
      obtain ⟨⟨evaluation, next⟩, hevaluate⟩ :=
        hsane.exists_evaluate (simulation.roundsLeft_lt_allowance.trans_le hlimit)
      have hevaluated := hsane.sound.evaluated hevaluate
      unfold runCalls
      rw [hevaluate]
      cases hevaluated with
      | idle hqueue houtcome hsound => exact ⟨[], next, rfl, .idle hsound hqueue houtcome⟩
      | completed hcompletes _ =>
          have hreduces := hsane.reduces_evaluate hevaluate
          have hfewer := hreduces.length.trans_le (Nat.le_of_lt_succ hcalls)
          obtain ⟨later, last, hlater, hfinishes⟩ :=
            induction hreduces.sane (allowance_le hreduces hlimit) hfewer
          refine ⟨_, last, ?_, hfinishes.call hcompletes hreduces⟩
          exact congrArg (Option.bind · _) hlater

theorem runCalls_of_le {limit more calls : Nat} (hmore : limit ≤ more)
    {result : List (EdgeId × Rat) × Simulation Rat}
    (hruns : simulation.runCalls limit calls = some result) :
    simulation.runCalls more calls = some result := by
  induction calls generalizing simulation result with
  | zero => cases hruns
  | succ calls induction =>
      unfold runCalls at hruns ⊢
      obtain ⟨⟨evaluation, next⟩, hevaluate, hruns⟩ := Option.bind_eq_some_iff.mp hruns
      rw [evaluate_of_le hmore hevaluate]
      cases evaluation with
      | idle => exact hruns
      | completed edges time =>
          obtain ⟨later, hlater, hruns⟩ := Option.bind_eq_some_iff.mp hruns
          exact (congrArg (Option.bind · _) (induction hlater)).trans hruns

theorem History.sane {accepted : List EdgeId} {returned : List (List EdgeId)}
    (hhistory : History simulation accepted returned) : simulation.Sane := by
  induction hhistory with
  | empty bandwidths => exact sane_empty bandwidths
  | added _ hadd induction => exact induction.add hadd
  | requeued _ hround induction => exact (Runs.advanced .none hround).sane induction
  | idle _ hevaluate induction => exact (Runs.none.evaluate hevaluate).sane induction
  | completed _ hevaluate induction => exact (Runs.none.evaluate hevaluate).sane induction

/-- In exact arithmetic every call ends, and a run to completion ends with an empty queue. It
returns each accepted transfer that no call has returned yet once, with its finish time, in the
order of these times. -/
theorem History.runs_to_completion {accepted : List EdgeId} {returned : List (List EdgeId)}
    (hhistory : History simulation accepted returned) :
    (∃ limit result, ∀ more, limit ≤ more → simulation.evaluate more = some result) ∧
      ∃ limit completions last,
        (∀ more, limit ≤ more → simulation.runToCompletion more = some (completions, last)) ∧
          last.queue = [] ∧
          completions.Pairwise (fun earlier later => earlier.2 ≤ later.2) ∧
          (returned.flatten ++ completions.map Prod.fst).Nodup ∧
          (∀ edge, edge ∈ returned.flatten ++ completions.map Prod.fst ↔ edge ∈ accepted) ∧
          ∀ edge time, (edge, time) ∈ completions → last.finish? edge = some time := by
  have hsane := hhistory.sane
  have hrecords := hhistory.records
  constructor
  · obtain ⟨result, hevaluate⟩ := hsane.exists_evaluate simulation.roundsLeft_lt_allowance
    exact ⟨_, result, fun more hmore => evaluate_of_le hmore hevaluate⟩
  · obtain ⟨completions, last, hruns, hfinishes⟩ :=
      hsane.exists_runCalls le_rfl (Nat.lt_succ_self simulation.queue.length)
    refine ⟨_, completions, last, fun more hmore => runCalls_of_le hmore hruns, hfinishes.queue,
      hfinishes.ordered, ?_, ?_, ?_⟩
    · apply List.nodup_append.mpr
      refine ⟨hrecords.nodup, hfinishes.nodup, ?_⟩
      rintro edge hreturned _ hmember rfl
      obtain ⟨time, hfinished⟩ := (hrecords.mem_iff edge).mp hreturned
      cases hfinished.symm.trans ((hfinishes.mem_iff edge).mp hmember)
    · intro edge
      rw [List.mem_append, hrecords.mem_iff, hfinishes.mem_iff, hrecords.mem_accepted_iff]
      cases simulation.outcome? edge with
      | none => simp
      | some finish => cases finish <;> simp
    · intro edge time hmember
      have hfinish := hfinishes.finish (edge, time) hmember
      obtain ⟨transfer, htransfer, hfinish⟩ := Option.map_eq_some_iff.mp hfinish
      rw [finish?, htransfer]
      exact hfinish

/-- The longer of the two transfers has the link to itself when the shorter one is through. -/
theorem History.runs_to_completion_sharedLink :
    ∃ simulation limit last, sharedLink = .ok simulation ∧ History simulation [⟨1⟩, ⟨0⟩] [] ∧
      (∀ more, limit ≤ more →
        simulation.runToCompletion more = some ([(⟨0⟩, 4), (⟨1⟩, 6)], last)) ∧
      last.queue = [] := by
  have hrun : (sharedLink.toOption.bind fun simulation =>
      (simulation.runToCompletion 4).map Prod.fst) = some [(⟨0⟩, 4), (⟨1⟩, 6)] := by
    decide +kernel
  obtain ⟨simulation, hshared, hrun⟩ := Option.bind_eq_some_iff.mp hrun
  obtain ⟨⟨_, last⟩, hrun, rfl⟩ := Option.map_eq_some_iff.mp hrun
  cases hload : sharedLink with
  | error fault =>
      rw [hload] at hshared
      cases hshared
  | ok loaded =>
      rw [hload] at hshared
      cases hshared
      obtain ⟨first, hfirst, hsecond⟩ := bind_eq_ok_iff.mp hload
      have hhistory : History simulation [⟨1⟩, ⟨0⟩] [] :=
        .added (.added (.empty [1, 1]) hfirst) hsecond
      obtain ⟨-, limit, completions, final, hruns, hqueue, -⟩ := hhistory.runs_to_completion
      have hsame := (hruns _ (Nat.le_max_left limit 4)).symm.trans
        (runCalls_of_le (Nat.le_max_right limit 4) hrun)
      cases hsame
      exact ⟨simulation, limit, last, rfl, hhistory, hruns, hqueue⟩

end Simulation

end TiledPlacement
