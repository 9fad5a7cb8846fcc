import Mathlib.Algebra.Order.Field.Rat
import Mathlib.Algebra.Order.Group.Abs
import Mathlib.Data.List.TakeWhile
import Mathlib.Tactic.Linarith
import TiledPlacement.Proofs.Transfer.Progress

/-!
Rounds in exact arithmetic. Times are ordered as numbers are, so a round takes the events of the
earliest time in the queue, and it ends after it has begun, no later than any transfer is through
its hop and no later than any other is ready.
-/

namespace TiledPlacement

namespace Quantity

theorem isLess_iff {left right : Rat} : isLess left right = true ↔ left < right :=
  decide_eq_true_iff

theorem isAtMost_iff {left right : Rat} : isAtMost left right = true ↔ left ≤ right :=
  decide_eq_true_iff

theorem order_eq_iff {left right : Rat} : order left right = .eq ↔ left = right :=
  compareOfLessAndEq_eq_eq le_refl not_le

theorem order_lt_iff {left right : Rat} : order left right = .lt ↔ left < right :=
  compareOfLessAndEq_eq_lt

theorem lesser_eq (left right : Rat) : lesser left right = min left right :=
  (min_comm right left).symm.trans (min_def_lt right left) |>.symm

theorem greater_eq (left right : Rat) : greater left right = max left right :=
  (max_def_lt left right).symm

theorem magnitude_eq (value : Rat) : magnitude value = |value| :=
  greater_eq value (-value)

theorem foldl_lesser_le (first : Rat) (times : List Rat) :
    times.foldl lesserRat first ≤ first ∧ ∀ time ∈ times, times.foldl lesserRat first ≤ time := by
  induction times generalizing first with
  | nil => exact ⟨le_rfl, fun time hmember => absurd hmember List.not_mem_nil⟩
  | cons time rest induction =>
      rw [List.foldl_cons]
      obtain ⟨hfirst, hrest⟩ := induction (lesserRat first time)
      rw [show lesserRat first time = min first time from lesser_eq first time] at hfirst hrest ⊢
      refine ⟨hfirst.trans (min_le_left first time), ?_⟩
      rintro other (_ | ⟨_, hmember⟩)
      · exact hfirst.trans (min_le_right first time)
      · exact hrest other hmember

theorem foldl_lesser_mem (first : Rat) (times : List Rat) :
    times.foldl lesserRat first ∈ first :: times := by
  induction times generalizing first with
  | nil => exact List.mem_singleton_self first
  | cons time rest induction =>
      rw [List.foldl_cons]
      rcases List.mem_cons.mp (induction (lesserRat first time)) with hfirst | hrest
      · rw [hfirst, lesserRat]
        split
        · exact List.mem_cons_of_mem _ List.mem_cons_self
        · exact List.mem_cons_self
      · exact List.mem_cons_of_mem _ (List.mem_cons_of_mem _ hrest)

theorem earliest_le {times : List Rat} {time : Rat} (hmember : time ∈ times) :
    earliest times ≤ time :=
  (foldl_lesser_le _ times).2 time hmember

theorem earliest_mem {times : List Rat} (hsome : times ≠ []) : earliest times ∈ times := by
  cases times with
  | nil => exact absurd rfl hsome
  | cons first rest =>
      rcases List.mem_cons.mp (foldl_lesser_mem first (first :: rest)) with hfirst | hmember
      · exact List.mem_cons.mpr (Or.inl hfirst)
      · exact hmember

end Quantity

namespace Event

theorem time_le_of_precedes {left right : Event Rat} (hprecedes : precedes left right = true) :
    left.time ≤ right.time := by
  rcases Ordering.isLE_then_iff_or.mp hprecedes with hless | ⟨hequal, -⟩
  · exact le_of_lt (Quantity.order_lt_iff.mp hless)
  · exact le_of_eq (Quantity.order_eq_iff.mp hequal)

theorem time_le_of_not_precedes {left right : Event Rat}
    (hprecedes : ¬precedes left right = true) : right.time ≤ left.time := by
  by_contra hless
  apply hprecedes
  exact Ordering.isLE_then_iff_or.mpr (Or.inl (Quantity.order_lt_iff.mpr (not_le.mp hless)))

def InOrder (events : List (Event Rat)) : Prop :=
  events.Pairwise fun earlier later => earlier.time ≤ later.time

theorem InOrder.insertSorted {events : List (Event Rat)} (horder : InOrder events)
    (event : Event Rat) : InOrder (insertSorted precedes event events) := by
  induction events with
  | nil => exact List.pairwise_singleton _ event
  | cons first rest induction =>
      obtain ⟨hfirst, hrest⟩ := List.pairwise_cons.mp horder
      unfold TiledPlacement.insertSorted
      split
      case isTrue hprecedes =>
        have hleading := time_le_of_precedes hprecedes
        apply List.pairwise_cons.mpr
        refine ⟨?_, horder⟩
        rintro other (_ | ⟨_, hmember⟩)
        · exact hleading
        · exact hleading.trans (hfirst other hmember)
      case isFalse hfollows =>
        apply List.pairwise_cons.mpr
        refine ⟨fun other hmember => ?_, induction hrest⟩
        rcases List.mem_cons.mp ((perm_insertSorted precedes event rest).mem_iff.mp hmember) with
          rfl | hmember
        · exact time_le_of_not_precedes hfollows
        · exact hfirst other hmember

theorem InOrder.foldl_insertSorted {β : Type} {events : List (Event Rat)} (horder : InOrder events)
    (make : β → Event Rat) (items : List β) :
    InOrder (items.foldl
      (fun list item => TiledPlacement.insertSorted precedes (make item) list) events) := by
  induction items generalizing events with
  | nil => exact horder
  | cons item rest induction => exact induction (horder.insertSorted (make item))

theorem isAt_iff {time : Rat} {event : Event Rat} :
    Simulation.isAt time event = true ↔ event.time = time := by
  rw [Simulation.isAt, beq_iff_eq]
  exact Quantity.order_eq_iff

theorem InOrder.split {first : Event Rat} {rest : List (Event Rat)}
    (horder : InOrder (first :: rest)) :
    (∀ event ∈ (first :: rest).takeWhile (Simulation.isAt first.time), event.time = first.time) ∧
      ∀ event ∈ (first :: rest).dropWhile (Simulation.isAt first.time),
        first.time < event.time := by
  constructor
  · intro event hevent
    exact isAt_iff.mp (List.mem_takeWhile_imp hevent)
  · generalize hevents : first :: rest = events at horder
    have hleast : ∀ event ∈ events, first.time ≤ event.time := by
      subst hevents
      rintro event (_ | ⟨_, hmember⟩)
      · exact le_rfl
      · exact (List.pairwise_cons.mp horder).1 event hmember
    clear hevents
    induction events with
    | nil => exact fun event hevent => absurd hevent List.not_mem_nil
    | cons head events induction =>
        obtain ⟨hhead, hevents⟩ := List.pairwise_cons.mp horder
        rw [List.dropWhile_cons]
        split
        case isTrue =>
          exact induction hevents fun event hevent => hleast event (List.mem_cons_of_mem _ hevent)
        case isFalse hlater =>
          have hlater : first.time < head.time :=
            lt_of_le_of_ne (hleast head List.mem_cons_self) fun hsame =>
              hlater (isAt_iff.mpr hsame.symm)
          rintro event (_ | ⟨_, hmember⟩)
          · exact hlater
          · exact hlater.trans_le (hhead event hmember)

end Event

end TiledPlacement
