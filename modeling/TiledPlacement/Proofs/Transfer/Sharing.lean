import Mathlib.Algebra.BigOperators.Group.List.Basic
import TiledPlacement.Proofs.Transfer.Legs

/-!
Fair shares. The segments of one round end before those of the next begin, so at one instant only
one round has segments, and its transfers on a hop split the bandwidth of the hop evenly.
-/

namespace TiledPlacement

namespace Simulation

variable {simulation next : Simulation Rat} {plan : Plan} {edges : List EdgeId}

/-- The segments on a hop at an instant. -/
def active (simulation : Simulation Rat) (hop : Hop) (time : Rat) : List (Segment Rat) :=
  simulation.trace.filter fun segment =>
    decide (segment.link.hop = hop) && Quantity.isAtMost segment.start time &&
      Quantity.isLess time segment.stop

theorem mem_active_iff {hop : Hop} {time : Rat} {segment : Segment Rat} :
    segment ∈ simulation.active hop time ↔
      segment ∈ simulation.trace ∧ segment.link.hop = hop ∧ segment.start ≤ time ∧
        time < segment.stop := by
  rw [active, List.mem_filter, Bool.and_eq_true, Bool.and_eq_true, decide_eq_true_eq,
    Quantity.isAtMost_iff, Quantity.isLess_iff, and_assoc]

theorem load_eq (simulation : Simulation Rat) (hop : Hop) (time : Rat) :
    simulation.load hop time = ((simulation.active hop time).map (·.rate)).sum := by
  rw [List.sum_eq_foldl, List.foldl_map]
  rfl

/-- Segments are of the past, and those that are active on a hop together split its bandwidth. -/
structure Fair (simulation : Simulation Rat) : Prop where
  past : ∀ segment ∈ simulation.trace, ∀ event ∈ simulation.queue, segment.stop ≤ event.time
  shares : ∀ hop time segment, segment ∈ simulation.active hop time →
    ∃ link, simulation.link hop = .ok link ∧
      segment.rate = link.bandwidth / (simulation.active hop time).length

theorem fair_of_no_trace (htrace : simulation.trace = []) : simulation.Fair where
  past := by
    intro segment hsegment
    rw [htrace] at hsegment
    cases hsegment
  shares := by
    intro hop time segment hsegment
    have hmember := (mem_active_iff.mp hsegment).1
    rw [htrace] at hmember
    cases hmember

theorem Fair.of_arrival (hfair : simulation.Fair) {time : Rat}
    (harrival : simulation.Arrival edges time next) : next.Fair where
  past := by
    intro segment hsegment event hevent
    rw [harrival.trace] at hsegment
    exact hfair.past segment hsegment event
      (harrival.queue.mem_iff.mpr (List.mem_append_right _ hevent))
  shares := by
    intro hop time segment hsegment
    rw [link_congr harrival.bandwidths]
    simp only [active, harrival.trace] at hsegment ⊢
    exact hfair.shares hop time segment hsegment

theorem Fair.stop_le_start (hfair : simulation.Fair) (hplans : simulation.Plans plan)
    {segment : Segment Rat} (hsegment : segment ∈ simulation.trace) :
    segment.stop ≤ plan.start := by
  obtain ⟨first, rest, hqueue, htime⟩ := hplans.first
  exact htime ▸ hfair.past segment hsegment first (hqueue ▸ List.mem_cons_self)

theorem Passage.active_before (hpassage : simulation.Passage plan edges next) {hop : Hop}
    {time : Rat} (htime : time < plan.start) :
    next.active hop time = simulation.active hop time := by
  unfold active
  rw [hpassage.trace, List.filter_append, List.append_right_eq_self, List.filter_eq_nil_iff]
  intro segment hsegment hactive
  obtain ⟨leg, -, rfl⟩ := List.mem_map.mp hsegment
  rw [Bool.and_eq_true, Bool.and_eq_true, Quantity.isAtMost_iff] at hactive
  exact absurd hactive.1.2 (not_le.mpr htime)

/-- While a round lasts it has one segment for each of its transfers on a hop. -/
theorem Fair.length_active (hfair : simulation.Fair) (hplans : simulation.Plans plan)
    (hpassage : simulation.Passage plan edges next) {hop : Hop} {time : Rat}
    (hstart : plan.start ≤ time) (hdeadline : time < plan.deadline) :
    (next.active hop time).length = (plan.legs.map (·.link.hop)).count hop := by
  have hlast : Quantity.isAtMost plan.start time = true := Quantity.isAtMost_iff.mpr hstart
  have hless : Quantity.isLess time plan.deadline = true := Quantity.isLess_iff.mpr hdeadline
  have hnone : simulation.active hop time = [] := by
    rw [List.eq_nil_iff_forall_not_mem]
    intro segment hsegment
    obtain ⟨hsegment, -, -, hlasts⟩ := mem_active_iff.mp hsegment
    exact absurd (hfair.stop_le_start hplans hsegment) (not_le.mpr (hstart.trans_lt hlasts))
  have hnew : next.active hop time =
      (plan.legs.filter fun leg => decide (leg.link.hop = hop)).map
        (·.segment plan.start plan.deadline) := by
    unfold active at hnone ⊢
    rw [hpassage.trace, List.filter_append, hnone, List.nil_append, List.filter_map]
    congr 1
    apply List.filter_congr
    intro leg _
    simp only [Function.comp_apply, Leg.segment, hlast, hless, Bool.and_true]
  rw [hnew, List.length_map, List.count_eq_countP, List.countP_map, List.countP_eq_length_filter]
  rfl

theorem Fair.of_passage (hfair : simulation.Fair) (hplans : simulation.Plans plan)
    (hpassage : simulation.Passage plan edges next) : next.Fair := by
  constructor
  case past =>
    intro segment hsegment event hevent
    have hnext := hpassage.le_next hplans event hevent
    rw [hpassage.trace] at hsegment
    rcases List.mem_append.mp hsegment with hbefore | hnew
    · exact ((hfair.stop_le_start hplans hbefore).trans hplans.start_lt.le).trans hnext
    · obtain ⟨leg, -, rfl⟩ := List.mem_map.mp hnew
      exact hnext
  case shares =>
    intro hop time segment hsegment
    rw [link_congr hpassage.bandwidths]
    -- Older segments have stopped when the round starts, so they share nothing with its own.
    by_cases hstart : plan.start ≤ time
    · obtain ⟨hmember, hhop, -, hlasts⟩ := mem_active_iff.mp hsegment
      rw [hpassage.trace] at hmember
      rcases List.mem_append.mp hmember with hbefore | hnew
      · exact absurd (hfair.stop_le_start hplans hbefore)
          (not_le.mpr (hstart.trans_lt hlasts))
      · obtain ⟨leg, hleg, rfl⟩ := List.mem_map.mp hnew
        have hplots := hplans.plots leg hleg
        refine ⟨leg.link, hhop ▸ hplots.bandwidth, ?_⟩
        rw [hfair.length_active hplans hpassage hstart hlasts]
        exact hhop ▸ hplots.share
    · have hbefore := @Passage.active_before _ _ _ _ hpassage hop time (not_le.mp hstart)
      rw [hbefore] at hsegment ⊢
      exact hfair.shares hop time segment hsegment

theorem Runs.fair {origin : Simulation Rat} (hruns : origin.Runs simulation)
    (hsane : origin.Sane) (hfair : origin.Fair) : simulation.Fair := by
  apply hruns.induct hsane
  case start => exact hfair
  case arrival =>
    intro simulation edges time next _ harrival hfair
    exact hfair.of_arrival harrival
  case passage =>
    intro simulation plan edges next _ hsane hpassage hfair
    exact hfair.of_passage (hsane.plans hpassage.plan?) hpassage

/-- The load of a hop is its bandwidth while it is in use. -/
theorem Fair.load (hfair : simulation.Fair) (hop : Hop) (time : Rat) :
    simulation.active hop time = [] ∧ simulation.load hop time = 0 ∨
      ∃ link, simulation.link hop = .ok link ∧ simulation.load hop time = link.bandwidth ∧
        ∀ segment ∈ simulation.active hop time,
          segment.rate = link.bandwidth / (simulation.active hop time).length := by
  rw [load_eq]
  cases hactive : simulation.active hop time with
  | nil => exact Or.inl ⟨rfl, rfl⟩
  | cons first rest =>
      have hfirst : first ∈ simulation.active hop time := hactive ▸ List.mem_cons_self
      obtain ⟨link, hlink, -⟩ := hfair.shares hop time first hfirst
      have hrates : ∀ segment ∈ simulation.active hop time,
          segment.rate = link.bandwidth / (simulation.active hop time).length := by
        intro segment hsegment
        obtain ⟨other, hother, hrate⟩ := hfair.shares hop time segment hsegment
        cases hlink.symm.trans hother
        exact hrate
      rw [← hactive]
      refine Or.inr ⟨link, hlink, ?_, hrates⟩
      have hcount : ((simulation.active hop time).length : Rat) ≠ 0 :=
        Nat.cast_ne_zero.mpr (List.length_pos_of_mem hfirst).ne'
      rw [List.map_congr_left hrates, List.map_const', List.sum_replicate, nsmul_eq_mul]
      field_simp

end Simulation

end TiledPlacement
