import Mathlib.Tactic.FieldSimp
import Mathlib.Tactic.Ring
import TiledPlacement.Proofs.Transfer.History
import TiledPlacement.Proofs.Transfer.Plan

/-!
What a leg leads to in exact arithmetic, and the simulations that rounds lead to. A transfer that is
not through its hop at the deadline has bytes left there, so rounds keep a simulation sane.
-/

namespace TiledPlacement

namespace Leg

variable {leg : Leg Rat} {start deadline : Rat}

theorem isThrough_iff :
    leg.isThrough deadline = true ↔
      leg.finish - deadline ≤ 1 / 1000000000 * max |leg.finish| 1 := by
  rw [isThrough, Quantity.isAtMost_iff, Quantity.greater_eq, Quantity.magnitude_eq]
  exact Iff.rfl

theorem isThrough_of_finish_le (hfinish : leg.finish ≤ deadline) :
    leg.isThrough deadline = true := by
  have hslack : 0 ≤ 1 / 1000000000 * max |leg.finish| 1 :=
    mul_nonneg (by norm_num) (le_max_of_le_right zero_le_one)
  exact isThrough_iff.mpr ((sub_nonpos.mpr hfinish).trans hslack)

theorem hops_advance (leg : Leg Rat) (start deadline : Rat) :
    (leg.advance start deadline).hops = leg.transfer.hops := by
  unfold advance
  dsimp only
  split <;> rfl

theorem bytes_advance (leg : Leg Rat) (start deadline : Rat) :
    (leg.advance start deadline).bytes = leg.transfer.bytes := by
  unfold advance
  dsimp only
  split <;> rfl

theorem next_advance (leg : Leg Rat) (start deadline : Rat) :
    (leg.advance start deadline).next =
      if leg.isThrough deadline = true then leg.transfer.next + 1 else leg.transfer.next := by
  unfold advance
  dsimp only
  split <;> rfl

/-- Share of the bytes that are across when a leg ends before its hop does. -/
def across (leg : Leg Rat) (start deadline : Rat) : Rat :=
  leg.record.fraction + (deadline - start) * leg.share / leg.transfer.bytes

theorem record?_advance (leg : Leg Rat) (start deadline : Rat) (hop : Nat) :
    (leg.advance start deadline).record? hop =
      if hop = leg.transfer.next then
        some (if leg.isThrough deadline = true then
          { leg.record with stop := some deadline, fraction := 1 }
        else { leg.record with fraction := leg.across start deadline })
      else leg.transfer.record? hop := by
  unfold advance Transfer.record?
  dsimp only
  split <;>
    simp only [Std.ExtTreeMap.getElem?_insert, Std.LawfulEqCmp.compare_eq_iff_eq,
      @eq_comm _ leg.transfer.next hop] <;>
    rfl

end Leg

namespace Simulation

variable {simulation next : Simulation Rat} {plan : Plan} {leg : Leg Rat}

theorem Plots.bytes_left (hplots : simulation.Plots plan leg) (time : Rat) :
    leg.transfer.bytes - leg.transfer.bytes * leg.across plan.start time =
      (leg.finish - time) * leg.share := by
  have hbytes := hplots.bytes_pos.ne'
  have hshare := hplots.share_pos.ne'
  rw [hplots.finish, Leg.across]
  field_simp
  ring

theorem Plots.across_lt_one (hplots : simulation.Plots plan leg) {time : Rat}
    (htime : time < leg.finish) : leg.across plan.start time < 1 := by
  have hleft : 0 < (leg.finish - time) * leg.share :=
    mul_pos (sub_pos.mpr htime) hplots.share_pos
  rw [← hplots.bytes_left] at hleft
  have hless : leg.transfer.bytes * leg.across plan.start time < leg.transfer.bytes * 1 := by
    linarith
  exact lt_of_mul_lt_mul_left hless hplots.bytes_pos.le

theorem link_congr (hbandwidths : next.bandwidths = simulation.bandwidths) (hop : Hop) :
    next.link hop = simulation.link hop := by
  simp only [Simulation.link, hbandwidths]

theorem Passage.of_leg {edges : List EdgeId} (hpassage : simulation.Passage plan edges next)
    (hleg : leg ∈ plan.legs) :
    ∃ transfer, next.transfer? leg.edge = some transfer ∧ transfer.hops = leg.transfer.hops ∧
      transfer.bytes = leg.transfer.bytes ∧
      transfer.next = (leg.advance plan.start plan.deadline).next ∧
      transfer.record? = (leg.advance plan.start plan.deadline).record? ∧
      transfer.finish =
        if leg.isFinished plan.deadline = true then some plan.deadline
        else leg.transfer.finish := by
  refine ⟨_, hpassage.moved leg hleg, ?_⟩
  split
  · exact ⟨leg.hops_advance _ _, leg.bytes_advance _ _, rfl, rfl, rfl⟩
  · exact ⟨leg.hops_advance _ _, leg.bytes_advance _ _, rfl, rfl, leg.finish_advance _ _⟩

theorem Sane.passage_started (hsane : simulation.Sane) {edges : List EdgeId}
    (hpassage : simulation.Passage plan edges next) (hleg : leg ∈ plan.legs)
    {record : HopRecord Rat}
    (hrecord : (leg.advance plan.start plan.deadline).record?
      (leg.advance plan.start plan.deadline).next = some record) : record.fraction < 1 := by
  have hplots := (hsane.plans hpassage.plan?).plots leg hleg
  rw [Leg.next_advance, Leg.record?_advance] at hrecord
  -- A leg that is through leaves its transfer on a hop that has no record yet.
  by_cases hthrough : leg.isThrough plan.deadline = true
  · have htracked := hsane.sound.tracked leg.edge leg.transfer hplots.transfer
    rw [if_pos hthrough, if_neg (Nat.succ_ne_self _),
      htracked.ahead _ (Nat.lt_succ_self _)] at hrecord
    cases hrecord
  · rw [if_neg hthrough, if_pos rfl, if_neg hthrough] at hrecord
    cases hrecord
    apply hplots.across_lt_one
    by_contra hfinish
    exact hthrough (Leg.isThrough_of_finish_le (not_lt.mp hfinish))

theorem Sane.of_passage (hsane : simulation.Sane) {edges : List EdgeId}
    (hpassage : simulation.Passage plan edges next) (hsound : next.Sound) : next.Sane where
  sound := hsound
  inOrder := hpassage.inOrder
  links := by
    intro edge transfer htransfer link hlink
    rw [link_congr hpassage.bandwidths]
    by_cases hmoved : edge ∈ plan.legs.map (·.edge)
    · obtain ⟨leg, hleg, rfl⟩ := List.mem_map.mp hmoved
      obtain ⟨found, hfound, hhops, -⟩ := hpassage.of_leg hleg
      cases hfound.symm.trans htransfer
      have hplots := (hsane.plans hpassage.plan?).plots leg hleg
      exact hsane.links leg.edge leg.transfer hplots.transfer link (hhops ▸ hlink)
    · rw [hpassage.kept edge hmoved] at htransfer
      exact hsane.links edge transfer htransfer link hlink
  started := by
    intro edge transfer record htransfer hrecord
    by_cases hmoved : edge ∈ plan.legs.map (·.edge)
    · obtain ⟨leg, hleg, rfl⟩ := List.mem_map.mp hmoved
      obtain ⟨found, hfound, -, -, hnext, hrecords, -⟩ := hpassage.of_leg hleg
      cases hfound.symm.trans htransfer
      rw [hnext, hrecords] at hrecord
      exact hsane.passage_started hpassage hleg hrecord
    · rw [hpassage.kept edge hmoved] at htransfer
      exact hsane.started edge transfer record htransfer hrecord

theorem Sane.of_arrival (hsane : simulation.Sane) {edges : List EdgeId} {time : Rat}
    (harrival : simulation.Arrival edges time next) (hsound : next.Sound) : next.Sane := by
  have htransfers : ∀ edge transfer, next.transfer? edge = some transfer →
      ∃ before, simulation.transfer? edge = some before ∧ transfer.hops = before.hops ∧
        transfer.next = before.next ∧ transfer.record? = before.record? := by
    intro edge transfer htransfer
    rw [harrival.transfer?] at htransfer
    split at htransfer
    case isTrue =>
      obtain ⟨before, hbefore, rfl⟩ := Option.map_eq_some_iff.mp htransfer
      exact ⟨before, hbefore, rfl, rfl, rfl⟩
    case isFalse => exact ⟨transfer, htransfer, rfl, rfl, rfl⟩
  constructor
  case sound => exact hsound
  case inOrder => exact harrival.inOrder
  case links =>
    intro edge transfer htransfer link hlink
    obtain ⟨before, hbefore, hhops, -⟩ := htransfers edge transfer htransfer
    rw [link_congr harrival.bandwidths]
    exact hsane.links edge before hbefore link (hhops ▸ hlink)
  case started =>
    intro edge transfer record htransfer hrecord
    obtain ⟨before, hbefore, -, hnext, hrecords⟩ := htransfers edge transfer htransfer
    rw [hnext, hrecords] at hrecord
    exact hsane.started edge before record hbefore hrecord

/-! Adding transfers. -/

theorem sane_empty (bandwidths : List Rat) : (Simulation.empty bandwidths).Sane where
  sound := sound_empty bandwidths
  inOrder := List.Pairwise.nil
  links := by
    intro edge transfer htransfer
    cases (transfer?_empty bandwidths edge).symm.trans htransfer
  started := by
    intro edge transfer record htransfer
    cases (transfer?_empty bandwidths edge).symm.trans htransfer

theorem links_of_mapM {hops : List Hop} {links : List (Link Rat)}
    (hlinks : hops.mapM simulation.link = .ok links) :
    links.map (·.hop) = hops ∧ ∀ link ∈ links, simulation.link link.hop = .ok link := by
  induction hops generalizing links with
  | nil =>
      cases hlinks
      exact ⟨rfl, fun link hlink => absurd hlink List.not_mem_nil⟩
  | cons hop rest induction =>
      rw [List.mapM_cons] at hlinks
      obtain ⟨first, hfirst, hlinks⟩ := bind_eq_ok_iff.mp hlinks
      obtain ⟨others, hothers, hlinks⟩ := bind_eq_ok_iff.mp hlinks
      cases hlinks
      obtain ⟨hhops, hrest⟩ := induction hothers
      have hhop := (link_eq_ok hfirst).1
      refine ⟨by rw [List.map_cons, hhop, hhops], ?_⟩
      rintro link (_ | ⟨_, hmember⟩)
      · rw [hhop, hfirst]
      · exact hrest link hmember

theorem Sane.add (hsane : simulation.Sane) {edge : EdgeId} {bytes : Nat} {start : Rat}
    {path : List Coordinate} (hadd : simulation.add edge bytes start path = .ok next) :
    next.Sane := by
  have hsound := hsane.sound.add hadd
  obtain ⟨hunknown, hops, hlinks, rfl⟩ := add_eq_ok hadd
  have htransfers : ∀ other transfer,
      (simulation.transfers.insert edge (Transfer.queued bytes hops))[other]? = some transfer →
      transfer = Transfer.queued bytes hops ∨ simulation.transfer? other = some transfer := by
    intro other transfer htransfer
    rw [Std.ExtTreeMap.getElem?_insert] at htransfer
    split at htransfer
    case isTrue => exact Or.inl (Option.some.inj htransfer).symm
    case isFalse => exact Or.inr htransfer
  constructor
  case sound => exact hsound
  case inOrder => exact hsane.inOrder.insertSorted ⟨start, edge⟩
  case links =>
    intro other transfer htransfer link hlink
    rw [link_congr rfl]
    rcases htransfers other transfer htransfer with rfl | hbefore
    · exact (links_of_mapM hlinks).2 link hlink
    · exact hsane.links other transfer hbefore link hlink
  case started =>
    intro other transfer record htransfer hrecord
    rcases htransfers other transfer htransfer with rfl | hbefore
    · cases Std.ExtTreeMap.getElem?_empty.symm.trans hrecord
    · exact hsane.started other transfer record hbefore hrecord

/-! Rounds one after the other. -/

/-- A simulation after some rounds of another. -/
inductive Runs {ρ : Type} [Quantity ρ] (origin : Simulation ρ) : Simulation ρ → Prop
  | none : Runs origin origin
  | advanced {simulation next : Simulation ρ} (hruns : Runs origin simulation)
      (hround : simulation.round = .advanced next) : Runs origin next
  | completed {simulation next : Simulation ρ} {edges : List EdgeId} {time : ρ}
      (hruns : Runs origin simulation) (hround : simulation.round = .completed edges time next) :
      Runs origin next

theorem Runs.evaluate {ρ : Type} [Quantity ρ] {origin simulation last : Simulation ρ}
    (hruns : origin.Runs simulation) {limit : Nat} {result : Evaluation ρ}
    (hevaluate : simulation.evaluate limit = some (result, last)) : origin.Runs last := by
  induction limit generalizing simulation with
  | zero => cases hevaluate
  | succ limit induction =>
      unfold Simulation.evaluate at hevaluate
      split at hevaluate
      case h_1 =>
        cases hevaluate
        exact hruns
      case h_2 hround =>
        cases hevaluate
        exact hruns.completed hround
      case h_3 hround => exact induction (hruns.advanced hround) hevaluate

theorem Sane.advanced (hsane : simulation.Sane) (hround : simulation.round = .advanced next) :
    ∃ plan, simulation.Passage plan [] next ∧ next.Sane := by
  have hturned := hsane.sound.turned
  have hstepped := hsane.stepped
  rw [hround] at hturned hstepped
  cases hturned with
  | advanced _ hsound =>
      cases hstepped with
      | advanced hpassage => exact ⟨_, hpassage, hsane.of_passage hpassage hsound⟩

theorem Sane.completed (hsane : simulation.Sane) {edges : List EdgeId} {time : Rat}
    (hround : simulation.round = .completed edges time next) :
    (simulation.Arrival edges time next ∨
      ∃ plan, simulation.Passage plan edges next ∧ plan.deadline = time) ∧ next.Sane := by
  have hturned := hsane.sound.turned
  have hstepped := hsane.stepped
  rw [hround] at hturned hstepped
  cases hturned with
  | completed _ hsound =>
      cases hstepped with
      | arrived harrival => exact ⟨Or.inl harrival, hsane.of_arrival harrival hsound⟩
      | completed hpassage =>
          exact ⟨Or.inr ⟨_, hpassage, rfl⟩, hsane.of_passage hpassage hsound⟩

theorem Runs.sane {origin : Simulation Rat} (hruns : origin.Runs simulation)
    (hsane : origin.Sane) : simulation.Sane := by
  induction hruns with
  | none => exact hsane
  | advanced _ hround induction =>
      obtain ⟨plan, -, hnext⟩ := induction.advanced hround
      exact hnext
  | completed _ hround induction => exact (induction.completed hround).2

/-- What a start has and each round keeps, be it one of arrivals or one in which transfers move. -/
theorem Runs.induct {origin : Simulation Rat} {motive : Simulation Rat → Prop}
    (hruns : origin.Runs simulation) (hsane : origin.Sane) (start : motive origin)
    (arrival : ∀ simulation edges time next, simulation.Sane →
      simulation.Arrival edges time next → motive simulation → motive next)
    (passage : ∀ simulation plan edges next, origin.Runs simulation → simulation.Sane →
      simulation.Passage plan edges next → motive simulation → motive next) :
    motive simulation := by
  induction hruns with
  | none => exact start
  | advanced hruns hround induction =>
      have hbefore := hruns.sane hsane
      obtain ⟨plan, hpassage, -⟩ := hbefore.advanced hround
      exact passage _ plan _ _ hruns hbefore hpassage induction
  | completed hruns hround induction =>
      have hbefore := hruns.sane hsane
      obtain ⟨harrival | ⟨plan, hpassage, -⟩, -⟩ := hbefore.completed hround
      · exact arrival _ _ _ _ hbefore harrival induction
      · exact passage _ plan _ _ hruns hbefore hpassage induction

theorem Runs.bandwidths {origin : Simulation Rat} (hruns : origin.Runs simulation)
    (hsane : origin.Sane) : simulation.bandwidths = origin.bandwidths := by
  apply hruns.induct hsane
  case start => rfl
  case arrival =>
    intro simulation edges time next _ harrival hkept
    exact harrival.bandwidths.trans hkept
  case passage =>
    intro simulation plan edges next _ _ hpassage hkept
    exact hpassage.bandwidths.trans hkept

end Simulation

end TiledPlacement
