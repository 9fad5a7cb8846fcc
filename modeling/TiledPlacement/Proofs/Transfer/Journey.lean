import TiledPlacement.Proofs.Transfer.Sharing

/-!
Journeys of transfers in exact arithmetic. The segments of a transfer cover the time from its start
without a gap, hop after hop, and on each hop that it has crossed they carry its bytes up to the
slack of the test for being through.
-/

namespace TiledPlacement

namespace Segment

/-- Segments that follow each other without a gap from one time to another. -/
def Abut : Rat → List (Segment Rat) → Rat → Prop
  | start, [], stop => start = stop
  | start, first :: rest, stop =>
      first.start = start ∧ first.start < first.stop ∧ Abut first.stop rest stop

theorem Abut.concat {start middle : Rat} {segments : List (Segment Rat)}
    (habut : Abut start segments middle) {last : Segment Rat} (hstart : last.start = middle)
    (hless : last.start < last.stop) : Abut start (segments ++ [last]) last.stop := by
  induction segments generalizing start with
  | nil => exact ⟨hstart.trans habut.symm, hless, rfl⟩
  | cons first rest induction => exact ⟨habut.1, habut.2.1, induction habut.2.2⟩

def carried (segments : List (Segment Rat)) : Rat :=
  (segments.map fun segment => segment.rate * (segment.stop - segment.start)).sum

theorem carried_concat (segments : List (Segment Rat)) (last : Segment Rat) :
    carried (segments ++ [last]) = carried segments + last.rate * (last.stop - last.start) := by
  rw [carried, List.map_append, List.sum_append, List.map_singleton, List.sum_singleton, carried]

end Segment

namespace Transfer

/-- Share of the bytes that are across the hop that is next. -/
def fraction (transfer : Transfer Rat) : Rat :=
  (transfer.record? transfer.next).elim 0 (·.fraction)

end Transfer

namespace Simulation

variable {origin simulation next : Simulation Rat} {plan : Plan} {edges : List EdgeId}

/-- The crossing of a hop. It ends with the round in which the transfer is found to be through, and
the segments carry all of its bytes up to the slack of that test. -/
structure Crosses (origin : Simulation Rat) (edge : EdgeId) (bytes : Rat) (hop : Nat)
    (link : Link Rat) (stage : List (Segment Rat)) : Prop where
  link : ∀ segment ∈ stage, segment.link = link
  through : ∃ before plan leg, origin.Runs before ∧ before.plan? = some plan ∧
    leg ∈ plan.legs ∧ leg.edge = edge ∧ leg.transfer.next = hop ∧
    leg.isThrough plan.deadline = true ∧
    stage.getLast? = some (leg.segment plan.start plan.deadline) ∧
    Segment.carried stage ≤ bytes ∧
    bytes - Segment.carried stage ≤ leg.share * (1 / 1000000000) * max 1 |leg.finish|

/-- Where a transfer has been: the hops that it has crossed, each with its segments, and the
segments on the hop that is next. -/
structure Journey (origin simulation : Simulation Rat) (edge : EdgeId) (transfer : Transfer Rat)
    (start now : Rat) (crossed : List (List (Segment Rat))) (current : List (Segment Rat)) :
    Prop where
  transfer? : simulation.transfer? edge = some transfer
  reached : transfer.finish = some now ∨ transfer.finish = none ∧ ⟨now, edge⟩ ∈ simulation.queue
  finished : transfer.finish.isSome = true →
    transfer.bytes ≤ 0 ∨ transfer.next = transfer.hops.length
  trace : simulation.trace.filter (fun segment => decide (segment.edge = edge)) =
    crossed.flatten ++ current
  abut : Segment.Abut start (crossed.flatten ++ current) now
  length : crossed.length = transfer.next
  crosses : ∀ hop stage, crossed[hop]? = some stage →
    ∃ link, transfer.hops[hop]? = some link ∧ Crosses origin edge transfer.bytes hop link stage
  onward : ∀ segment ∈ current, transfer.link? = some segment.link
  carried : Segment.carried current = transfer.bytes * transfer.fraction

section Passage

variable {edge : EdgeId} {transfer : Transfer Rat} {start now : Rat}
  {crossed : List (List (Segment Rat))} {current : List (Segment Rat)}

theorem Sane.queue_nodup (hsane : simulation.Sane) {time other : Rat}
    (htime : ⟨time, edge⟩ ∈ simulation.queue) (hother : ⟨other, edge⟩ ∈ simulation.queue) :
    time = other :=
  congrArg Event.time (List.inj_on_of_nodup_map hsane.sound.queue.nodup htime hother rfl)

theorem filter_segments_of_not_mem {legs : List (Leg Rat)} (hother : edge ∉ legs.map (·.edge))
    (start deadline : Rat) :
    (legs.map (·.segment start deadline)).filter (fun segment => decide (segment.edge = edge)) =
      [] := by
  rw [List.filter_eq_nil_iff]
  intro segment hsegment hedge
  obtain ⟨leg, hleg, rfl⟩ := List.mem_map.mp hsegment
  exact hother (List.mem_map.mpr ⟨leg, hleg, of_decide_eq_true hedge⟩)

theorem filter_segments_of_mem {legs : List (Leg Rat)} (hnodup : (legs.map (·.edge)).Nodup)
    {leg : Leg Rat} (hleg : leg ∈ legs) (start deadline : Rat) :
    (legs.map (·.segment start deadline)).filter
      (fun segment => decide (segment.edge = leg.edge)) = [leg.segment start deadline] := by
  induction legs with
  | nil => cases hleg
  | cons first rest induction =>
      obtain ⟨hfirst, hrest⟩ := List.nodup_cons.mp hnodup
      rw [List.map_cons, List.filter_cons]
      rcases List.mem_cons.mp hleg with rfl | hleg
      · have hsame : decide ((leg.segment start deadline).edge = leg.edge) = true :=
          decide_eq_true rfl
        rw [if_pos hsame, filter_segments_of_not_mem hfirst]
      · have hdiffer : ¬decide ((first.segment start deadline).edge = leg.edge) = true := by
          intro hsame
          exact hfirst (List.mem_map.mpr ⟨leg, hleg, (of_decide_eq_true hsame).symm⟩)
        rw [if_neg hdiffer, induction hrest hleg]

theorem Journey.unfinished (hjourney : Journey origin simulation edge transfer start now crossed
    current) (hsane : simulation.Sane) (hqueued : edge ∈ simulation.queue.map (·.edge)) :
    transfer.finish = none := by
  have houtcome := (hsane.sound.queue.mem_iff edge).mp hqueued
  rw [outcome?, hjourney.transfer?] at houtcome
  exact Option.some.inj houtcome

/-- A transfer of which nothing changes but perhaps that it is finished now. -/
theorem Journey.stays (hjourney : Journey origin simulation edge transfer start now crossed current)
    {finish : Option Rat} (htransfer : next.transfer? edge = some { transfer with finish })
    (hreached : finish = some now ∨ finish = none ∧ ⟨now, edge⟩ ∈ next.queue)
    (hfinished : finish.isSome = true →
      transfer.bytes ≤ 0 ∨ transfer.next = transfer.hops.length)
    (htrace : next.trace.filter (fun segment => decide (segment.edge = edge)) =
      simulation.trace.filter fun segment => decide (segment.edge = edge)) :
    Journey origin next edge { transfer with finish } start now crossed current where
  transfer? := htransfer
  reached := hreached
  finished := hfinished
  trace := htrace.trans hjourney.trace
  abut := hjourney.abut
  length := hjourney.length
  crosses := hjourney.crosses
  onward := hjourney.onward
  carried := hjourney.carried

theorem Journey.of_passage_other (hjourney : Journey origin simulation edge transfer start now
    crossed current) (hplans : simulation.Plans plan)
    (hpassage : simulation.Passage plan edges next) (hother : edge ∉ plan.legs.map (·.edge)) :
    Journey origin next edge transfer start now crossed current := by
  refine hjourney.stays ((hpassage.kept edge hother).trans hjourney.transfer?) ?_
    hjourney.finished ?_
  · refine hjourney.reached.imp_right fun ⟨hfinish, hqueued⟩ => ⟨hfinish, ?_⟩
    apply hpassage.queue.mem_iff.mpr
    apply List.mem_append_right
    rcases List.mem_append.mp (hplans.queue.mem_iff.mp hqueued) with hready | hlater
    · obtain ⟨leg, hleg, hevent⟩ := List.mem_map.mp hready
      exact absurd (List.mem_map.mpr ⟨leg, hleg, congrArg Event.edge hevent⟩) hother
    · exact hlater
  · rw [hpassage.trace, List.filter_append, filter_segments_of_not_mem hother, List.append_nil]

theorem Journey.ready (hjourney : Journey origin simulation edge transfer start now crossed current)
    (hsane : simulation.Sane) (hplans : simulation.Plans plan) {leg : Leg Rat}
    (hleg : leg ∈ plan.legs) (hedge : leg.edge = edge) :
    transfer = leg.transfer ∧ now = plan.start ∧ transfer.finish = none := by
  have hready : (⟨plan.start, edge⟩ : Event Rat) ∈ simulation.queue :=
    hplans.queue.mem_iff.mpr
      (List.mem_append_left _ (List.mem_map.mpr ⟨leg, hleg, by rw [hedge]⟩))
  have hunfinished := hjourney.unfinished hsane (List.mem_map_of_mem hready)
  have htransfer := hjourney.transfer?
  rw [← hedge, (hplans.plots leg hleg).transfer] at htransfer
  refine ⟨(Option.some.inj htransfer).symm, ?_, hunfinished⟩
  rcases hjourney.reached with hfinished | ⟨-, hqueued⟩
  · cases hunfinished.symm.trans hfinished
  · exact hsane.queue_nodup hqueued hready

theorem Journey.carried_concat
    (hjourney : Journey origin simulation edge transfer start now crossed current)
    {leg : Leg Rat} (hplots : simulation.Plots plan leg) (htransfer : transfer = leg.transfer) :
    Segment.carried (current ++ [leg.segment plan.start plan.deadline]) =
      leg.transfer.bytes * leg.across plan.start plan.deadline := by
  have hbytes := hplots.bytes_pos.ne'
  have hfraction : transfer.fraction = leg.record.fraction := by
    rw [Transfer.fraction, hplots.record, htransfer]
    cases leg.transfer.record? leg.transfer.next <;> rfl
  rw [Segment.carried_concat, hjourney.carried, hfraction, htransfer, Leg.across, Leg.segment]
  field_simp

theorem Journey.trace_concat
    (hjourney : Journey origin simulation edge transfer start now crossed current)
    (hsane : simulation.Sane) (hpassage : simulation.Passage plan edges next) {leg : Leg Rat}
    (hleg : leg ∈ plan.legs) (hedge : leg.edge = edge) :
    next.trace.filter (fun segment => decide (segment.edge = edge)) =
      crossed.flatten ++ (current ++ [leg.segment plan.start plan.deadline]) := by
  subst hedge
  have hnodup := hsane.nodup (hsane.plans hpassage.plan?)
  rw [hpassage.trace, List.filter_append, filter_segments_of_mem hnodup hleg, hjourney.trace,
    List.append_assoc]

theorem Journey.abut_concat
    (hjourney : Journey origin simulation edge transfer start now crossed current)
    (hplans : simulation.Plans plan) (hnow : now = plan.start) (leg : Leg Rat) :
    Segment.Abut start (crossed.flatten ++ (current ++ [leg.segment plan.start plan.deadline]))
      plan.deadline := by
  rw [← List.append_assoc]
  exact hjourney.abut.concat hnow.symm hplans.start_lt

theorem Passage.requeued (hpassage : simulation.Passage plan edges next) {leg : Leg Rat}
    (hleg : leg ∈ plan.legs) (hunfinished : ¬leg.isFinished plan.deadline = true) :
    (⟨plan.deadline, leg.edge⟩ : Event Rat) ∈ next.queue := by
  apply hpassage.queue.mem_iff.mpr
  apply List.mem_append_left
  exact List.mem_map.mpr
    ⟨leg, List.mem_filter.mpr ⟨hleg, by rw [Bool.eq_false_iff.mpr hunfinished]; rfl⟩, rfl⟩

/-- A transfer that is not through its hop stays on it. -/
theorem Journey.of_passage_onward (hjourney : Journey origin simulation edge transfer start now
    crossed current) (hsane : simulation.Sane) (hpassage : simulation.Passage plan edges next)
    {leg : Leg Rat} (hleg : leg ∈ plan.legs) (hedge : leg.edge = edge)
    (hthrough : ¬leg.isThrough plan.deadline = true) :
    ∃ moved, moved.bytes = transfer.bytes ∧ moved.hops = transfer.hops ∧
      Journey origin next edge moved start plan.deadline crossed
        (current ++ [leg.segment plan.start plan.deadline]) := by
  have hplans := hsane.plans hpassage.plan?
  have hplots := hplans.plots leg hleg
  have hunfinished : ¬leg.isFinished plan.deadline = true := by
    intro hfinished
    exact hthrough (Bool.and_eq_true_iff.mp hfinished).1
  obtain ⟨htransfer, hnow, hopen⟩ := hjourney.ready hsane hplans hleg hedge
  subst htransfer hedge
  obtain ⟨moved, hmoved, hhops, hbytes, hnext, hrecords, hfinish⟩ := hpassage.of_leg hleg
  rw [Leg.next_advance, if_neg hthrough] at hnext
  rw [if_neg hunfinished] at hfinish
  refine ⟨moved, hbytes, hhops, ?_⟩
  constructor
  case transfer? => exact hmoved
  case reached => exact Or.inr ⟨hfinish.trans hopen, hpassage.requeued hleg hunfinished⟩
  case finished =>
    intro hfinished
    rw [hfinish, hopen] at hfinished
    cases hfinished
  case trace => exact hjourney.trace_concat hsane hpassage hleg rfl
  case abut => exact hjourney.abut_concat hplans hnow leg
  case length => exact hjourney.length.trans hnext.symm
  case crosses =>
    rw [hhops, hbytes]
    exact hjourney.crosses
  case onward =>
    intro segment hsegment
    rw [Transfer.link?, hhops, hnext]
    rcases List.mem_append.mp hsegment with hbefore | hnew
    · exact hjourney.onward segment hbefore
    · rw [List.mem_singleton.mp hnew]
      exact hplots.link
  case carried =>
    rw [hjourney.carried_concat hplots rfl, hbytes, Transfer.fraction, hnext, hrecords,
      Leg.record?_advance, if_pos rfl, if_neg hthrough, Option.elim_some]

theorem Journey.crosses_through
    (hjourney : Journey origin simulation edge transfer start now crossed current)
    (hruns : origin.Runs simulation) (hplan : simulation.plan? = some plan)
    (hplans : simulation.Plans plan) {leg : Leg Rat} (hleg : leg ∈ plan.legs)
    (hedge : leg.edge = edge) (htransfer : transfer = leg.transfer)
    (hthrough : leg.isThrough plan.deadline = true) :
    Crosses origin edge transfer.bytes transfer.next leg.link
      (current ++ [leg.segment plan.start plan.deadline]) := by
  have hplots := hplans.plots leg hleg
  have hcarried := hjourney.carried_concat hplots htransfer
  have hleft := hplots.bytes_left plan.deadline
  subst htransfer
  constructor
  case link =>
    intro segment hsegment
    rcases List.mem_append.mp hsegment with hbefore | hnew
    · exact Option.some.inj ((hjourney.onward segment hbefore).symm.trans hplots.link)
    · rw [List.mem_singleton.mp hnew]
      rfl
  case through =>
    -- What is left is the share for the time from the deadline to the finish.
    have hrest : 0 ≤ (leg.finish - plan.deadline) * leg.share :=
      mul_nonneg (sub_nonneg.mpr (hplans.le_finish leg hleg)) hplots.share_pos.le
    have hslack := mul_le_mul_of_nonneg_right (Leg.isThrough_iff.mp hthrough) hplots.share_pos.le
    refine ⟨simulation, plan, leg, hruns, hplan, hleg, hedge, rfl, hthrough, List.getLast?_concat,
      ?_, ?_⟩
    · rw [hcarried]
      linarith
    · rw [hcarried, hleft, max_comm]
      linarith

/-- A transfer that is through its hop goes on to the next one, or has finished. -/
theorem Journey.of_passage_through (hjourney : Journey origin simulation edge transfer start now
    crossed current) (hruns : origin.Runs simulation) (hsane : simulation.Sane)
    (hpassage : simulation.Passage plan edges next) {leg : Leg Rat} (hleg : leg ∈ plan.legs)
    (hedge : leg.edge = edge) (hthrough : leg.isThrough plan.deadline = true) :
    ∃ moved, moved.bytes = transfer.bytes ∧ moved.hops = transfer.hops ∧
      Journey origin next edge moved start plan.deadline
        (crossed ++ [current ++ [leg.segment plan.start plan.deadline]]) [] := by
  have hplans := hsane.plans hpassage.plan?
  have hplots := hplans.plots leg hleg
  obtain ⟨htransfer, hnow, hopen⟩ := hjourney.ready hsane hplans hleg hedge
  have hcrosses := hjourney.crosses_through hruns hpassage.plan? hplans hleg hedge htransfer
    hthrough
  subst htransfer hedge
  have hhop : leg.transfer.next < leg.transfer.hops.length :=
    (List.getElem?_eq_some_iff.mp hplots.link).1
  obtain ⟨moved, hmoved, hhops, hbytes, hnext, hrecords, hfinish⟩ := hpassage.of_leg hleg
  rw [Leg.next_advance, if_pos hthrough] at hnext
  rw [hopen] at hfinish
  refine ⟨moved, hbytes, hhops, ?_⟩
  constructor
  case transfer? => exact hmoved
  case reached =>
    by_cases hdone : leg.isFinished plan.deadline = true
    · exact Or.inl (hfinish.trans (if_pos hdone))
    · exact Or.inr ⟨hfinish.trans (if_neg hdone), hpassage.requeued hleg hdone⟩
  case finished =>
    intro hfinished
    rw [hfinish] at hfinished
    split at hfinished
    case isFalse => cases hfinished
    case isTrue hdone =>
      have hlast := of_decide_eq_true (Bool.and_eq_true_iff.mp hdone).2
      rw [hhops, hnext]
      exact Or.inr (Nat.le_antisymm hhop hlast)
  case trace =>
    rw [hjourney.trace_concat hsane hpassage hleg rfl, List.flatten_append, List.flatten_singleton,
      List.append_nil]
  case abut =>
    rw [List.flatten_append, List.flatten_singleton, List.append_nil]
    exact hjourney.abut_concat hplans hnow leg
  case length =>
    rw [List.length_append, List.length_singleton, hjourney.length, hnext]
  case crosses =>
    intro hop stage hstage
    rw [hhops, hbytes]
    rcases Nat.lt_or_ge hop crossed.length with hbefore | hafter
    · rw [List.getElem?_append_left hbefore] at hstage
      exact hjourney.crosses hop stage hstage
    · rw [List.getElem?_append_right hafter, List.getElem?_singleton] at hstage
      split at hstage
      case isFalse => cases hstage
      case isTrue hsame =>
        have hlast : hop = leg.transfer.next := by
          rw [← hjourney.length]
          omega
        rw [hlast, ← Option.some.inj hstage]
        exact ⟨leg.link, hplots.link, hcrosses⟩
  case onward => exact fun segment hsegment => absurd hsegment List.not_mem_nil
  case carried =>
    have htracked := hsane.sound.tracked leg.edge leg.transfer hplots.transfer
    rw [Transfer.fraction, hnext, hrecords, Leg.record?_advance, if_neg (Nat.succ_ne_self _),
      htracked.ahead _ (Nat.lt_succ_self _), Option.elim_none, mul_zero]
    rfl

theorem Journey.of_arrival (hjourney : Journey origin simulation edge transfer start now crossed
    current) (hsane : simulation.Sane) {time : Rat}
    (harrival : simulation.Arrival edges time next) :
    ∃ moved, moved.bytes = transfer.bytes ∧ moved.hops = transfer.hops ∧
      Journey origin next edge moved start now crossed current := by
  have htransfer := harrival.transfer? edge
  rw [hjourney.transfer?] at htransfer
  have htrace := congrArg (List.filter fun segment => decide (segment.edge = edge)) harrival.trace
  by_cases hedge : edge ∈ edges
  · rw [if_pos hedge, Option.map_some] at htransfer
    have hready : (⟨time, edge⟩ : Event Rat) ∈ simulation.queue :=
      harrival.queue.mem_iff.mpr (List.mem_append_left _ (List.mem_map_of_mem hedge))
    have hunfinished := hjourney.unfinished hsane (List.mem_map_of_mem hready)
    have hnow : time = now := by
      rcases hjourney.reached with hfinished | ⟨-, hqueued⟩
      · cases hunfinished.symm.trans hfinished
      · exact hsane.queue_nodup hready hqueued
    have hdone := harrival.done edge hedge
    rw [isDone, hjourney.transfer?, Option.all_some, Transfer.isDone, Bool.or_eq_true,
      Option.isNone_iff_eq_none, Quantity.isAtMost_iff] at hdone
    have hwithin := (hsane.sound.tracked edge transfer hjourney.transfer?).within
    have hlast := hdone.imp_right fun hlink =>
      Nat.le_antisymm hwithin (List.getElem?_eq_none_iff.mp hlink)
    refine ⟨{ transfer with finish := some time }, rfl, rfl, ?_⟩
    exact hjourney.stays htransfer (Or.inl (congrArg some hnow)) (fun _ => hlast) htrace
  · rw [if_neg hedge] at htransfer
    refine ⟨transfer, rfl, rfl, hjourney.stays htransfer ?_ hjourney.finished htrace⟩
    refine hjourney.reached.imp_right fun hwaits => ⟨hwaits.1, ?_⟩
    rcases List.mem_append.mp (harrival.queue.mem_iff.mp hwaits.2) with hdone | hwaiting
    · obtain ⟨other, hother, hevent⟩ := List.mem_map.mp hdone
      have hsame : other = edge := congrArg Event.edge hevent
      exact absurd (hsame ▸ hother) hedge
    · exact hwaiting

theorem Journey.of_passage (hjourney : Journey origin simulation edge transfer start now crossed
    current) (hruns : origin.Runs simulation) (hsane : simulation.Sane)
    (hpassage : simulation.Passage plan edges next) :
    ∃ moved now crossed current, moved.bytes = transfer.bytes ∧ moved.hops = transfer.hops ∧
      Journey origin next edge moved start now crossed current := by
  by_cases hmoves : edge ∈ plan.legs.map (·.edge)
  · obtain ⟨leg, hleg, hedge⟩ := List.mem_map.mp hmoves
    by_cases hthrough : leg.isThrough plan.deadline = true
    · obtain ⟨moved, hbytes, hhops, hmoved⟩ :=
        hjourney.of_passage_through hruns hsane hpassage hleg hedge hthrough
      exact ⟨moved, _, _, _, hbytes, hhops, hmoved⟩
    · obtain ⟨moved, hbytes, hhops, hmoved⟩ :=
        hjourney.of_passage_onward hsane hpassage hleg hedge hthrough
      exact ⟨moved, _, _, _, hbytes, hhops, hmoved⟩
  · exact ⟨transfer, now, crossed, current, rfl, rfl,
      hjourney.of_passage_other (hsane.plans hpassage.plan?) hpassage hmoves⟩

theorem Runs.journey (hruns : origin.Runs simulation) (hsane : origin.Sane)
    (hjourney : Journey origin origin edge transfer start now crossed current) :
    ∃ moved now crossed current, moved.bytes = transfer.bytes ∧ moved.hops = transfer.hops ∧
      Journey origin simulation edge moved start now crossed current := by
  apply hruns.induct hsane
  case start => exact ⟨transfer, now, crossed, current, rfl, rfl, hjourney⟩
  case arrival =>
    rintro simulation edges time next hsane harrival
      ⟨before, now, crossed, current, hbytes, hhops, hjourney⟩
    obtain ⟨moved, hbytes', hhops', hmoved⟩ := hjourney.of_arrival hsane harrival
    exact ⟨moved, now, crossed, current, hbytes'.trans hbytes, hhops'.trans hhops, hmoved⟩
  case passage =>
    rintro simulation plan edges next hruns hsane hpassage
      ⟨before, now, crossed, current, hbytes, hhops, hjourney⟩
    obtain ⟨moved, now, crossed, current, hbytes', hhops', hmoved⟩ :=
      hjourney.of_passage hruns hsane hpassage
    exact ⟨moved, now, crossed, current, hbytes'.trans hbytes, hhops'.trans hhops, hmoved⟩

end Passage

end Simulation

end TiledPlacement
