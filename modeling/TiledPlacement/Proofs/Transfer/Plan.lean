import TiledPlacement.Proofs.Transfer.Exact

/-!
What a round in exact arithmetic plans and does. The transfers of the earliest events share their
hops until the deadline; then they are back in the queue, or through their routes.
-/

namespace TiledPlacement

structure Plan where
  start : Rat
  deadline : Rat
  legs : List (Leg Rat)
  later : List (Event Rat)

namespace Simulation

variable {simulation : Simulation Rat}

/-- The plan of the next round, if transfers move in it. -/
def plan? (simulation : Simulation Rat) : Option Plan :=
  match simulation.queue with
  | [] => none
  | first :: _ =>
      let ready := simulation.queue.takeWhile (isAt first.time)
      let later := simulation.queue.dropWhile (isAt first.time)
      let batch := ready.map (·.edge)
      let legs := simulation.legs first.time batch
      if (batch.filter simulation.isDone).isEmpty then
        some ⟨first.time, deadline legs later, legs, later⟩
      else
        none

theorem link_eq_ok {hop : Hop} {link : Link Rat} (hlink : simulation.link hop = .ok link) :
    link.hop = hop ∧ 0 < link.bandwidth := by
  unfold Simulation.link at hlink
  dsimp only at hlink
  split at hlink
  case h_1 bandwidth hbandwidth =>
    cases hlink
    exact ⟨rfl, Quantity.isLess_iff.mp (Option.filter_eq_some_iff.mp hbandwidth).2⟩
  case h_2 => cases hlink

/-- What adding transfers and rounds keep: the queue is in order, links are those of their hops, and
no transfer has all of its bytes across the hop that it is on. -/
structure Sane (simulation : Simulation Rat) : Prop where
  sound : simulation.Sound
  inOrder : Event.InOrder simulation.queue
  links : ∀ edge transfer, simulation.transfer? edge = some transfer → ∀ link ∈ transfer.hops,
    simulation.link link.hop = .ok link
  started : ∀ edge transfer record, simulation.transfer? edge = some transfer →
    transfer.record? transfer.next = some record → record.fraction < 1

structure Plots (simulation : Simulation Rat) (plan : Plan) (leg : Leg Rat) : Prop where
  transfer : simulation.transfer? leg.edge = some leg.transfer
  link : leg.transfer.link? = some leg.link
  bandwidth : simulation.link leg.link.hop = .ok leg.link
  record : leg.record =
    (leg.transfer.record? leg.transfer.next).getD ⟨plan.start, none, 0⟩
  share : leg.share =
    leg.link.bandwidth / ((plan.legs.map (·.link.hop)).count leg.link.hop : Rat)
  finish : leg.finish = plan.start + leg.transfer.bytes * (1 - leg.record.fraction) / leg.share
  bytes_pos : 0 < leg.transfer.bytes
  fraction_lt : leg.record.fraction < 1
  share_pos : 0 < leg.share

structure Plans (simulation : Simulation Rat) (plan : Plan) : Prop where
  legs_ne : plan.legs ≠ []
  first : ∃ first rest, simulation.queue = first :: rest ∧ first.time = plan.start
  queue : simulation.queue.Perm
    (plan.legs.map (fun leg => (⟨plan.start, leg.edge⟩ : Event Rat)) ++ plan.later)
  inOrder : Event.InOrder plan.later
  later_lt : ∀ event ∈ plan.later, plan.start < event.time
  plots : ∀ leg ∈ plan.legs, simulation.Plots plan leg
  le_finish : ∀ leg ∈ plan.legs, plan.deadline ≤ leg.finish
  le_later : ∀ event ∈ plan.later, plan.deadline ≤ event.time
  attained : (∃ leg ∈ plan.legs, leg.finish = plan.deadline) ∨
    ∃ event ∈ plan.later, event.time = plan.deadline

theorem hop?_eq (simulation : Simulation Rat) (start : Rat) (hops : List Hop) (edge : EdgeId) :
    (simulation.leg? start hops edge).map (·.link.hop) = simulation.hop? edge := by
  unfold leg? hop?
  cases simulation.transfer? edge with
  | none => rfl
  | some transfer =>
      cases hlink : transfer.link? with
      | none => simp [hlink]
      | some link => simp [hlink]

theorem perm_hop_legs (simulation : Simulation Rat) (start : Rat) (batch : List EdgeId) :
    ((simulation.legs start batch).map (·.link.hop)).Perm (batch.filterMap simulation.hop?) := by
  apply ((perm_sortedBy Leg.precedes _).map (·.link.hop)).trans
  rw [List.map_filterMap]
  apply List.Perm.of_eq
  exact List.filterMap_congr fun edge _ => simulation.hop?_eq start _ edge

theorem deadline_le_finish {legs : List (Leg Rat)} (later : List (Event Rat)) {leg : Leg Rat}
    (hleg : leg ∈ legs) : deadline legs later ≤ leg.finish := by
  have hfirst : Quantity.earliest (legs.map (·.finish)) ≤ leg.finish :=
    Quantity.earliest_le (List.mem_map_of_mem hleg)
  cases later with
  | nil => exact hfirst
  | cons event rest =>
      rw [deadline, Quantity.lesser_eq]
      exact (min_le_right _ _).trans hfirst

theorem deadline_le_later (legs : List (Leg Rat)) {later : List (Event Rat)}
    (horder : Event.InOrder later) {event : Event Rat} (hevent : event ∈ later) :
    deadline legs later ≤ event.time := by
  cases later with
  | nil => cases hevent
  | cons first rest =>
      rw [deadline, Quantity.lesser_eq]
      refine (min_le_left _ _).trans ?_
      rcases List.mem_cons.mp hevent with rfl | hmember
      · exact le_rfl
      · exact (List.pairwise_cons.mp horder).1 event hmember

theorem deadline_attained {legs : List (Leg Rat)} (hlegs : legs ≠ []) (later : List (Event Rat)) :
    (∃ leg ∈ legs, leg.finish = deadline legs later) ∨
      ∃ event ∈ later, event.time = deadline legs later := by
  have hfirst : Quantity.earliest (legs.map (·.finish)) ∈ legs.map (·.finish) :=
    Quantity.earliest_mem (by rwa [Ne, List.map_eq_nil_iff])
  obtain ⟨leg, hleg, hfinish⟩ := List.mem_map.mp hfirst
  cases later with
  | nil => exact Or.inl ⟨leg, hleg, hfinish⟩
  | cons event rest =>
      rw [deadline, Quantity.lesser_eq]
      rcases min_choice event.time (Quantity.earliest (legs.map (·.finish))) with hevent | hleast
      · exact Or.inr ⟨event, List.mem_cons_self, hevent.symm⟩
      · exact Or.inl ⟨leg, hleg, hfinish.trans hleast.symm⟩

theorem bytes_pos_of_moving {edge : EdgeId} (hmoving : simulation.isDone edge = false)
    {transfer : Transfer Rat} (htransfer : simulation.transfer? edge = some transfer) :
    0 < transfer.bytes := by
  rw [isDone, htransfer, Option.all_some, Transfer.isDone, Bool.or_eq_false_iff] at hmoving
  by_contra hnone
  exact Bool.false_ne_true (hmoving.1.symm.trans (Quantity.isAtMost_iff.mpr (not_lt.mp hnone)))

theorem Sane.plots (hsane : simulation.Sane) {plan : Plan} {batch : List EdgeId}
    (hlegs : plan.legs = simulation.legs plan.start batch)
    (hmoving : ∀ edge ∈ batch, simulation.isDone edge = false) {leg : Leg Rat}
    (hleg : leg ∈ plan.legs) : simulation.Plots plan leg := by
  have hhop : 0 < (plan.legs.map (·.link.hop)).count leg.link.hop :=
    List.count_pos_iff.mpr (List.mem_map_of_mem hleg)
  -- Shares are counted over the batch, which has the hops of the legs in another order.
  have hcount := (hlegs ▸ perm_hop_legs simulation plan.start batch).count_eq leg.link.hop
  obtain ⟨edge, hedge, hplanned⟩ :=
    List.mem_filterMap.mp ((perm_sortedBy _ _).mem_iff.mp (hlegs ▸ hleg))
  obtain ⟨transfer, htransfer, hplanned⟩ := Option.bind_eq_some_iff.mp hplanned
  obtain ⟨link, hlink, hplanned⟩ := Option.bind_eq_some_iff.mp hplanned
  cases hplanned
  have hbandwidth := hsane.links edge transfer htransfer link (List.mem_of_getElem? hlink)
  have hshare : link.bandwidth / Quantity.ofNat
      ((batch.filterMap simulation.hop?).count link.hop) =
        link.bandwidth / ((plan.legs.map (·.link.hop)).count link.hop : Rat) := by
    rw [hcount]
    rfl
  constructor
  case transfer => exact htransfer
  case link => exact hlink
  case bandwidth => exact hbandwidth
  case record => rfl
  case share => exact hshare
  case finish => rfl
  case bytes_pos => exact bytes_pos_of_moving (hmoving edge hedge) htransfer
  case fraction_lt =>
    dsimp only
    cases hrecord : transfer.record? transfer.next with
    | none => exact zero_lt_one
    | some record => exact hsane.started edge transfer record htransfer hrecord
  case share_pos =>
    dsimp only
    rw [hshare]
    exact div_pos (link_eq_ok hbandwidth).2 (Nat.cast_pos.mpr hhop)

theorem Plots.start_lt_finish {plan : Plan} {leg : Leg Rat} (hplots : simulation.Plots plan leg) :
    plan.start < leg.finish := by
  have hleft : 0 < leg.transfer.bytes * (1 - leg.record.fraction) / leg.share :=
    div_pos (mul_pos hplots.bytes_pos (sub_pos.mpr hplots.fraction_lt)) hplots.share_pos
  rw [hplots.finish]
  exact lt_add_of_pos_right plan.start hleft

theorem Plans.start_lt {plan : Plan} (hplans : simulation.Plans plan) :
    plan.start < plan.deadline := by
  rcases hplans.attained with ⟨leg, hleg, hfinish⟩ | ⟨event, hevent, htime⟩
  · exact hfinish ▸ (hplans.plots leg hleg).start_lt_finish
  · exact htime ▸ hplans.later_lt event hevent

theorem events_at {events : List (Event Rat)} {time : Rat}
    (htimes : ∀ event ∈ events, event.time = time) :
    events = (events.map (·.edge)).map fun edge => ⟨time, edge⟩ := by
  rw [List.map_map]
  refine (List.map_id events).symm.trans (List.map_congr_left fun event hevent => ?_)
  rw [Function.comp_apply, ← htimes event hevent, id_eq]

/-- The events that a round takes out of the queue, all of one time, and those that it leaves. -/
structure Batches (simulation : Simulation Rat) (time : Rat) (ready later : List (Event Rat)) :
    Prop where
  queue : ready ++ later = simulation.queue
  ready_ne : ready ≠ []
  ready_at : ∀ event ∈ ready, event.time = time
  later_lt : ∀ event ∈ later, time < event.time
  inOrder : Event.InOrder later

theorem Sane.batches (hsane : simulation.Sane) {first : Event Rat} {rest : List (Event Rat)}
    (hqueue : simulation.queue = first :: rest) :
    simulation.Batches first.time (simulation.queue.takeWhile (isAt first.time))
      (simulation.queue.dropWhile (isAt first.time)) := by
  have horder := hsane.inOrder
  have htimes := Event.InOrder.split (hqueue ▸ horder)
  rw [← hqueue] at htimes
  constructor
  case queue => exact List.takeWhile_append_dropWhile
  case ready_ne =>
    rw [hqueue, List.takeWhile_cons_of_pos (Event.isAt_iff.mpr rfl)]
    exact List.cons_ne_nil _ _
  case ready_at => exact htimes.1
  case later_lt => exact htimes.2
  case inOrder => exact horder.sublist (List.dropWhile_sublist _)

theorem Sane.plans (hsane : simulation.Sane) {plan : Plan} (hplan : simulation.plan? = some plan) :
    simulation.Plans plan := by
  unfold plan? at hplan
  split at hplan
  case h_1 => cases hplan
  case h_2 first rest hqueue =>
    dsimp only at hplan
    split at hplan
    case isFalse => cases hplan
    case isTrue hnone =>
      have hbatches := hsane.batches hqueue
      generalize simulation.queue.takeWhile (isAt first.time) = ready at *
      generalize simulation.queue.dropWhile (isAt first.time) = later at *
      have hmoving : ∀ edge ∈ ready.map (·.edge), simulation.isDone edge = false := by
        intro edge hedge
        rw [List.isEmpty_iff, List.filter_eq_nil_iff] at hnone
        exact Bool.eq_false_iff.mpr (hnone edge hedge)
      have hperm : ((simulation.legs first.time (ready.map (·.edge))).map (·.edge)).Perm
          (ready.map (·.edge)) := perm_edge_legs hmoving
      have hlegs : simulation.legs first.time (ready.map (·.edge)) ≠ [] := by
        intro hempty
        rw [hempty, List.map_nil, List.nil_perm, List.map_eq_nil_iff] at hperm
        exact hbatches.ready_ne hperm
      cases hplan
      constructor
      case legs_ne => exact hlegs
      case first => exact ⟨first, rest, hqueue, rfl⟩
      case queue =>
        have hevents := hperm.map fun edge => (⟨first.time, edge⟩ : Event Rat)
        rw [← events_at hbatches.ready_at, List.map_map] at hevents
        rw [← hbatches.queue]
        exact hevents.symm.append_right later
      case inOrder => exact hbatches.inOrder
      case later_lt => exact hbatches.later_lt
      case plots => exact fun leg hleg => hsane.plots rfl hmoving hleg
      case le_finish => exact fun leg hleg => deadline_le_finish later hleg
      case le_later => exact fun event hevent => deadline_le_later _ hbatches.inOrder hevent
      case attained => exact deadline_attained hlegs later

/-- A round in which transfers move, and complete or not. -/
structure Passage (simulation : Simulation Rat) (plan : Plan) (edges : List EdgeId)
    (next : Simulation Rat) : Prop where
  plan? : simulation.plan? = some plan
  bandwidths : next.bandwidths = simulation.bandwidths
  trace : next.trace =
    simulation.trace ++ plan.legs.map (·.segment plan.start plan.deadline)
  moved : ∀ leg ∈ plan.legs, next.transfer? leg.edge = some
    (if leg.isFinished plan.deadline = true then
      { leg.advance plan.start plan.deadline with finish := some plan.deadline }
    else leg.advance plan.start plan.deadline)
  kept : ∀ edge, edge ∉ plan.legs.map (·.edge) → next.transfer? edge = simulation.transfer? edge
  queue : next.queue.Perm ((plan.legs.filter fun leg => !leg.isFinished plan.deadline).map
    (fun leg => (⟨plan.deadline, leg.edge⟩ : Event Rat)) ++ plan.later)
  inOrder : Event.InOrder next.queue
  edges : edges.Perm ((plan.legs.filter (·.isFinished plan.deadline)).map (·.edge))

/-- A round in which transfers complete on arrival. -/
structure Arrival (simulation : Simulation Rat) (edges : List EdgeId) (time : Rat)
    (next : Simulation Rat) : Prop where
  done : ∀ edge ∈ edges, simulation.isDone edge = true
  bandwidths : next.bandwidths = simulation.bandwidths
  trace : next.trace = simulation.trace
  transfer? : ∀ edge, next.transfer? edge =
    if edge ∈ edges then
      (simulation.transfer? edge).map fun transfer => { transfer with finish := some time }
    else simulation.transfer? edge
  queue : simulation.queue.Perm (edges.map (fun edge => (⟨time, edge⟩ : Event Rat)) ++ next.queue)
  inOrder : Event.InOrder next.queue
  first : ∀ event ∈ simulation.queue, time ≤ event.time

/-- What a round can do. -/
inductive Stepped (simulation : Simulation Rat) : Round Rat → Prop
  | idle (hqueue : simulation.queue = []) : Stepped simulation .idle
  | arrived {edges : List EdgeId} {time : Rat} {next : Simulation Rat}
      (harrival : simulation.Arrival edges time next) :
      Stepped simulation (.completed edges time next)
  | advanced {plan : Plan} {next : Simulation Rat} (hpassage : simulation.Passage plan [] next) :
      Stepped simulation (.advanced next)
  | completed {plan : Plan} {edges : List EdgeId} {next : Simulation Rat}
      (hpassage : simulation.Passage plan edges next) :
      Stepped simulation (.completed edges plan.deadline next)

theorem Sane.nodup (hsane : simulation.Sane) {plan : Plan} (hplans : simulation.Plans plan) :
    (plan.legs.map (·.edge)).Nodup := by
  have hperm := hplans.queue.map (·.edge)
  rw [List.map_append, List.map_map] at hperm
  exact (List.nodup_append.mp (hperm.nodup_iff.mp hsane.sound.queue.nodup)).1

theorem Sane.mem_finished (hsane : simulation.Sane) {plan : Plan}
    (hplans : simulation.Plans plan) {leg : Leg Rat} (hleg : leg ∈ plan.legs) :
    leg.edge ∈ (plan.legs.filter (·.isFinished plan.deadline)).map (·.edge) ↔
      leg.isFinished plan.deadline = true := by
  constructor
  · intro hfinished
    obtain ⟨other, hother, hedge⟩ := List.mem_map.mp hfinished
    obtain ⟨hother, hdone⟩ := List.mem_filter.mp hother
    exact List.inj_on_of_nodup_map (hsane.nodup hplans) hother hleg hedge ▸ hdone
  · exact fun hdone => List.mem_map_of_mem (List.mem_filter.mpr ⟨hleg, hdone⟩)

theorem transfer?_move_of_not_mem {legs : List (Leg Rat)} {edge : EdgeId}
    (hother : edge ∉ legs.map (·.edge)) (start deadline : Rat) (later : List (Event Rat)) :
    (simulation.move legs start deadline later).transfer? edge = simulation.transfer? edge := by
  rcases transfer?_move simulation legs start deadline later edge with ⟨leg, hleg, rfl, -⟩ | hkept
  · exact absurd (List.mem_map_of_mem hleg) hother
  · exact hkept

theorem transfer?_move_of_mem {legs : List (Leg Rat)} (hnodup : (legs.map (·.edge)).Nodup)
    {leg : Leg Rat} (hleg : leg ∈ legs) (start deadline : Rat) (later : List (Event Rat)) :
    (simulation.move legs start deadline later).transfer? leg.edge =
      some (leg.advance start deadline) := by
  induction legs generalizing simulation with
  | nil => cases hleg
  | cons first rest induction =>
      obtain ⟨hfirst, hrest⟩ := List.nodup_cons.mp hnodup
      let moved : Simulation Rat := { simulation with
        transfers := simulation.transfers.insert first.edge (first.advance start deadline) }
      have hmoved : (simulation.move (first :: rest) start deadline later).transfer? leg.edge =
          (moved.move rest start deadline later).transfer? leg.edge := rfl
      rw [hmoved]
      rcases List.mem_cons.mp hleg with rfl | hleg
      · rw [transfer?_move_of_not_mem hfirst]
        exact Std.ExtTreeMap.getElem?_insert_self
      · exact induction hrest hleg

theorem Sane.passage (hsane : simulation.Sane) {plan : Plan} (hplan : simulation.plan? = some plan)
    {edges : List EdgeId}
    (hedges : edges.Perm ((plan.legs.filter (·.isFinished plan.deadline)).map (·.edge)))
    {moved next : Simulation Rat}
    (hmoved : simulation.move plan.legs plan.start plan.deadline plan.later = moved)
    (hnext : next = moved ∧ edges = [] ∨ next = moved.complete edges plan.deadline) :
    simulation.Passage plan edges next := by
  have hplans := hsane.plans hplan
  have hnodup := hsane.nodup hplans
  obtain ⟨hbandwidths, htrace, hqueue, htransfer⟩ : next.bandwidths = moved.bandwidths ∧
      next.trace = moved.trace ∧ next.queue = moved.queue ∧
      ∀ edge, next.transfer? edge = if edge ∈ edges then
        (moved.transfer? edge).map fun transfer => { transfer with finish := some plan.deadline }
      else moved.transfer? edge := by
    rcases hnext with ⟨rfl, rfl⟩ | rfl
    · exact ⟨rfl, rfl, rfl, fun edge => (if_neg List.not_mem_nil).symm⟩
    · exact ⟨rfl, rfl, rfl, transfer?_complete moved edges plan.deadline⟩
  subst hmoved
  constructor
  case plan? => exact hplan
  case bandwidths => exact hbandwidths
  case trace =>
    rw [htrace]
    exact congrArg (simulation.trace ++ ·) (if_pos (Quantity.isLess_iff.mpr hplans.start_lt))
  case moved =>
    intro leg hleg
    have hfinished : leg.edge ∈ edges ↔ leg.isFinished plan.deadline = true :=
      hedges.mem_iff.trans (hsane.mem_finished hplans hleg)
    rw [htransfer, transfer?_move_of_mem hnodup hleg]
    simp only [hfinished]
    split <;> rfl
  case kept =>
    intro edge hother
    have hunfinished : edge ∉ edges := by
      intro hfinished
      obtain ⟨leg, hleg, hedge⟩ := List.mem_map.mp (hedges.mem_iff.mp hfinished)
      exact hother (List.mem_map.mpr ⟨leg, (List.mem_filter.mp hleg).1, hedge⟩)
    rw [htransfer, if_neg hunfinished, transfer?_move_of_not_mem hother]
  case queue =>
    rw [hqueue]
    exact perm_foldl_insertSorted Event.precedes _ _ plan.later
  case inOrder =>
    rw [hqueue]
    exact hplans.inOrder.foldl_insertSorted _ _
  case edges => exact hedges

theorem round_of_plan {plan : Plan} (hplan : simulation.plan? = some plan) {moved : Simulation Rat}
    (hmoved : simulation.move plan.legs plan.start plan.deadline plan.later = moved)
    {finished : List EdgeId}
    (hfinished : ascending ((plan.legs.filter (·.isFinished plan.deadline)).map (·.edge)) =
      finished) :
    simulation.round =
      if finished.isEmpty then .advanced moved
      else .completed finished plan.deadline (moved.complete finished plan.deadline) := by
  subst hmoved hfinished
  obtain ⟨bandwidths, transfers, queue, trace, now⟩ := simulation
  cases queue with
  | nil => cases hplan
  | cons first rest =>
      unfold plan? at hplan
      unfold round
      dsimp only at hplan ⊢
      split at hplan
      case isFalse => cases hplan
      case isTrue hnone =>
        cases hplan
        exact if_pos hnone

theorem Sane.arrival (hsane : simulation.Sane) {time : Rat} {ready later : List (Event Rat)}
    (hbatches : simulation.Batches time ready later) :
    let edges := ascending ((ready.map (·.edge)).filter simulation.isDone)
    let moving := ready.filter fun event => !simulation.isDone event.edge
    simulation.Arrival edges time
      (complete { simulation with queue := moving ++ later } edges time) := by
  constructor
  case done =>
    intro edge hedge
    exact (List.mem_filter.mp ((perm_ascending _).mem_iff.mp hedge)).2
  case bandwidths => rfl
  case trace => rfl
  case transfer? => exact transfer?_complete _ _ time
  case queue =>
    have hdone := @events_at (ready.filter fun event => simulation.isDone event.edge) time
      fun event hevent => hbatches.ready_at event (List.mem_filter.mp hevent).1
    have hperm := (perm_ascending ((ready.map (·.edge)).filter simulation.isDone)).map
      fun edge => (⟨time, edge⟩ : Event Rat)
    rw [List.filter_map, Function.comp_def, ← hdone] at hperm
    rw [← hbatches.queue, List.filter_map, Function.comp_def]
    apply List.Perm.trans _ (hperm.symm.append_right _)
    change (ready ++ later).Perm (_ ++ (_ ++ later))
    rw [← List.append_assoc]
    exact (List.filter_append_perm _ ready).symm.append_right later
  case inOrder =>
    refine List.Pairwise.sublist ?_ hsane.inOrder
    rw [← hbatches.queue]
    exact List.filter_sublist.append_right later
  case first =>
    rw [← hbatches.queue]
    intro event hevent
    rcases List.mem_append.mp hevent with hready | hlater
    · exact le_of_eq (hbatches.ready_at event hready).symm
    · exact le_of_lt (hbatches.later_lt event hlater)

theorem Sane.stepped_of_no_plan (hsane : simulation.Sane) (hplan : simulation.plan? = none) :
    simulation.Stepped simulation.round := by
  unfold plan? at hplan
  unfold round
  split
  case h_1 hqueue => exact .idle hqueue
  case h_2 first rest hqueue =>
    -- There is no plan because some of the ready transfers have nothing left to do.
    have hsome : ¬(((simulation.queue.takeWhile (isAt first.time)).map (·.edge)).filter
        simulation.isDone).isEmpty = true := by
      intro hnone
      rw [hqueue] at hnone hplan
      exact absurd ((if_pos hnone).symm.trans hplan) (Option.some_ne_none _)
    dsimp only
    rw [if_neg hsome]
    exact .arrived (hsane.arrival (hsane.batches hqueue))

/-- After a round nothing is ready before it has ended. -/
theorem Passage.le_next {plan : Plan} {edges : List EdgeId} {next : Simulation Rat}
    (hpassage : simulation.Passage plan edges next) (hplans : simulation.Plans plan) :
    ∀ event ∈ next.queue, plan.deadline ≤ event.time := by
  intro event hevent
  rcases List.mem_append.mp (hpassage.queue.mem_iff.mp hevent) with hback | hlater
  · obtain ⟨leg, -, rfl⟩ := List.mem_map.mp hback
    exact le_rfl
  · exact hplans.le_later event hlater

theorem Sane.stepped (hsane : simulation.Sane) : simulation.Stepped simulation.round := by
  cases hplan : simulation.plan? with
  | none => exact hsane.stepped_of_no_plan hplan
  | some plan =>
      have hperm := perm_ascending ((plan.legs.filter (·.isFinished plan.deadline)).map (·.edge))
      rw [round_of_plan hplan rfl rfl]
      split
      case isTrue hnone =>
        rw [List.isEmpty_iff.mp hnone] at hperm
        exact .advanced (hsane.passage hplan hperm rfl (Or.inl ⟨rfl, rfl⟩))
      case isFalse => exact .completed (hsane.passage hplan hperm rfl (Or.inr rfl))

end Simulation

end TiledPlacement
