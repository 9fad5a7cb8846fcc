import Mathlib.Data.List.Sort
import TiledPlacement.Proofs.Action
import TiledPlacement.Transfer.Run

/-!
What a round keeps about the transfers of a simulation, whatever the arithmetic does: the queue
holds the unfinished ones, once each, and a transfer has records of the hops that it has crossed and
perhaps of the one it is on.
-/

namespace TiledPlacement

theorem insertSorted_eq (precedes : α → α → Bool) (item : α) (list : List α) :
    insertSorted precedes item list = list.orderedInsert (precedes · ·) item := by
  induction list with
  | nil => rfl
  | cons first rest induction => rw [insertSorted, List.orderedInsert_cons, induction]

theorem sortedBy_eq (precedes : α → α → Bool) (list : List α) :
    sortedBy precedes list = list.insertionSort (precedes · ·) := by
  induction list with
  | nil => rfl
  | cons first rest induction =>
      rw [List.insertionSort_cons, ← induction, ← insertSorted_eq]
      rfl

theorem perm_insertSorted (precedes : α → α → Bool) (item : α) (list : List α) :
    (insertSorted precedes item list).Perm (item :: list) := by
  rw [insertSorted_eq]
  exact List.perm_orderedInsert _ item list

theorem perm_sortedBy (precedes : α → α → Bool) (list : List α) :
    (sortedBy precedes list).Perm list := by
  rw [sortedBy_eq]
  exact List.perm_insertionSort _ list

theorem perm_foldl_insertSorted (precedes : α → α → Bool) (make : β → α) (items : List β)
    (list : List α) :
    (items.foldl (fun list item => insertSorted precedes (make item) list) list).Perm
      (items.map make ++ list) := by
  induction items generalizing list with
  | nil => exact List.Perm.refl list
  | cons item rest induction =>
      apply (induction _).trans
      apply ((perm_insertSorted precedes (make item) list).append_left (rest.map make)).trans
      exact List.perm_middle

variable {ρ : Type} [Quantity ρ]

namespace Transfer

/-- The records of a transfer are those of the hops it has crossed, closed, and at most an open one
of the hop that is next. -/
structure Tracked (transfer : Transfer ρ) : Prop where
  within : transfer.next ≤ transfer.hops.length
  crossed : ∀ hop < transfer.next, ∃ record, transfer.record? hop = some record ∧
    record.stop.isSome = true ∧ record.fraction = Quantity.one
  current : ∀ record, transfer.record? transfer.next = some record → record.stop = none
  ahead : ∀ hop, transfer.next < hop → transfer.record? hop = none

theorem tracked_queued (bytes : Nat) (hops : List (Link ρ)) :
    (Transfer.queued bytes hops).Tracked := by
  have hnone : ∀ hop, (Transfer.queued bytes hops).record? hop = none :=
    fun hop => Std.ExtTreeMap.getElem?_empty
  constructor
  case within => exact Nat.zero_le _
  case crossed => exact fun hop hless => absurd hless (Nat.not_lt_zero hop)
  case current => exact fun record hrecord => absurd ((hnone 0).symm.trans hrecord) (by simp)
  case ahead => exact fun hop _ => hnone hop

theorem Tracked.finished {transfer : Transfer ρ} (htracked : transfer.Tracked) (time : ρ) :
    ({ transfer with finish := some time } : Transfer ρ).Tracked :=
  ⟨htracked.within, htracked.crossed, htracked.current, htracked.ahead⟩

end Transfer

namespace Leg

/-- A leg as a round plans it for a transfer. -/
structure Starts (leg : Leg ρ) : Prop where
  tracked : leg.transfer.Tracked
  link : leg.transfer.link? = some leg.link
  fresh : leg.record.stop = none

theorem Starts.advance {leg : Leg ρ} (hstarts : leg.Starts) (start deadline : ρ) :
    (leg.advance start deadline).Tracked := by
  have hhop : leg.transfer.next < leg.transfer.hops.length :=
    (List.getElem?_eq_some_iff.mp hstarts.link).1
  have hrecord : ∀ (record : HopRecord ρ) (hop : Nat),
      (leg.transfer.records.insert leg.transfer.next record)[hop]? =
        if hop = leg.transfer.next then some record else leg.transfer.record? hop := by
    intro record hop
    simp only [Std.ExtTreeMap.getElem?_insert, Std.LawfulEqCmp.compare_eq_iff_eq,
      @eq_comm _ leg.transfer.next hop]
    rfl
  unfold Leg.advance
  dsimp only
  split
  case isTrue =>
    constructor
    case within => exact hhop
    case crossed =>
      intro hop hless
      simp only [Transfer.record?, hrecord]
      split
      case isTrue => exact ⟨_, rfl, rfl, rfl⟩
      case isFalse hother =>
        exact hstarts.tracked.crossed hop
          (Nat.lt_of_le_of_ne (Nat.le_of_lt_succ hless) hother)
    case current =>
      intro record hnext
      simp only [Transfer.record?, hrecord, if_neg (Nat.succ_ne_self _)] at hnext
      cases (hstarts.tracked.ahead _ (Nat.lt_succ_self _)).symm.trans hnext
    case ahead =>
      intro hop hless
      have hlater : leg.transfer.next < hop := Nat.lt_of_succ_lt hless
      simp only [Transfer.record?, hrecord, if_neg (Nat.ne_of_gt hlater)]
      exact hstarts.tracked.ahead hop hlater
  case isFalse =>
    constructor
    case within => exact hstarts.tracked.within
    case crossed =>
      intro hop hless
      simp only [Transfer.record?, hrecord, if_neg (Nat.ne_of_lt hless)]
      exact hstarts.tracked.crossed hop hless
    case current =>
      intro record hnext
      simp only [Transfer.record?, hrecord, if_true, Option.some.injEq] at hnext
      rw [← hnext]
      exact hstarts.fresh
    case ahead =>
      intro hop hless
      simp only [Transfer.record?, hrecord, if_neg (Nat.ne_of_gt hless)]
      exact hstarts.tracked.ahead hop hless

theorem finish_advance (leg : Leg ρ) (start deadline : ρ) :
    (leg.advance start deadline).finish = leg.transfer.finish := by
  unfold advance
  dsimp only
  split <;> rfl

end Leg

namespace Simulation

variable {simulation : Simulation ρ}

/-- Nothing for an unknown transfer, else when it has finished, if it has. -/
def outcome? (simulation : Simulation ρ) (edge : EdgeId) : Option (Option ρ) :=
  (simulation.transfer? edge).map (·.finish)

/-- The list has the transfers that have not finished, once each. -/
structure Awaits (simulation : Simulation ρ) (edges : List EdgeId) : Prop where
  nodup : edges.Nodup
  mem_iff : ∀ edge, edge ∈ edges ↔ simulation.outcome? edge = some none

omit [Quantity ρ] in
theorem Awaits.perm {edges other : List EdgeId} (hawaits : simulation.Awaits edges)
    (hperm : edges.Perm other) : simulation.Awaits other :=
  ⟨hperm.nodup_iff.mp hawaits.nodup, fun edge => hperm.mem_iff.symm.trans (hawaits.mem_iff edge)⟩

omit [Quantity ρ] in
theorem Awaits.congr {edges : List EdgeId} {next : Simulation ρ}
    (hawaits : simulation.Awaits edges)
    (houtcome : ∀ edge, next.outcome? edge = simulation.outcome? edge) : next.Awaits edges :=
  ⟨hawaits.nodup, fun edge => by rw [houtcome, hawaits.mem_iff]⟩

def Tracked (simulation : Simulation ρ) : Prop :=
  ∀ edge transfer, simulation.transfer? edge = some transfer → transfer.Tracked

structure Sound (simulation : Simulation ρ) : Prop where
  queue : simulation.Awaits (simulation.queue.map (·.edge))
  tracked : simulation.Tracked

theorem transfer?_empty (bandwidths : List ρ) (edge : EdgeId) :
    (Simulation.empty bandwidths).transfer? edge = none :=
  Std.ExtTreeMap.getElem?_empty

theorem sound_empty (bandwidths : List ρ) : (Simulation.empty bandwidths).Sound := by
  constructor
  case queue =>
    refine ⟨List.nodup_nil, fun edge => ?_⟩
    rw [outcome?, transfer?_empty]
    simp [empty]
  case tracked =>
    intro edge transfer htransfer
    cases (transfer?_empty bandwidths edge).symm.trans htransfer

section Add

variable {edge : EdgeId} {bytes : Nat} {start : ρ} {path : List Coordinate}

/-- What an accepted transfer does to a simulation. -/
theorem add_eq_ok {next : Simulation ρ} (hadd : simulation.add edge bytes start path = .ok next) :
    simulation.transfer? edge = none ∧
      ∃ hops, (Route.hops path).mapM simulation.link = .ok hops ∧ next =
        { simulation with
          transfers := simulation.transfers.insert edge (.queued bytes hops)
          queue := insertSorted Event.precedes ⟨start, edge⟩ simulation.queue } := by
  unfold add at hadd
  split at hadd
  case isTrue =>
    cases hadd
  case isFalse hfresh =>
    obtain ⟨hops, hhops, hnext⟩ := bind_eq_ok_iff.mp hadd
    cases hnext
    rw [Std.ExtTreeMap.contains_iff_mem] at hfresh
    exact ⟨Std.ExtTreeMap.getElem?_eq_none hfresh, hops, hhops, rfl⟩

theorem outcome?_add {next : Simulation ρ}
    (hadd : simulation.add edge bytes start path = .ok next) (other : EdgeId) :
    next.outcome? other = if other = edge then some none else simulation.outcome? other := by
  obtain ⟨hunknown, hops, -, rfl⟩ := add_eq_ok hadd
  unfold outcome? transfer?
  dsimp only
  rw [Std.ExtTreeMap.getElem?_insert]
  simp only [Std.LawfulEqCmp.compare_eq_iff_eq, @eq_comm _ edge other]
  split <;> rfl

theorem Sound.add {next : Simulation ρ} (hsound : simulation.Sound)
    (hadd : simulation.add edge bytes start path = .ok next) : next.Sound := by
  have houtcome := outcome?_add hadd
  obtain ⟨hunknown, hops, -, rfl⟩ := add_eq_ok hadd
  have hnew : edge ∉ simulation.queue.map (·.edge) := by
    rw [hsound.queue.mem_iff, outcome?, hunknown]
    simp
  constructor
  case queue =>
    have hperm := (perm_insertSorted Event.precedes ⟨start, edge⟩ simulation.queue).map (·.edge)
    apply Awaits.perm _ hperm.symm
    refine ⟨List.nodup_cons.mpr ⟨hnew, hsound.queue.nodup⟩, fun other => ?_⟩
    rw [houtcome, List.map_cons, List.mem_cons, hsound.queue.mem_iff]
    split
    case isTrue hsame => simp [hsame]
    case isFalse hother => simp [hother]
  case tracked =>
    intro other transfer htransfer
    simp only [transfer?, Std.ExtTreeMap.getElem?_insert] at htransfer
    split at htransfer
    case isTrue =>
      cases htransfer
      exact Transfer.tracked_queued bytes hops
    case isFalse => exact hsound.tracked other transfer htransfer

end Add

section Complete

variable {edges : List EdgeId} {time : ρ}

omit [Quantity ρ] in
theorem transfer?_complete (simulation : Simulation ρ) (edges : List EdgeId) (time : ρ)
    (edge : EdgeId) :
    (simulation.complete edges time).transfer? edge =
      if edge ∈ edges then
        (simulation.transfer? edge).map fun transfer => { transfer with finish := some time }
      else simulation.transfer? edge := by
  unfold complete transfer?
  dsimp only
  generalize simulation.transfers = transfers
  induction edges generalizing transfers with
  | nil => simp
  | cons first rest induction =>
      rw [List.foldl_cons, induction, Std.ExtTreeMap.getElem?_modify]
      simp only [Std.LawfulEqCmp.compare_eq_iff_eq, List.mem_cons, @eq_comm _ first edge]
      by_cases hsame : edge = first
      · subst hsame
        simp only [if_true, true_or, Option.map_map]
        split <;> rfl
      · simp only [hsame, false_or, if_false]

/-- Everything about a call or a round that completes transfers: it names them in order, none of
them had finished before, and no other is touched. -/
structure Completes (simulation : Simulation ρ) (edges : List EdgeId) (time : ρ)
    (next : Simulation ρ) : Prop where
  nonempty : edges ≠ []
  ascending : edges.Pairwise fun left right => compare left right = .lt
  due : ∀ edge ∈ edges, simulation.outcome? edge = some none
  outcome : ∀ edge, next.outcome? edge =
    if edge ∈ edges then some (some time) else simulation.outcome? edge

theorem perm_ascending (edges : List EdgeId) : (ascending edges).Perm edges :=
  perm_sortedBy _ edges

theorem pairwise_ascending {edges : List EdgeId} (hnodup : edges.Nodup) :
    (ascending edges).Pairwise fun left right => compare left right = .lt := by
  have : Std.Total fun left right : EdgeId => (compare left right).isLE = true :=
    ⟨fun _ _ => or_iff_not_imp_left.mpr fun hnot =>
      Ordering.isLE_of_eq_lt (Std.OrientedCmp.lt_of_not_isLE hnot)⟩
  have : IsTrans EdgeId fun left right => (compare left right).isLE = true :=
    ⟨fun _ _ _ => Std.TransCmp.isLE_trans⟩
  have hsorted : (ascending edges).Pairwise fun left right => (compare left right).isLE = true := by
    rw [ascending, sortedBy_eq]
    exact List.pairwise_insertionSort _ edges
  have hdistinct := (perm_ascending edges).nodup_iff.mpr hnodup
  apply (hsorted.and hdistinct).imp
  intro left right hboth
  have hle := Ordering.isLE_iff_eq_lt_or_eq_eq.mp hboth.1
  exact hle.resolve_right fun hequal => hboth.2 (Std.LawfulEqCmp.eq_of_compare hequal)

/-- The transfers listed have left the queue; now they finish. -/
theorem Sound.complete (hawaits : simulation.Awaits (edges ++ simulation.queue.map (·.edge)))
    (htracked : simulation.Tracked) : (simulation.complete edges time).Sound := by
  obtain ⟨hedges, hqueue, hdisjoint⟩ := List.nodup_append.mp hawaits.nodup
  constructor
  case queue =>
    refine ⟨hqueue, fun edge => ?_⟩
    have hmember := hawaits.mem_iff edge
    rw [List.mem_append, outcome?] at hmember
    rw [outcome?, transfer?_complete]
    change edge ∈ simulation.queue.map (·.edge) ↔ _
    split
    case isTrue hfinished =>
      have hgone : edge ∉ simulation.queue.map (·.edge) :=
        fun hqueued => hdisjoint edge hfinished edge hqueued rfl
      simp [hgone]
    case isFalse hother => simpa only [hother, false_or] using hmember
  case tracked =>
    intro edge transfer htransfer
    rw [transfer?_complete] at htransfer
    split at htransfer
    case isTrue =>
      obtain ⟨before, hbefore, rfl⟩ := Option.map_eq_some_iff.mp htransfer
      exact (htracked edge before hbefore).finished time
    case isFalse => exact htracked edge transfer htransfer

omit [Quantity ρ] in
theorem Completes.nodup {next : Simulation ρ} (hcompletes : simulation.Completes edges time next) :
    edges.Nodup := by
  apply hcompletes.ascending.imp
  intro left right hless hsame
  rw [hsame, Std.ReflOrd.compare_self] at hless
  cases hless

omit [Quantity ρ] in
theorem Completes.congr {middle next : Simulation ρ} (hcompletes : middle.Completes edges time next)
    (houtcome : ∀ edge, middle.outcome? edge = simulation.outcome? edge) :
    simulation.Completes edges time next where
  nonempty := hcompletes.nonempty
  ascending := hcompletes.ascending
  due := fun edge hedge => (houtcome edge).symm.trans (hcompletes.due edge hedge)
  outcome := fun edge => houtcome edge ▸ hcompletes.outcome edge

omit [Quantity ρ] in
theorem completes_complete (hsome : ascending edges ≠ []) {waiting : List EdgeId}
    (hawaits : simulation.Awaits (edges ++ waiting)) (time : ρ) :
    simulation.Completes (ascending edges) time (simulation.complete (ascending edges) time) := by
  have hdue : ∀ edge ∈ ascending edges, simulation.outcome? edge = some none := by
    intro edge hedge
    apply (hawaits.mem_iff edge).mp
    exact List.mem_append_left _ ((perm_ascending edges).mem_iff.mp hedge)
  constructor
  case nonempty => exact hsome
  case ascending => exact pairwise_ascending (List.nodup_append.mp hawaits.nodup).1
  case due => exact hdue
  case outcome =>
    intro edge
    rw [outcome?, transfer?_complete]
    split
    case isTrue hedge =>
      obtain ⟨transfer, htransfer, -⟩ := Option.map_eq_some_iff.mp (hdue edge hedge)
      rw [htransfer]
      rfl
    case isFalse => rfl

end Complete

section Move

variable {start deadline : ρ} {batch : List EdgeId} {later : List (Event ρ)}

theorem leg?_eq_some {hops : List Hop} {edge : EdgeId} {leg : Leg ρ}
    (hleg : simulation.leg? start hops edge = some leg) :
    leg.edge = edge ∧ simulation.transfer? edge = some leg.transfer ∧
      leg.transfer.link? = some leg.link ∧
      leg.record = (leg.transfer.record? leg.transfer.next).getD ⟨start, none, Quantity.zero⟩ := by
  unfold leg? at hleg
  obtain ⟨transfer, htransfer, hleg⟩ := Option.bind_eq_some_iff.mp hleg
  obtain ⟨link, hlink, hleg⟩ := Option.bind_eq_some_iff.mp hleg
  cases hleg
  exact ⟨rfl, htransfer, hlink, rfl⟩

theorem exists_leg? {edge : EdgeId} (hmoving : simulation.isDone edge = false) (hops : List Hop) :
    ∃ leg, simulation.leg? start hops edge = some leg := by
  unfold isDone at hmoving
  cases htransfer : simulation.transfer? edge with
  | none =>
      rw [htransfer] at hmoving
      cases hmoving
  | some transfer =>
      rw [htransfer, Option.all_some, Transfer.isDone, Bool.or_eq_false_iff,
        Option.isNone_eq_false_iff, Option.isSome_iff_exists] at hmoving
      obtain ⟨-, link, hlink⟩ := hmoving
      unfold leg?
      simp [htransfer, hlink]

theorem of_mem_legs {leg : Leg ρ} (hleg : leg ∈ simulation.legs start batch) :
    simulation.transfer? leg.edge = some leg.transfer ∧ leg.transfer.link? = some leg.link ∧
      leg.record = (leg.transfer.record? leg.transfer.next).getD ⟨start, none, Quantity.zero⟩ := by
  have hplanned := (perm_sortedBy _ _).mem_iff.mp hleg
  obtain ⟨edge, -, hedge⟩ := List.mem_filterMap.mp hplanned
  obtain ⟨rfl, hrest⟩ := leg?_eq_some hedge
  exact hrest

/-- Of transfers that all have something left to do, each takes part in the round once. -/
theorem perm_edge_legs (hmoving : ∀ edge ∈ batch, simulation.isDone edge = false) :
    ((simulation.legs start batch).map (·.edge)).Perm batch := by
  apply ((perm_sortedBy Leg.precedes _).map (·.edge)).trans
  rw [List.map_filterMap]
  apply List.Perm.of_eq
  have hsame : ∀ edge ∈ batch,
      (simulation.leg? start (batch.filterMap simulation.hop?) edge).map (·.edge) = some edge := by
    intro edge hedge
    obtain ⟨leg, hleg⟩ := exists_leg? (hmoving edge hedge) (batch.filterMap simulation.hop?)
    rw [hleg, Option.map_some, (leg?_eq_some hleg).1]
  rw [List.filterMap_congr hsame, List.filterMap_some]

theorem transfer?_move (simulation : Simulation ρ) (legs : List (Leg ρ)) (start deadline : ρ)
    (later : List (Event ρ)) (edge : EdgeId) :
    (∃ leg ∈ legs, leg.edge = edge ∧ (simulation.move legs start deadline later).transfer? edge =
        some (leg.advance start deadline)) ∨
      (simulation.move legs start deadline later).transfer? edge = simulation.transfer? edge := by
  unfold move transfer?
  dsimp only
  generalize simulation.transfers = transfers
  induction legs generalizing transfers with
  | nil => exact Or.inr rfl
  | cons first rest induction =>
      rw [List.foldl_cons]
      rcases induction (transfers.insert first.edge (first.advance start deadline)) with
        ⟨leg, hleg, hedge, hmoved⟩ | hkept
      · exact Or.inl ⟨leg, List.mem_cons_of_mem _ hleg, hedge, hmoved⟩
      · rw [hkept, Std.ExtTreeMap.getElem?_insert]
        split
        case isTrue hsame =>
          exact Or.inl ⟨first, List.mem_cons_self, Std.LawfulEqCmp.eq_of_compare hsame, rfl⟩
        case isFalse => exact Or.inr rfl

theorem outcome?_move (simulation : Simulation ρ) (batch : List EdgeId) (start deadline : ρ)
    (later : List (Event ρ)) (edge : EdgeId) :
    (simulation.move (simulation.legs start batch) start deadline later).outcome? edge =
      simulation.outcome? edge := by
  unfold outcome?
  rcases transfer?_move simulation (simulation.legs start batch) start deadline later edge with
    ⟨leg, hleg, rfl, hmoved⟩ | hkept
  · rw [hmoved, (of_mem_legs hleg).1, Option.map_some, Option.map_some, leg.finish_advance]
  · rw [hkept]

theorem Tracked.move (htracked : simulation.Tracked) (batch : List EdgeId) (start deadline : ρ)
    (later : List (Event ρ)) :
    (simulation.move (simulation.legs start batch) start deadline later).Tracked := by
  intro edge transfer htransfer
  rcases transfer?_move simulation (simulation.legs start batch) start deadline later edge with
    ⟨leg, hleg, -, hmoved⟩ | hkept
  · cases hmoved.symm.trans htransfer
    obtain ⟨hbefore, hlink, hrecord⟩ := of_mem_legs hleg
    have hknown := htracked leg.edge leg.transfer hbefore
    have hfresh : leg.record.stop = none := by
      rw [hrecord]
      cases hpresent : leg.transfer.record? leg.transfer.next with
      | none => rfl
      | some record => exact hknown.current record hpresent
    exact Leg.Starts.advance ⟨hknown, hlink, hfresh⟩ start deadline
  · exact htracked edge transfer (hkept.symm.trans htransfer)

/-- The legs are distributed over those through their route and those back in the queue. -/
theorem perm_queue_move (simulation : Simulation ρ) (legs : List (Leg ρ)) (start deadline : ρ)
    (later : List (Event ρ)) :
    ((legs.filter (·.isFinished deadline)).map (·.edge) ++
        (simulation.move legs start deadline later).queue.map (·.edge)).Perm
      (legs.map (·.edge) ++ later.map (·.edge)) := by
  have hqueue : ((simulation.move legs start deadline later).queue.map (·.edge)).Perm
      ((legs.filter fun leg => !leg.isFinished deadline).map (·.edge) ++ later.map (·.edge)) := by
    have hfold := (perm_foldl_insertSorted Event.precedes
      (fun leg : Leg ρ => (⟨deadline, leg.edge⟩ : Event ρ))
      (legs.filter fun leg => !leg.isFinished deadline) later).map (·.edge)
    rw [List.map_append, List.map_map] at hfold
    exact hfold
  apply (hqueue.append_left _).trans
  rw [← List.append_assoc, ← List.map_append]
  exact ((List.filter_append_perm _ legs).map (·.edge)).append_right _

end Move

section Round

/-- What a round can do to a sound simulation. -/
inductive Turned (simulation : Simulation ρ) : Round ρ → Prop
  | idle (hqueue : simulation.queue = []) : Turned simulation .idle
  | completed {edges : List EdgeId} {time : ρ} {next : Simulation ρ}
      (hcompletes : simulation.Completes edges time next) (hsound : next.Sound) :
      Turned simulation (.completed edges time next)
  | advanced {next : Simulation ρ}
      (houtcome : ∀ edge, next.outcome? edge = simulation.outcome? edge) (hsound : next.Sound) :
      Turned simulation (.advanced next)

variable {ready later : List (Event ρ)} {start deadline : ρ}

/-- Some of the transfers that are ready have nothing left to do. -/
theorem Sound.turned_arrival (hsound : simulation.Sound)
    (hsplit : ready ++ later = simulation.queue) {done : List EdgeId}
    (hdone : (ready.map (·.edge)).filter simulation.isDone = done) (hsome : ascending done ≠ [])
    {waiting : Simulation ρ}
    (hwaiting : { simulation with
      queue := (ready.filter fun event => !simulation.isDone event.edge) ++ later } = waiting) :
    Turned simulation
      (.completed (ascending done) start (waiting.complete (ascending done) start)) := by
  have houtcome : ∀ edge, waiting.outcome? edge = simulation.outcome? edge := by
    intro edge
    rw [← hwaiting]
    rfl
  have hperm : (simulation.queue.map (·.edge)).Perm (done ++ waiting.queue.map (·.edge)) := by
    rw [← hsplit, ← hdone, ← hwaiting, List.filter_map, List.map_append, List.map_append,
      ← List.append_assoc]
    apply List.Perm.append_right
    rw [← List.map_append]
    exact ((List.filter_append_perm _ ready).map (·.edge)).symm
  have hawaits := (hsound.queue.perm hperm).congr houtcome
  apply Turned.completed
  · exact (completes_complete hsome hawaits start).congr houtcome
  · apply Sound.complete
    · exact hawaits.perm ((perm_ascending done).symm.append_right _)
    · exact hwaiting ▸ hsound.tracked

/-- All transfers that are ready have something left to do. -/
theorem Sound.turned_move (hsound : simulation.Sound)
    (hsplit : ready ++ later = simulation.queue)
    (hmoving : ∀ edge ∈ ready.map (·.edge), simulation.isDone edge = false) {legs : List (Leg ρ)}
    (hlegs : simulation.legs start (ready.map (·.edge)) = legs) {finished : List EdgeId}
    (hfinished : (legs.filter (·.isFinished deadline)).map (·.edge) = finished) :
    Turned simulation (if (ascending finished).isEmpty then
        .advanced (simulation.move legs start deadline later)
      else .completed (ascending finished) deadline
        ((simulation.move legs start deadline later).complete (ascending finished) deadline)) := by
  have houtcome := outcome?_move simulation (ready.map (·.edge)) start deadline later
  rw [hlegs] at houtcome
  have hperm : (simulation.queue.map (·.edge)).Perm
      (finished ++ (simulation.move legs start deadline later).queue.map (·.edge)) := by
    rw [← hsplit, ← hfinished, List.map_append]
    apply List.Perm.trans _ (perm_queue_move simulation legs start deadline later).symm
    exact (hlegs ▸ perm_edge_legs hmoving).symm.append_right _
  -- No finish time is set yet, so the transfers through their route still count as unfinished.
  have hawaits := (hsound.queue.perm hperm).congr houtcome
  have htracked := hsound.tracked.move (ready.map (·.edge)) start deadline later
  rw [hlegs] at htracked
  split
  case isTrue hnone =>
    have hempty := (perm_ascending finished).isEmpty_eq.symm.trans hnone
    rw [List.isEmpty_iff.mp hempty] at hawaits
    exact .advanced houtcome ⟨hawaits, htracked⟩
  case isFalse hsome =>
    rw [List.isEmpty_iff] at hsome
    apply Turned.completed
    · exact (completes_complete hsome hawaits deadline).congr houtcome
    · apply Sound.complete
      · exact hawaits.perm ((perm_ascending finished).symm.append_right _)
      · exact htracked

theorem Sound.turned (hsound : simulation.Sound) : Turned simulation simulation.round := by
  unfold round
  split
  case h_1 hqueue => exact .idle hqueue
  case h_2 first rest hqueue =>
    have hsplit := List.takeWhile_append_dropWhile (p := isAt first.time) (l := simulation.queue)
    dsimp only
    split
    case isTrue hnone =>
      apply hsound.turned_move hsplit _ rfl rfl
      intro edge hedge
      rw [List.isEmpty_iff, List.filter_eq_nil_iff] at hnone
      exact Bool.eq_false_iff.mpr (hnone edge hedge)
    case isFalse hsome =>
      apply hsound.turned_arrival hsplit rfl _ rfl
      rw [← (perm_ascending _).isEmpty_eq, List.isEmpty_iff] at hsome
      exact hsome

end Round

end Simulation

end TiledPlacement
