import TiledPlacement.Proofs.Transfer.Progress
import TiledPlacement.Transfer.Run

/-!
Simulations that calls lead to, and what the calls have returned. No transfer is lost, and none
completes twice.
-/

namespace TiledPlacement

variable {ρ : Type} [Quantity ρ]

namespace Simulation

variable {simulation : Simulation ρ}

inductive Evaluated (simulation : Simulation ρ) : Evaluation ρ × Simulation ρ → Prop
  | idle {last : Simulation ρ} (hqueue : last.queue = [])
      (houtcome : ∀ edge, last.outcome? edge = simulation.outcome? edge) (hsound : last.Sound) :
      Evaluated simulation (.idle, last)
  | completed {edges : List EdgeId} {time : ρ} {next : Simulation ρ}
      (hcompletes : simulation.Completes edges time next) (hsound : next.Sound) :
      Evaluated simulation (.completed edges time, next)

theorem Evaluated.congr {middle : Simulation ρ} {result : Evaluation ρ × Simulation ρ}
    (hevaluated : middle.Evaluated result)
    (hsame : ∀ edge, middle.outcome? edge = simulation.outcome? edge) :
    simulation.Evaluated result := by
  cases hevaluated with
  | idle hqueue houtcome hsound =>
      exact .idle hqueue (fun edge => (houtcome edge).trans (hsame edge)) hsound
  | completed hcompletes hsound => exact .completed (hcompletes.congr hsame) hsound

/-- What the rounds keep, a call that ends keeps. -/
theorem Sound.evaluated {limit : Nat} (hsound : simulation.Sound)
    {result : Evaluation ρ × Simulation ρ}
    (hevaluate : simulation.evaluate limit = some result) : simulation.Evaluated result := by
  induction limit generalizing simulation with
  | zero => cases hevaluate
  | succ limit induction =>
      have hturned := hsound.turned
      unfold evaluate at hevaluate
      split at hevaluate
      case h_1 hidle =>
        rw [hidle] at hturned
        cases hevaluate
        cases hturned with
        | idle hqueue => exact .idle hqueue (fun edge => rfl) hsound
      case h_2 edges time next hcompleted =>
        rw [hcompleted] at hturned
        cases hevaluate
        cases hturned with
        | completed hcompletes hnext => exact .completed hcompletes hnext
      case h_3 next hadvanced =>
        rw [hadvanced] at hturned
        cases hturned with
        | advanced houtcome hnext => exact (induction hnext hevaluate).congr houtcome

/-- A call that ends does the same when it is allowed more rounds. -/
theorem evaluate_of_le {limit more : Nat} (hmore : limit ≤ more)
    {result : Evaluation ρ × Simulation ρ}
    (hevaluate : simulation.evaluate limit = some result) :
    simulation.evaluate more = some result := by
  induction limit generalizing simulation more with
  | zero => cases hevaluate
  | succ limit induction =>
      obtain ⟨more, rfl⟩ := Nat.exists_eq_add_of_le' (Nat.le_trans (Nat.le_add_left 1 limit) hmore)
      unfold evaluate at hevaluate ⊢
      cases hround : simulation.round with
      | idle => simpa only [hround] using hevaluate
      | completed edges time next => simpa only [hround] using hevaluate
      | advanced next =>
          simp only [hround] at hevaluate ⊢
          exact induction (Nat.le_of_succ_le_succ hmore) hevaluate

/-- The simulation after some calls and possibly some rounds of a call that has not ended, the
transfers that it has accepted, last one first, and the lists that the calls have returned. -/
inductive History : Simulation ρ → List EdgeId → List (List EdgeId) → Prop
  | empty (bandwidths : List ρ) : History (.empty bandwidths) [] []
  | added {simulation next : Simulation ρ} {accepted : List EdgeId}
      {returned : List (List EdgeId)} {edge : EdgeId} {bytes : Nat} {start : ρ}
      {path : List Coordinate} (hhistory : History simulation accepted returned)
      (hadd : simulation.add edge bytes start path = .ok next) :
      History next (edge :: accepted) returned
  | requeued {simulation next : Simulation ρ} {accepted : List EdgeId}
      {returned : List (List EdgeId)} (hhistory : History simulation accepted returned)
      (hround : simulation.round = .advanced next) : History next accepted returned
  | idle {simulation next : Simulation ρ} {accepted : List EdgeId}
      {returned : List (List EdgeId)} {limit : Nat}
      (hhistory : History simulation accepted returned)
      (hevaluate : simulation.evaluate limit = some (.idle, next)) :
      History next accepted returned
  | completed {simulation next : Simulation ρ} {accepted : List EdgeId}
      {returned : List (List EdgeId)} {limit : Nat} {edges : List EdgeId} {time : ρ}
      (hhistory : History simulation accepted returned)
      (hevaluate : simulation.evaluate limit = some (.completed edges time, next)) :
      History next accepted (returned ++ [edges])

/-- The transfers are those that were accepted, once each, and the lists returned so far name the
ones that have finished, once each. -/
structure Records (simulation : Simulation ρ) (accepted : List EdgeId)
    (returned : List (List EdgeId)) : Prop where
  sound : simulation.Sound
  accepted_nodup : accepted.Nodup
  mem_accepted_iff : ∀ edge, edge ∈ accepted ↔ (simulation.outcome? edge).isSome = true
  nodup : returned.flatten.Nodup
  mem_iff : ∀ edge, edge ∈ returned.flatten ↔ ∃ time, simulation.outcome? edge = some (some time)

theorem Records.congr {accepted : List EdgeId} {returned : List (List EdgeId)}
    {next : Simulation ρ} (hrecords : simulation.Records accepted returned)
    (houtcome : ∀ edge, next.outcome? edge = simulation.outcome? edge) (hsound : next.Sound) :
    next.Records accepted returned :=
  ⟨hsound, hrecords.accepted_nodup, fun edge => by rw [houtcome, hrecords.mem_accepted_iff],
    hrecords.nodup, fun edge => by rw [houtcome, hrecords.mem_iff]⟩

theorem Records.completed {accepted : List EdgeId} {returned : List (List EdgeId)}
    {edges : List EdgeId} {time : ρ} {next : Simulation ρ}
    (hrecords : simulation.Records accepted returned)
    (hcompletes : simulation.Completes edges time next) (hsound : next.Sound) :
    next.Records accepted (returned ++ [edges]) where
  sound := hsound
  accepted_nodup := hrecords.accepted_nodup
  mem_accepted_iff := by
    intro edge
    rw [hrecords.mem_accepted_iff, hcompletes.outcome]
    split
    case isTrue hnow => simp [hcompletes.due edge hnow]
    case isFalse => exact Iff.rfl
  nodup := by
    rw [List.flatten_append, List.flatten_singleton]
    apply List.nodup_append.mpr
    refine ⟨hrecords.nodup, hcompletes.nodup, ?_⟩
    intro edge hbefore other hnow hsame
    subst hsame
    obtain ⟨earlier, hfinished⟩ := (hrecords.mem_iff edge).mp hbefore
    cases (hcompletes.due edge hnow).symm.trans hfinished
  mem_iff := by
    intro edge
    rw [List.flatten_append, List.flatten_singleton, List.mem_append, hrecords.mem_iff,
      hcompletes.outcome]
    split
    case isTrue hnow => simp [hnow]
    case isFalse hother => simp [hother]

theorem Records.added {accepted : List EdgeId} {returned : List (List EdgeId)} {edge : EdgeId}
    {bytes : Nat} {start : ρ} {path : List Coordinate} {next : Simulation ρ}
    (hrecords : simulation.Records accepted returned)
    (hadd : simulation.add edge bytes start path = .ok next) :
    next.Records (edge :: accepted) returned := by
  have hnew : simulation.outcome? edge = none := by
    rw [outcome?, (add_eq_ok hadd).1, Option.map_none]
  refine ⟨hrecords.sound.add hadd, List.nodup_cons.mpr ⟨fun hmember => ?_, hrecords.accepted_nodup⟩,
    fun other => ?_, hrecords.nodup, fun other => ?_⟩
  · rw [hrecords.mem_accepted_iff, hnew] at hmember
    cases hmember
  · rw [outcome?_add hadd, List.mem_cons, hrecords.mem_accepted_iff]
    split
    case isTrue hsame => simp [hsame]
    case isFalse hother => simp [hother]
  · rw [outcome?_add hadd, hrecords.mem_iff]
    split
    case isTrue hsame =>
      rw [hsame, hnew]
      simp
    case isFalse => exact Iff.rfl

theorem History.records {accepted : List EdgeId} {returned : List (List EdgeId)}
    (hhistory : History simulation accepted returned) : simulation.Records accepted returned := by
  induction hhistory with
  | empty bandwidths =>
      have hnone : ∀ edge, (Simulation.empty bandwidths).outcome? edge = none := fun edge => by
        rw [outcome?, transfer?_empty, Option.map_none]
      exact ⟨sound_empty bandwidths, List.nodup_nil, fun edge => by simp [hnone], List.nodup_nil,
        fun edge => by simp [hnone]⟩
  | added hhistory hadd induction => exact induction.added hadd
  | requeued hhistory hround induction =>
      have hturned := induction.sound.turned
      rw [hround] at hturned
      cases hturned with
      | advanced houtcome hsound => exact induction.congr houtcome hsound
  | idle hhistory hevaluate induction =>
      cases induction.sound.evaluated hevaluate with
      | idle hqueue houtcome hsound => exact induction.congr houtcome hsound
  | completed hhistory hevaluate induction =>
      cases induction.sound.evaluated hevaluate with
      | completed hcompletes hsound => exact induction.completed hcompletes hsound

/-- Whatever the arithmetic does: the transfers are those that were accepted, once each; the queue
holds the ones that have not finished, once each and nothing else; every transfer has closed records
of the hops it has crossed and at most an open one of the next; the lists returned so far name the
transfers that have finished, once each; a call that returns a list completes exactly the transfers
in it, which are in order and at least one; and a call that finds nothing to do leaves no transfer
unfinished. -/
theorem History.transfers_conserved {accepted : List EdgeId} {returned : List (List EdgeId)}
    (hhistory : History simulation accepted returned) :
    simulation.Sound ∧ accepted.Nodup ∧
      (∀ edge, edge ∈ accepted ↔ ∃ outcome, simulation.outcome? edge = some outcome) ∧
      returned.flatten.Nodup ∧
      (∀ edge, edge ∈ returned.flatten ↔ ∃ time, simulation.outcome? edge = some (some time)) ∧
      (∀ limit edges time next, simulation.evaluate limit = some (.completed edges time, next) →
        simulation.Completes edges time next) ∧
      ∀ limit last, simulation.evaluate limit = some (.idle, last) →
        ∀ edge, simulation.outcome? edge ≠ some none := by
  have hrecords := hhistory.records
  refine ⟨hrecords.sound, hrecords.accepted_nodup, fun edge =>
    (hrecords.mem_accepted_iff edge).trans Option.isSome_iff_exists, hrecords.nodup,
    hrecords.mem_iff, ?_, ?_⟩
  · intro limit edges time next hevaluate
    cases hrecords.sound.evaluated hevaluate with
    | completed hcompletes hsound => exact hcompletes
  · intro limit last hevaluate edge hunfinished
    cases hrecords.sound.evaluated hevaluate with
    | idle hqueue houtcome hsound =>
        have hqueued := (hsound.queue.mem_iff edge).mpr ((houtcome edge).trans hunfinished)
        rw [hqueue] at hqueued
        cases hqueued

/-- Two transfers that share a link of unit bandwidth. -/
def sharedLink : Except RouteFault (Simulation Rat) := do
  let path : List Coordinate := [⟨[⟨[0, 0]⟩, ⟨[0, 0]⟩]⟩, ⟨[⟨[0, 0]⟩, ⟨[0, 1]⟩]⟩]
  let simulation ← (Simulation.empty [1, 1]).add ⟨0⟩ 2 0 path
  simulation.add ⟨1⟩ 4 0 path

def Round.completed? : Round ρ → Option (List EdgeId × ρ × Simulation ρ)
  | .completed edges time next => some (edges, time, next)
  | _ => none

omit [Quantity ρ] in
theorem Round.completed?_eq_some {round : Round ρ} {edges : List EdgeId} {time : ρ}
    {next : Simulation ρ} (hcompleted : round.completed? = some (edges, time, next)) :
    round = .completed edges time next := by
  cases round with
  | completed =>
      cases hcompleted
      rfl
  | idle => cases hcompleted
  | advanced => cases hcompleted

/-- The shorter of the two transfers completes first, and the other one stays queued. -/
theorem History.transfers_conserved_sharedLink :
    ∃ simulation next, sharedLink = .ok simulation ∧
      simulation.evaluate 1 = some (.completed [⟨0⟩] 4, next) ∧
      next.outcome? ⟨0⟩ = some (some 4) ∧ next.outcome? ⟨1⟩ = some none := by
  have hshort : sharedLink.toOption.map (fun simulation => simulation.round.completed?.map
      fun completed => (completed.1, completed.2.1)) = some (some ([⟨0⟩], 4)) := by decide +kernel
  have hlong : sharedLink.toOption.map (fun simulation => simulation.outcome? ⟨1⟩) =
      some (some none) := by decide +kernel
  cases hshared : sharedLink with
  | error fault =>
      rw [hshared] at hlong
      cases hlong
  | ok simulation =>
      rw [hshared] at hshort hlong
      obtain ⟨⟨edges, time, next⟩, hcompleted, hsame⟩ :=
        Option.map_eq_some_iff.mp (Option.some.inj hshort)
      obtain ⟨rfl, rfl⟩ := Prod.mk.inj hsame
      have hevaluate : simulation.evaluate 1 = some (.completed [⟨0⟩] 4, next) := by
        rw [evaluate, Round.completed?_eq_some hcompleted]
      obtain ⟨first, hfirst, hsecond⟩ := bind_eq_ok_iff.mp hshared
      have hhistory : History simulation [⟨1⟩, ⟨0⟩] [] :=
        .added (.added (.empty [1, 1]) hfirst) hsecond
      obtain ⟨-, -, -, -, -, hcompletes, -⟩ := hhistory.transfers_conserved
      have houtcome := (hcompletes 1 [⟨0⟩] 4 next hevaluate).outcome
      refine ⟨simulation, next, rfl, hevaluate, houtcome ⟨0⟩, ?_⟩
      exact (houtcome ⟨1⟩).trans (Option.some.inj hlong)

end Simulation

end TiledPlacement
