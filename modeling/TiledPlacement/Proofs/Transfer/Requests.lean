import TiledPlacement.Proofs.Transfer.Journey

/-!
Transfers that are all requested before the first call. Whatever calls follow, links are shared
fairly and fully, and each transfer is under way from its start on.
-/

namespace TiledPlacement

structure Request where
  edge : EdgeId
  bytes : Nat
  start : Rat
  path : List Coordinate

namespace Simulation

variable {simulation next : Simulation Rat} {request : Request} {requests : List Request}

def addAll (simulation : Simulation Rat) (requests : List Request) :
    Except RouteFault (Simulation Rat) :=
  requests.foldlM (fun simulation request =>
    simulation.add request.edge request.bytes request.start request.path) simulation

/-- Whether a request waits for its first round. -/
def Holds (simulation : Simulation Rat) (request : Request) : Prop :=
  ∃ hops : List (Link Rat), hops.map (·.hop) = Route.hops request.path ∧
    simulation.transfer? request.edge = some (.queued request.bytes hops) ∧
    ⟨request.start, request.edge⟩ ∈ simulation.queue

theorem holds_add (hadd : simulation.add request.edge request.bytes request.start request.path =
    .ok next) : next.Holds request := by
  obtain ⟨-, hops, hlinks, rfl⟩ := add_eq_ok hadd
  refine ⟨hops, (links_of_mapM hlinks).1, Std.ExtTreeMap.getElem?_insert_self, ?_⟩
  exact (perm_insertSorted _ _ _).mem_iff.mpr List.mem_cons_self

theorem Holds.add (hholds : simulation.Holds request) {other : Request}
    (hadd : simulation.add other.edge other.bytes other.start other.path = .ok next) :
    next.Holds request := by
  obtain ⟨hops, hhops, htransfer, hqueued⟩ := hholds
  obtain ⟨hunknown, otherHops, -, rfl⟩ := add_eq_ok hadd
  have hdiffer : ¬compare other.edge request.edge = .eq := by
    intro hsame
    rw [Std.LawfulEqCmp.compare_eq_iff_eq] at hsame
    rw [hsame, htransfer] at hunknown
    cases hunknown
  refine ⟨hops, hhops, ?_, (perm_insertSorted _ _ _).mem_iff.mpr (List.mem_cons_of_mem _ hqueued)⟩
  exact (Std.ExtTreeMap.getElem?_insert.trans (if_neg hdiffer)).trans htransfer

structure Loaded (simulation : Simulation Rat) (requests : List Request) : Prop where
  sane : simulation.Sane
  trace : simulation.trace = []
  holds : ∀ request ∈ requests, simulation.Holds request

theorem Loaded.addAll {others : List Request} (hloaded : simulation.Loaded others)
    (hadd : simulation.addAll requests = .ok next) : next.Loaded (others ++ requests) := by
  induction requests generalizing simulation others with
  | nil =>
      cases hadd
      rwa [List.append_nil]
  | cons request rest induction =>
      rw [Simulation.addAll, List.foldlM_cons] at hadd
      obtain ⟨middle, hfirst, hrest⟩ := bind_eq_ok_iff.mp hadd
      have hmiddle : middle.Loaded (others ++ [request]) := by
        constructor
        case sane => exact hloaded.sane.add hfirst
        case trace =>
          obtain ⟨-, -, -, rfl⟩ := add_eq_ok hfirst
          exact hloaded.trace
        case holds =>
          intro held hmember
          rcases List.mem_append.mp hmember with hbefore | hnew
          · exact (hloaded.holds held hbefore).add hfirst
          · rw [List.mem_singleton.mp hnew]
            exact holds_add hfirst
      have hnext := induction hmiddle hrest
      rwa [List.append_assoc] at hnext

theorem Loaded.journey (hloaded : simulation.Loaded requests) (hrequest : request ∈ requests) :
    ∃ transfer : Transfer Rat, transfer.bytes = (request.bytes : Rat) ∧
      transfer.hops.map (·.hop) = Route.hops request.path ∧
      Journey simulation simulation request.edge transfer request.start request.start [] [] := by
  obtain ⟨hops, hhops, htransfer, hqueued⟩ := hloaded.holds request hrequest
  refine ⟨.queued request.bytes hops, rfl, hhops, ?_⟩
  constructor
  case transfer? => exact htransfer
  case reached => exact Or.inr ⟨rfl, hqueued⟩
  case finished => exact fun hfinished => absurd hfinished Bool.false_ne_true
  case trace =>
    rw [hloaded.trace]
    rfl
  case abut => exact rfl
  case length => exact rfl
  case crosses => exact fun hop stage hstage => absurd hstage (by simp)
  case onward => exact fun segment hsegment => absurd hsegment List.not_mem_nil
  case carried =>
    have hnone : (Transfer.queued request.bytes hops).record? 0 = none :=
      Std.ExtTreeMap.getElem?_empty
    change 0 = _ * ((Transfer.queued request.bytes hops).record? 0).elim 0 _
    rw [hnone, Option.elim_none, mul_zero]

/-- A simulation after any number of calls that end. -/
inductive Calls {ρ : Type} [Quantity ρ] (origin : Simulation ρ) : Simulation ρ → Prop
  | none : Calls origin origin
  | call {simulation next : Simulation ρ} {limit : Nat} {result : Evaluation ρ}
      (hcalls : Calls origin simulation)
      (hevaluate : simulation.evaluate limit = some (result, next)) : Calls origin next

theorem Calls.runs {ρ : Type} [Quantity ρ] {origin simulation : Simulation ρ}
    (hcalls : origin.Calls simulation) : origin.Runs simulation := by
  induction hcalls with
  | none => exact .none
  | call _ hevaluate induction => exact induction.evaluate hevaluate

/-- In exact arithmetic, of transfers that are all added before the first call: at any time the
transfers on a hop share its bandwidth evenly and use all of it; and the segments of each transfer
follow its route hop by hop and cover the time from its start without gap or overlap, each hop
crossed with the bytes of the transfer up to the slack of the round that found it through. -/
theorem Calls.shares_fairly {bandwidths : List Rat} {last : Simulation Rat}
    (hadd : (Simulation.empty bandwidths).addAll requests = .ok simulation)
    (hcalls : simulation.Calls last) :
    (∀ hop time, last.active hop time = [] ∧ last.load hop time = 0 ∨
      ∃ link, simulation.link hop = .ok link ∧ last.load hop time = link.bandwidth ∧
        ∀ segment ∈ last.active hop time,
          segment.rate = link.bandwidth / (last.active hop time).length) ∧
      ∀ request ∈ requests, ∃ (transfer : Transfer Rat) (now : Rat)
        (crossed : List (List (Segment Rat))) (current : List (Segment Rat)),
        transfer.bytes = (request.bytes : Rat) ∧
          transfer.hops.map (·.hop) = Route.hops request.path ∧
          Journey simulation last request.edge transfer request.start now crossed current := by
  have hloaded : simulation.Loaded ([] ++ requests) :=
    Loaded.addAll ⟨sane_empty bandwidths, rfl, fun _ hmember => absurd hmember List.not_mem_nil⟩
      hadd
  have hruns := hcalls.runs
  constructor
  · intro hop time
    have hbandwidths : last.bandwidths = simulation.bandwidths := hruns.bandwidths hloaded.sane
    rw [← link_congr hbandwidths]
    exact (hruns.fair hloaded.sane (fair_of_no_trace hloaded.trace)).load hop time
  · intro request hrequest
    obtain ⟨transfer, hbytes, hhops, hjourney⟩ := hloaded.journey hrequest
    obtain ⟨moved, now, crossed, current, hbytes', hhops', hmoved⟩ :=
      hruns.journey hloaded.sane hjourney
    exact ⟨moved, now, crossed, current, hbytes'.trans hbytes,
      (congrArg (List.map (·.hop)) hhops').trans hhops, hmoved⟩

/-- Two requests for a link of unit bandwidth. -/
def sharedRequests : List Request :=
  let path : List Coordinate := [⟨[⟨[0, 0]⟩, ⟨[0, 0]⟩]⟩, ⟨[⟨[0, 0]⟩, ⟨[0, 1]⟩]⟩]
  [⟨⟨0⟩, 2, 0, path⟩, ⟨⟨1⟩, 4, 0, path⟩]

/-- The shorter of the two is under way until the first call completes it. -/
theorem Calls.shares_fairly_sharedRequests :
    ∃ simulation last, (Simulation.empty [1, 1]).addAll sharedRequests = .ok simulation ∧
      simulation.Calls last ∧
      ∃ transfer crossed current,
        Journey simulation last ⟨0⟩ transfer 0 4 crossed current := by
  have hrun : (((Simulation.empty [1, 1]).addAll sharedRequests).toOption.bind fun simulation =>
      (simulation.evaluate 1).map fun result => result.2.finish? ⟨0⟩) = some (some 4) := by
    decide +kernel
  obtain ⟨simulation, hsimulation, hrun⟩ := Option.bind_eq_some_iff.mp hrun
  obtain ⟨⟨result, last⟩, hevaluate, hfinish⟩ := Option.map_eq_some_iff.mp hrun
  cases hadd : (Simulation.empty [1, 1]).addAll sharedRequests with
  | error fault =>
      rw [hadd] at hsimulation
      cases hsimulation
  | ok loaded =>
      rw [hadd] at hsimulation
      cases hsimulation
      have hcalls : simulation.Calls last := Calls.none.call hevaluate
      obtain ⟨transfer, now, crossed, current, -, -, hjourney⟩ :=
        (Calls.shares_fairly hadd hcalls).2 _ List.mem_cons_self
      have hnow : transfer.finish = some 4 := by
        rw [finish?, hjourney.transfer?] at hfinish
        exact hfinish
      have hreached : now = 4 := by
        rcases hjourney.reached with hfinished | ⟨hopen, -⟩
        · exact Option.some.inj (hfinished.symm.trans hnow)
        · cases hopen.symm.trans hnow
      rw [hreached] at hjourney
      exact ⟨simulation, last, rfl, hcalls, transfer, crossed, current, hjourney⟩

end Simulation

end TiledPlacement
