import TiledPlacement.Placement.Basic
import TiledPlacement.Transfer.Basic

/-!
One round of a simulation. The transfers that are ready first share the bandwidth of their hops
evenly and move on until the first of them would be through its hop, or until another transfer is
ready, which changes the shares.
-/

namespace TiledPlacement

variable {ρ : Type} [Quantity ρ]

/-- What one transfer does in a round. -/
structure Leg (ρ : Type) where
  edge : EdgeId
  transfer : Transfer ρ
  link : Link ρ
  /-- Progress on the link before the round. -/
  record : HopRecord ρ
  /-- Rate granted. -/
  share : ρ
  /-- When the transfer would be through its hop at this rate. -/
  finish : ρ

namespace Leg

def precedes (left right : Leg ρ) : Bool := (left.link.hop.compare right.link.hop).isLE

/-- Whether the transfer is through its hop at a deadline, up to the slack. -/
def isThrough (leg : Leg ρ) (deadline : ρ) : Bool :=
  Quantity.isAtMost (leg.finish - deadline)
    (Quantity.slack * Quantity.greater (Quantity.magnitude leg.finish) Quantity.one)

/-- Whether the transfer is through the last hop of its route at a deadline. -/
def isFinished (leg : Leg ρ) (deadline : ρ) : Bool :=
  leg.isThrough deadline && decide (leg.transfer.hops.length ≤ leg.transfer.next + 1)

/-- The transfer after the round that runs from `start` to `deadline`. -/
def advance (leg : Leg ρ) (start deadline : ρ) : Transfer ρ :=
  let hop := leg.transfer.next
  if leg.isThrough deadline then
    { leg.transfer with
      next := hop + 1
      records := leg.transfer.records.insert hop
        { leg.record with stop := some deadline, fraction := Quantity.one } }
  else
    let moved := (deadline - start) * leg.share / leg.transfer.bytes
    { leg.transfer with
      records := leg.transfer.records.insert hop
        { leg.record with fraction := leg.record.fraction + moved } }

def segment (leg : Leg ρ) (start deadline : ρ) : Segment ρ where
  edge := leg.edge
  link := leg.link
  start
  stop := deadline
  rate := leg.share

end Leg

namespace Simulation

/-- What a simulation does next. -/
inductive Round (ρ : Type)
  /-- Nothing is queued. -/
  | idle
  /-- Transfers complete, listed by ascending edge. -/
  | completed (edges : List EdgeId) (time : ρ) (next : Simulation ρ)
  | advanced (next : Simulation ρ)

def isDone (simulation : Simulation ρ) (edge : EdgeId) : Bool :=
  (simulation.transfer? edge).all Transfer.isDone

def hop? (simulation : Simulation ρ) (edge : EdgeId) : Option Hop :=
  (simulation.transfer? edge).bind fun transfer => transfer.link?.map (·.hop)

/-- The leg of one transfer in a round from `start` on, in which transfers are on `hops`. -/
def leg? (simulation : Simulation ρ) (start : ρ) (hops : List Hop) (edge : EdgeId) :
    Option (Leg ρ) := do
  let transfer ← simulation.transfer? edge
  let link ← transfer.link?
  let share := link.bandwidth / Quantity.ofNat (hops.count link.hop)
  let record := (transfer.record? transfer.next).getD ⟨start, none, Quantity.zero⟩
  let left := transfer.bytes * (Quantity.one - record.fraction)
  return { edge, transfer, link, record, share, finish := start + left / share }

/-- The legs of a round, by hop and then by edge. -/
def legs (simulation : Simulation ρ) (start : ρ) (batch : List EdgeId) : List (Leg ρ) :=
  let hops := batch.filterMap simulation.hop?
  sortedBy Leg.precedes (batch.filterMap (simulation.leg? start hops))

/-- When a round ends: at the first finish, or when the next transfer is ready. -/
def deadline (legs : List (Leg ρ)) (later : List (Event ρ)) : ρ :=
  let first := Quantity.earliest (legs.map (·.finish))
  match later with
  | [] => first
  | event :: _ => Quantity.lesser event.time first

def ascending (edges : List EdgeId) : List EdgeId :=
  sortedBy (fun left right => (compare left right).isLE) edges

def complete (simulation : Simulation ρ) (edges : List EdgeId) (time : ρ) : Simulation ρ :=
  { simulation with
    transfers := edges.foldl (fun transfers edge =>
      transfers.modify edge fun transfer => { transfer with finish := some time })
      simulation.transfers
    now := time }

/-- Move the legs of a round on from `start` to `deadline`. -/
def move (simulation : Simulation ρ) (legs : List (Leg ρ)) (start deadline : ρ)
    (later : List (Event ρ)) : Simulation ρ :=
  let unfinished := legs.filter fun leg => !leg.isFinished deadline
  { simulation with
    transfers := legs.foldl (fun transfers leg =>
      transfers.insert leg.edge (leg.advance start deadline)) simulation.transfers
    queue := unfinished.foldl (fun queue leg =>
      insertSorted Event.precedes ⟨deadline, leg.edge⟩ queue) later
    trace := simulation.trace ++
      if Quantity.isLess start deadline then legs.map (·.segment start deadline) else [] }

def isAt (time : ρ) (event : Event ρ) : Bool := Quantity.order event.time time == .eq

/-- The next round. A transfer that has nothing left to do completes on arrival, and then nothing
else moves. -/
def round (simulation : Simulation ρ) : Round ρ :=
  match simulation.queue with
  | [] => .idle
  | first :: _ =>
      let start := first.time
      let ready := simulation.queue.takeWhile (isAt start)
      let later := simulation.queue.dropWhile (isAt start)
      let batch := ready.map (·.edge)
      let done := batch.filter simulation.isDone
      if done.isEmpty then
        let legs := simulation.legs start batch
        let deadline := deadline legs later
        let next := simulation.move legs start deadline later
        let finished := ascending ((legs.filter (·.isFinished deadline)).map (·.edge))
        if finished.isEmpty then
          .advanced next
        else
          .completed finished deadline (next.complete finished deadline)
      else
        let done := ascending done
        let moving := ready.filter fun event => !simulation.isDone event.edge
        .completed done start
          ({ simulation with queue := moving ++ later }.complete done start)

end Simulation

/-!
Running a simulation from one completion to the next. With numbers that are not finite the clock
can run on for ever with no transfer through its hop, so runs are given a number of rounds, and
there is no answer if that is not enough.
-/

variable {ρ : Type} [Quantity ρ]

namespace Simulation

inductive Evaluation (ρ : Type)
  | idle
  /-- Transfers complete, listed by ascending edge. -/
  | completed (edges : List EdgeId) (time : ρ)

/-- Run rounds, at most `limit` of them, until transfers complete. -/
def evaluate : Nat → Simulation ρ → Option (Evaluation ρ × Simulation ρ)
  | 0, _ => none
  | limit + 1, simulation =>
      match simulation.round with
      | .idle => some (.idle, simulation)
      | .completed edges time next => some (.completed edges time, next)
      | .advanced next => evaluate limit next

/-- Run until nothing is queued, with at most so many calls of `limit` rounds each. -/
def runCalls (limit : Nat) : Nat → Simulation ρ → Option (List (EdgeId × ρ) × Simulation ρ)
  | 0, _ => none
  | calls + 1, simulation => do
      match ← simulation.evaluate limit with
      | (.idle, last) => return ([], last)
      | (.completed edges time, next) =>
          let (later, last) ← runCalls limit calls next
          return (edges.map (fun edge => (edge, time)) ++ later, last)

/-- Run until every transfer has completed; returns the completions in order. Each call but the last
completes a transfer at least. -/
def runToCompletion (limit : Nat) (simulation : Simulation ρ) :
    Option (List (EdgeId × ρ) × Simulation ρ) :=
  simulation.runCalls limit (simulation.queue.length + 1)

/-- Rounds allowed where nobody counts them: more than any machine could run. -/
def roundLimit : Nat := Nat.pow 2 64

end Simulation

/-! The transfers of a placement: one for each routed edge, all ready at time zero. -/

def Hardware.simulation (hardware : Hardware) : Simulation Float :=
  .empty (hardware.levels.map (·.bandwidth))

namespace Placement

def addTransfer (placement : Placement) (simulation : Simulation Float)
    (entry : EdgeId × List Coordinate) : Except PlacementError (Simulation Float) := do
  let (edge, path) := entry
  let bytes ← (placement.graph.edgeBytes edge).mapError .graph
  (simulation.add edge bytes 0.0 path).mapError (.route edge)

def simulation (placement : Placement) : Except PlacementError (Simulation Float) :=
  placement.whereabouts.routes.toList.foldlM placement.addTransfer placement.hardware.simulation

end Placement

end TiledPlacement
