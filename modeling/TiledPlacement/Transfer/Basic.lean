import TiledPlacement.Hardware.Route
import TiledPlacement.Placement.Basic

/-!
Transfers of data along routes and the simulation that holds them. A transfer crosses its hops one
after the other; the queue holds when each unfinished transfer is ready to go on, earliest first.
-/

namespace TiledPlacement

/-!
The arithmetic that times, amounts of data and rates share. Simulations are generic in it, so that
they can be run on floating-point numbers and read on exact ones.
-/

class Quantity (ρ : Type) extends Add ρ, Sub ρ, Mul ρ, Div ρ where
  zero : ρ
  one : ρ
  ofNat : Nat → ρ
  /-- Relative slack below which two times count as one. -/
  slack : ρ
  magnitude : ρ → ρ
  lesser : ρ → ρ → ρ
  greater : ρ → ρ → ρ
  /-- The least of some times, of which there is at least one. -/
  earliest : List ρ → ρ
  isLess : ρ → ρ → Bool
  isAtMost : ρ → ρ → Bool
  /-- Order in which events take their turn. -/
  order : ρ → ρ → Ordering

namespace Quantity

/-- Key of the total order on floating-point numbers, minus zero before zero. -/
def orderKey (value : Float) : Int :=
  let bits : Int := value.toBits.toNat
  let signBit : Int := Nat.pow 2 63
  if bits < signBit then bits else signBit - bits - 1

/-- The lesser of two numbers, the first of equal ones; what is not a number is passed over. -/
def lesserFloat (left right : Float) : Float :=
  if right < left || left.isNaN then right else left

/-- The greater of two numbers, the first of equal ones; what is not a number is passed over. -/
def greaterFloat (left right : Float) : Float :=
  if left < right || left.isNaN then right else left

def infinity : Float := 1.0 / 0.0

instance : Quantity Float where
  zero := 0.0
  one := 1.0
  ofNat := Float.ofNat
  slack := 1e-9
  magnitude := Float.abs
  lesser := lesserFloat
  greater := greaterFloat
  earliest := fun times => times.foldl lesserFloat infinity
  isLess := fun left right => left < right
  isAtMost := fun left right => left <= right
  order := fun left right => compare (orderKey left) (orderKey right)

def lesserRat (left right : Rat) : Rat := if right < left then right else left

def greaterRat (left right : Rat) : Rat := if left < right then right else left

/-- Exact arithmetic. -/
instance : Quantity Rat where
  zero := 0
  one := 1
  ofNat := fun amount => amount
  slack := 1 / 1000000000
  magnitude := fun value => greaterRat value (-value)
  lesser := lesserRat
  greater := greaterRat
  earliest := fun times => times.foldl lesserRat (times.headD 0)
  isLess := fun left right => left < right
  isAtMost := fun left right => left ≤ right
  order := fun left right => compareOfLessAndEq left right

end Quantity

/-! Transfers and simulations. -/

/-- A hop and the bandwidth that transfers on it share. -/
structure Link (ρ : Type) where
  hop : Hop
  bandwidth : ρ

structure HopRecord (ρ : Type) where
  start : ρ
  stop : Option ρ
  /-- Share of the bytes that have crossed. -/
  fraction : ρ

structure Transfer (ρ : Type) where
  bytes : ρ
  /-- The whole route. -/
  hops : List (Link ρ)
  /-- Place on the route of the hop that is crossed next. -/
  next : Nat
  /-- Progress, by the place of the hop on the route. -/
  records : Std.ExtTreeMap Nat (HopRecord ρ)
  finish : Option ρ

/-- A stretch of time in which a transfer moves at one rate. -/
structure Segment (ρ : Type) where
  edge : EdgeId
  link : Link ρ
  start : ρ
  stop : ρ
  rate : ρ

structure Event (ρ : Type) where
  time : ρ
  edge : EdgeId

structure Simulation (ρ : Type) where
  /-- Bandwidth of the links that cross each level. -/
  bandwidths : List ρ
  transfers : EdgeMap (Transfer ρ)
  queue : List (Event ρ)
  trace : List (Segment ρ)
  /-- When transfers last completed. -/
  now : ρ

/-- Put an item into a sorted list, before the first that it does not have to follow. -/
def insertSorted (precedes : α → α → Bool) (item : α) : List α → List α
  | [] => [item]
  | first :: rest =>
      if precedes item first then item :: first :: rest
      else first :: insertSorted precedes item rest

def sortedBy (precedes : α → α → Bool) (items : List α) : List α :=
  items.foldr (insertSorted precedes) []

variable {ρ : Type} [Quantity ρ]

namespace Event

def precedes (left right : Event ρ) : Bool :=
  ((Quantity.order left.time right.time).then (compare left.edge right.edge)).isLE

end Event

namespace Transfer

def queued (bytes : Nat) (hops : List (Link ρ)) : Transfer ρ where
  bytes := Quantity.ofNat bytes
  hops
  next := 0
  records := ∅
  finish := none

def record? (transfer : Transfer ρ) (hop : Nat) : Option (HopRecord ρ) :=
  transfer.records[hop]?

/-- The link that is crossed next. -/
def link? (transfer : Transfer ρ) : Option (Link ρ) := transfer.hops[transfer.next]?

/-- Whether a transfer has nothing left to do. -/
def isDone (transfer : Transfer ρ) : Bool :=
  Quantity.isAtMost transfer.bytes Quantity.zero || transfer.link?.isNone

end Transfer

namespace Simulation

def empty (bandwidths : List ρ) : Simulation ρ where
  bandwidths
  transfers := ∅
  queue := []
  trace := []
  now := Quantity.zero

def isIdle (simulation : Simulation ρ) : Bool := simulation.queue.isEmpty

def transfer? (simulation : Simulation ρ) (edge : EdgeId) : Option (Transfer ρ) :=
  simulation.transfers[edge]?

def finish? (simulation : Simulation ρ) (edge : EdgeId) : Option ρ :=
  (simulation.transfer? edge).bind (·.finish)

/-- Progress of a transfer on one hop of its route. -/
def record? (simulation : Simulation ρ) (edge : EdgeId) (hop : Nat) : Option (HopRecord ρ) :=
  (simulation.transfer? edge).bind (·.record? hop)

/-- The link of a hop, if it has any bandwidth. -/
def link (simulation : Simulation ρ) (hop : Hop) : Except RouteFault (Link ρ) :=
  let bandwidth := hop.level?.bind fun level => simulation.bandwidths[level]?
  match bandwidth.filter (Quantity.isLess Quantity.zero) with
  | some bandwidth => .ok ⟨hop, bandwidth⟩
  | none => .error (.noBandwidth hop.source hop.target)

def enqueue (simulation : Simulation ρ) (event : Event ρ) : Simulation ρ :=
  { simulation with queue := insertSorted Event.precedes event simulation.queue }

def add (simulation : Simulation ρ) (edge : EdgeId) (bytes : Nat) (start : ρ)
    (path : List Coordinate) : Except RouteFault (Simulation ρ) := do
  if simulation.transfers.contains edge then
    throw .alreadyQueued
  let hops ← (Route.hops path).mapM simulation.link
  let transfers := simulation.transfers.insert edge (.queued bytes hops)
  return { simulation with transfers }.enqueue ⟨start, edge⟩

/-- Total rate granted on a hop at an instant. -/
def load (simulation : Simulation ρ) (hop : Hop) (time : ρ) : ρ :=
  let active := simulation.trace.filter fun segment =>
    decide (segment.link.hop = hop) && Quantity.isAtMost segment.start time &&
      Quantity.isLess time segment.stop
  active.foldl (fun total segment => total + segment.rate) Quantity.zero

end Simulation

end TiledPlacement
