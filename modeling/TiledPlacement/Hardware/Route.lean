import TiledPlacement.Hardware.Basic

/-!
Routes between columns. A route lists the columns that a transfer visits, both ends included, and
moves by one unit in one dimension of one level at a time. Dimension-ordered routes settle the
outer levels first and, within a level, the first dimensions first.
-/

namespace TiledPlacement

structure Hop where
  source : Coordinate
  target : Coordinate
  deriving DecidableEq, Repr

namespace Hop

def level? (hop : Hop) : Option Nat := hop.source.firstDifference? hop.target

def bandwidth? (hop : Hop) (hardware : Hardware) : Option Float :=
  hop.level?.bind hardware.bandwidth?

/-- Order by source, then by target. -/
def compare (left right : Hop) : Ordering :=
  (left.source.compare right.source).then (left.target.compare right.target)

/-- Whether the link moves by one unit on the level that it crosses and on no other. -/
def isUnitStep (hop : Hop) (level : Nat) : Bool :=
  let distance := do (← hop.source.level? level).manhattan? (← hop.target.level? level)
  decide (distance = some 1) &&
    decide (hop.source.levels.drop (level + 1) = hop.target.levels.drop (level + 1))

end Hop

inductive PathFault
  | notColumn (place : Coordinate) (spaceDepth : Nat)
  | outside (place : Coordinate)
  | repeats (place : Coordinate)
  | notNeighbours (source target : Coordinate)
  deriving DecidableEq, Repr

def PathFault.text : PathFault → String
  | .notColumn place spaceDepth => s!"{place} is not a column ({spaceDepth} space levels)"
  | .outside place => s!"{place} is outside the hierarchy"
  | .repeats place => s!"{place} repeats"
  | .notNeighbours source target => s!"{source} and {target} are not neighbours"

namespace Route

/-- What is visited after `here` on the way to `there`, one unit step after the other. -/
@[semireducible] def steps (here there : Position) : List Position :=
  match hnext : here.stepToward? there with
  | none => []
  | some next =>
      have := Position.distance_stepToward? hnext
      next :: steps next there
termination_by Position.distance here.components there.components

/-- What is visited on the way between two lists of positions, the first level first; a level stays
where it was left when the next ones are settled. -/
def walk : List Position → List Position → List (List Position)
  | here :: rest, there :: others =>
      let visited := steps here there
      visited.map (· :: rest) ++ (walk rest others).map (visited.getLast?.getD here :: ·)
  | _, _ => []

/-- The dimension-ordered route between two columns; none if either lies outside the hierarchy. -/
def between? (hardware : Hardware) (source target : Coordinate) : Option (List Coordinate) :=
  let first := source.take hardware.spaceDepth
  let last := target.take hardware.spaceDepth
  if hardware.hasColumn first && hardware.hasColumn last then
    some (first :: (walk first.levels last.levels).map Coordinate.mk)
  else
    none

def hops : List Coordinate → List Hop
  | source :: target :: rest => ⟨source, target⟩ :: hops (target :: rest)
  | _ => []

def columnFault? (hardware : Hardware) (place : Coordinate) : Option PathFault :=
  if place.depth ≠ hardware.spaceDepth then some (.notColumn place hardware.spaceDepth)
  else if !hardware.hasColumn place then some (.outside place)
  else none

def hopFault? (hop : Hop) : Option PathFault :=
  match hop.level? with
  | none => some (.repeats hop.source)
  | some level =>
      if hop.isUnitStep level then none else some (.notNeighbours hop.source hop.target)

/-- The first fault of a path: an element that is no column, or a step between columns that are
not neighbours. -/
def check (hardware : Hardware) (path : List Coordinate) : Except PathFault Unit :=
  match path.findSome? (columnFault? hardware), (hops path).findSome? hopFault? with
  | some fault, _ => .error fault
  | none, some fault => .error fault
  | none, none => .ok ()

end Route

end TiledPlacement
