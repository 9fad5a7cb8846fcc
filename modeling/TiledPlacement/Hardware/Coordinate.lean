import TiledPlacement.Word

/-!
Coordinates in the hardware hierarchy, and the functional units that the last level of a coordinate
names.
-/

namespace TiledPlacement

/-!
Functional units of one core in one phase. In each phase a core runs the axon engine, two soma
stages and the two halves of its router, in pipeline order; operands lie in its memory bank.
-/

inductive Engine
  | axon
  | soma
  deriving DecidableEq, Repr

namespace Engine

def text : Engine → String
  | .axon => "Axon"
  | .soma => "Soma"

instance : ToString Engine := ⟨text⟩

end Engine

inductive FunctionalUnit
  | axon
  | soma1
  | routerSend
  | routerReceive
  | soma2
  | memory
  deriving DecidableEq, Repr

namespace FunctionalUnit

def all : List FunctionalUnit :=
  [.axon, .soma1, .routerSend, .routerReceive, .soma2, .memory]

/-- The units that run tasks, in the order in which they run within a phase. -/
def pipeline : List FunctionalUnit :=
  [.axon, .soma1, .routerSend, .routerReceive, .soma2]

def index : FunctionalUnit → Nat
  | .axon => 0
  | .soma1 => 1
  | .routerSend => 2
  | .routerReceive => 3
  | .soma2 => 4
  | .memory => 5

def ofIndex? (index : Nat) : Option FunctionalUnit :=
  all[index]?

theorem ofIndex?_index (unit : FunctionalUnit) : ofIndex? unit.index = some unit := by
  cases unit <;> rfl

/-- Whether the unit is a slot for one task; the memory bank holds many. -/
def isSlot : FunctionalUnit → Bool
  | .memory => false
  | _ => true

def isRouter : FunctionalUnit → Bool
  | .routerSend => true
  | .routerReceive => true
  | _ => false

def engine? : FunctionalUnit → Option Engine
  | .axon => some .axon
  | .soma1 => some .soma
  | .soma2 => some .soma
  | _ => none

/-- Units of the same core and phase that run before this one. -/
def earlier : FunctionalUnit → List FunctionalUnit
  | .axon => []
  | .soma1 => [.axon]
  | .routerSend => [.axon, .soma1]
  | .routerReceive => [.axon, .soma1, .routerSend]
  | .soma2 => [.axon, .soma1, .routerSend, .routerReceive]
  | .memory => []

def text : FunctionalUnit → String
  | .axon => "Axon"
  | .soma1 => "Soma1"
  | .routerSend => "RouterSend"
  | .routerReceive => "RouterRecv"
  | .soma2 => "Soma2"
  | .memory => "Memory"

instance : ToString FunctionalUnit := ⟨text⟩

end FunctionalUnit

def Engine.accepts (engine : Engine) (unit : FunctionalUnit) : Bool :=
  unit.engine? == some engine

/-!
Coordinates in the hardware hierarchy. A `Position` is a place within one level; a `Coordinate`
lists one position per level, outermost first: the space levels, then step, phase and unit.
The first levels of a coordinate name the region that contains it.
-/

structure Position where
  components : List Nat
  deriving DecidableEq, Repr

namespace Position

def scalar (value : Nat) : Position := ⟨[value]⟩

def dims (position : Position) : Nat := position.components.length

def get? (position : Position) (axis : Nat) : Option Nat := position.components[axis]?

def compare (left right : Position) : Ordering :=
  Ord.compare left.components right.components

instance : Ord Position := ⟨compare⟩

/-- Sum of the differences of the components, which may be more than a word holds. -/
def distance : List Nat → List Nat → Nat
  | here :: rest, there :: others => (here - there) + (there - here) + distance rest others
  | _, _ => 0

def manhattan? (left right : Position) : Option Nat :=
  if left.dims = right.dims then some (word (distance left.components right.components)) else none

/-- One unit step in the first dimension in which the two lists differ. -/
def stepComponents? : List Nat → List Nat → Option (List Nat)
  | here :: rest, there :: others =>
      if here = there then
        (stepComponents? rest others).map (here :: ·)
      else if here < there then
        some ((here + 1) :: rest)
      else
        some ((here - 1) :: rest)
  | _, _ => none

theorem distance_stepComponents? {here there next : List Nat}
    (hstep : stepComponents? here there = some next) :
    distance here there = distance next there + 1 := by
  induction here generalizing there next with
  | nil => cases hstep
  | cons first rest induction =>
      cases there with
      | nil => cases hstep
      | cons other others =>
          unfold stepComponents? at hstep
          split at hstep
          case isTrue =>
            obtain ⟨inner, hinner, rfl⟩ := Option.map_eq_some_iff.mp hstep
            have hrest := induction hinner
            simp only [distance]
            omega
          case isFalse =>
            split at hstep <;> cases hstep <;> simp only [distance] <;> omega

/-- The next position on the way to `target`, lowest differing dimension first. -/
def stepToward? (position target : Position) : Option Position :=
  if position.dims = target.dims then
    (stepComponents? position.components target.components).map Position.mk
  else
    none

theorem distance_stepToward? {position target next : Position}
    (hstep : position.stepToward? target = some next) :
    distance position.components target.components =
      distance next.components target.components + 1 := by
  unfold stepToward? at hstep
  split at hstep
  case isFalse => cases hstep
  case isTrue =>
    obtain ⟨components, hcomponents, rfl⟩ := Option.map_eq_some_iff.mp hstep
    exact distance_stepComponents? hcomponents

def text (position : Position) : String :=
  "(" ++ String.intercalate "," (position.components.map toString) ++ ")"

instance : ToString Position := ⟨text⟩

end Position

structure Coordinate where
  levels : List Position
  deriving DecidableEq, Repr

namespace Coordinate

def depth (coordinate : Coordinate) : Nat := coordinate.levels.length

def level? (coordinate : Coordinate) (index : Nat) : Option Position :=
  coordinate.levels[index]?

def take (coordinate : Coordinate) (depth : Nat) : Coordinate :=
  ⟨coordinate.levels.take depth⟩

def push (coordinate : Coordinate) (position : Position) : Coordinate :=
  ⟨coordinate.levels ++ [position]⟩

/-- The functional unit of a column at one step and phase. -/
def atTime (column : Coordinate) (step phase : Nat) (unit : FunctionalUnit) : Coordinate :=
  ⟨column.levels ++ [.scalar step, .scalar phase, .scalar unit.index]⟩

/-- First component of a level; the time levels have no other. -/
def scalar? (coordinate : Coordinate) (index : Nat) : Option Nat :=
  (coordinate.level? index).bind (·.get? 0)

def step? (coordinate : Coordinate) (spaceDepth : Nat) : Option Nat :=
  coordinate.scalar? spaceDepth

def phase? (coordinate : Coordinate) (spaceDepth : Nat) : Option Nat :=
  coordinate.scalar? (spaceDepth + 1)

def unit? (coordinate : Coordinate) (spaceDepth : Nat) : Option FunctionalUnit :=
  (coordinate.scalar? (spaceDepth + 2)).bind FunctionalUnit.ofIndex?

def withUnit (coordinate : Coordinate) (spaceDepth : Nat) (unit : FunctionalUnit) : Coordinate :=
  (coordinate.take (spaceDepth + 2)).push (.scalar unit.index)

/-- The same time levels in another column. -/
def relocated (coordinate : Coordinate) (spaceDepth : Nat) (column : Coordinate) : Coordinate :=
  ⟨column.levels.take spaceDepth ++ coordinate.levels.drop spaceDepth⟩

/-- Index of the outermost level in which the lists differ, a missing level differing too. -/
def firstDifferenceIn? : List Position → List Position → Option Nat
  | [], [] => none
  | left :: lefts, right :: rights =>
      if left = right then (firstDifferenceIn? lefts rights).map (· + 1) else some 0
  | _, _ => some 0

def firstDifference? (left right : Coordinate) : Option Nat :=
  firstDifferenceIn? left.levels right.levels

def compare (left right : Coordinate) : Ordering :=
  Ord.compare left.levels right.levels

instance : Ord Coordinate := ⟨compare⟩

def text (coordinate : Coordinate) : String :=
  String.intercalate "/" (coordinate.levels.map Position.text)

instance : ToString Coordinate := ⟨text⟩

end Coordinate

end TiledPlacement
