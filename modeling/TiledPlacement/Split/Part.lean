import TiledPlacement.Graph.Block
import TiledPlacement.Word

/-!
The parts of a split. A part is one interval along each splittable axis; it determines a window of
the whole computation and the computation that runs on that window.
-/

namespace TiledPlacement

/-!
Half-open intervals, their division into nearly equal pieces, and the interval of an input that a
sliding window reads.
-/

structure Interval where
  start : Nat
  stop : Nat
  deriving DecidableEq, Repr

namespace Interval

def length (interval : Interval) : Nat := interval.stop - interval.start

def upTo (extent : Nat) : Interval := ⟨0, extent⟩

/-- `count` pieces that follow each other from `start` on, the first of them being piece `index`;
pieces have `base` elements, and those before piece `longer` have one more. -/
def pieces (base longer index start : Nat) : Nat → List Interval
  | 0 => []
  | count + 1 =>
      let stop := start + (base + if index < longer then 1 else 0)
      ⟨start, stop⟩ :: pieces base longer (index + 1) stop count

/-- Contiguous pieces whose lengths differ by at most one, longer ones first; there are none when
`extent` cannot be divided into so many. -/
def averageSplit (extent parts : Nat) : List Interval :=
  if parts = 0 ∨ extent < parts then []
  else pieces (extent / parts) (extent % parts) 0 0 parts

end Interval

/-- What an interval of outputs reads: an interval of the input and the padding that is left on
each side of it. -/
structure ReceptiveField where
  input : Interval
  before : Nat
  after : Nat
  deriving DecidableEq, Repr

namespace ReceptiveField

/-- The padded input that `output` reads runs from `output.start * stride` over `reach` elements
past its last step. Moved back by the padding before the input and clipped to the input, it leaves
as padding what falls outside. -/
def ofOutput (output : Interval) (stride reach padding extent : Nat) : ReceptiveField :=
  let start := word (output.start * stride)
  let stop := word ((output.stop - 1) * stride + reach)
  { input := ⟨Nat.min (start - padding) extent, Nat.min (stop - padding) extent⟩
    before := padding - start
    after := stop - word (padding + extent) }

end ReceptiveField

/-!
Split vectors: into how many parts a computation is cut along each axis, and which cuts a
computation allows.
-/

structure SplitVector where
  y : Nat := 1
  x : Nat := 1
  f : Nat := 1
  r : Nat := 1
  deriving DecidableEq, Repr

namespace SplitVector

def one : SplitVector := {}

def along (vector : SplitVector) : Axis → Nat
  | .y => vector.y
  | .x => vector.x
  | .f => vector.f
  | .r => vector.r
  | _ => 1

def set (vector : SplitVector) (axis : Axis) (parts : Nat) : SplitVector :=
  match axis with
  | .y => { vector with y := parts }
  | .x => { vector with x := parts }
  | .f => { vector with f := parts }
  | .r => { vector with r := parts }
  | _ => vector

def isIdentity (vector : SplitVector) : Bool := decide (vector = one)

/-- How many combinations of one piece along each axis there are. -/
def combinations (vector : SplitVector) : Nat := vector.y * vector.x * vector.f * vector.r

def copies (vector : SplitVector) : Nat := word vector.combinations

def text (vector : SplitVector) : String :=
  s!"(y={vector.y}, x={vector.x}, f={vector.f}, r={vector.r})"

instance : ToString SplitVector := ⟨text⟩

end SplitVector

namespace Computation

/-- Whether one position of the sliding window covers the whole padded input along an axis. -/
def coversInput (computation : Computation) (window : KernelWindow)
    (inputAxis kernelAxis : Axis) : Bool :=
  decide (window.padded inputAxis (computation.shape.get inputAxis) ≤
    window.reach inputAxis (computation.shape.get kernelAxis))

/-- Cuts that are never made: along a global pooling window, between the addends of an
accumulation, through a lookup table. -/
def refusesCut (computation : Computation) (axis : Axis) : Bool :=
  match computation.operation, axis with
  | .averagePool window _, .y => computation.coversInput window .iy .ky
  | .averagePool window _, .x => computation.coversInput window .ix .kx
  | .accumulate _, .r => true
  | .lookup, .r => true
  | _, _ => false

/-- The number of parts along an axis that a request for `parts` leads to. -/
def allowedParts (computation : Computation) (axis : Axis) (parts : Nat) :
    Except ShapeFault Nat :=
  let extent := computation.shape.get axis
  if parts = 0 then .error (.zeroFactor axis)
  else if parts = 1 then .ok 1
  else if computation.refusesCut axis then .ok 1
  else if extent = 0 then .error (.absentAxis axis parts)
  else if extent < parts then .error (.factorTooLarge parts axis extent)
  else .ok parts

/-- The cuts that a request leads to; `task` names the computation in errors. -/
def effectiveFactors (computation : Computation) (task : TaskId) (vector : SplitVector) :
    Except GraphError SplitVector :=
  let parts := fun axis =>
    (computation.allowedParts axis (vector.along axis)).mapError (GraphError.shape task)
  return { y := ← parts .y, x := ← parts .x, f := ← parts .f, r := ← parts .r }

end Computation

/-! Parts. -/

structure SplitPart where
  y : Interval
  x : Interval
  f : Interval
  r : Interval
  /-- Place of the `r` interval among those of its axis. -/
  addend : Nat
  deriving DecidableEq, Repr

namespace SplitPart

/-- Intervals along one axis; an axis that does not apply has a single empty one. -/
def intervals (shape : Shape) (factors : SplitVector) (axis : Axis) : List Interval :=
  if shape.has axis then Interval.averageSplit (shape.get axis) (factors.along axis)
  else [.upTo 0]

/-- Every combination of intervals, `y` outermost and `r` innermost. -/
def all (shape : Shape) (factors : SplitVector) : List SplitPart :=
  (intervals shape factors .y).flatMap fun y =>
    (intervals shape factors .x).flatMap fun x =>
      (intervals shape factors .f).flatMap fun f =>
        (intervals shape factors .r).zipIdx.map fun (r, addend) => { y, x, f, r, addend }

/-- What the part reads of the input along an axis of the sliding window. -/
def field (computation : Computation) (window : KernelWindow) (output : Interval)
    (inputAxis kernelAxis : Axis) : ReceptiveField :=
  .ofOutput output (window.stride inputAxis)
    (window.reach inputAxis (computation.shape.get kernelAxis))
    (window.padding.before inputAxis) (computation.shape.get inputAxis)

def fieldY? (part : SplitPart) (computation : Computation) (factors : SplitVector) :
    Option ReceptiveField :=
  if factors.y = 1 then none
  else computation.operation.window?.map fun window =>
    field computation window part.y .iy .ky

def fieldX? (part : SplitPart) (computation : Computation) (factors : SplitVector) :
    Option ReceptiveField :=
  if factors.x = 1 then none
  else computation.operation.window?.map fun window =>
    field computation window part.x .ix .kx

/-- Indices of the whole that belong to the part, along each axis. -/
def interval (part : SplitPart) (computation : Computation) (factors : SplitVector)
    (axis : Axis) : Interval :=
  match axis with
  | .y => part.y
  | .x => part.x
  | .f => part.f
  | .r => part.r
  | .iy => ((part.fieldY? computation factors).map (·.input)).getD (.upTo computation.shape.iy)
  | .ix => ((part.fieldX? computation factors).map (·.input)).getD (.upTo computation.shape.ix)
  | .ky => .upTo computation.shape.ky
  | .kx => .upTo computation.shape.kx

def window (part : SplitPart) (computation : Computation) (factors : SplitVector) : Window where
  position := .ofFunction fun axis => (part.interval computation factors axis).start
  size := .ofFunction fun axis => (part.interval computation factors axis).length

/-- Padding that is left for the part: a side that is cut keeps what falls outside the input. -/
def padding (part : SplitPart) (computation : Computation) (factors : SplitVector)
    (padding : Padding) : Padding :=
  let alongY := match part.fieldY? computation factors with
    | some field => padding.setAlong .iy field.before field.after
    | none => padding
  match part.fieldX? computation factors with
  | some field => alongY.setAlong .ix field.before field.after
  | none => alongY

def operation (part : SplitPart) (computation : Computation) (factors : SplitVector) :
    Operation :=
  match computation.operation.window? with
  | some window =>
      computation.operation.withWindow
        { window with padding := part.padding computation factors window.padding }
  | none => computation.operation

/-- The computation on the part. With `reduce` it yields partial sums: in full precision,
unshifted, and with the bias in the first addend only. -/
def computation (part : SplitPart) (whole : Computation) (factors : SplitVector)
    (reduce : Bool) : Computation :=
  let operation := part.operation whole factors
  let shape := (part.window whole factors).size
  if reduce then
    { operation := operation.withShift 0
      shape
      precision := .int32
      bias := if 0 < part.r.start then .absent else whole.bias }
  else
    { whole with operation, shape }

end SplitPart

end TiledPlacement
