import TiledPlacement.Graph.Shape
import TiledPlacement.Hardware.Coordinate

/-!
Hardware primitives, the operands that each of them reads, and the sliding windows on which some of
them run.
-/

namespace TiledPlacement

/-!
Sliding windows. The kernel's own extent is part of the shape of the computation; the window says
how it steps, how far its taps are apart and how the input is padded.
-/

structure Padding where
  top : Nat := 0
  bottom : Nat := 0
  left : Nat := 0
  right : Nat := 0
  deriving DecidableEq, Repr

namespace Padding

def uniform (amount : Nat) : Padding := ⟨amount, amount, amount, amount⟩

def before (padding : Padding) : Axis → Nat
  | .x => padding.left
  | .ix => padding.left
  | _ => padding.top

def after (padding : Padding) : Axis → Nat
  | .x => padding.right
  | .ix => padding.right
  | _ => padding.bottom

def setAlong (padding : Padding) (axis : Axis) (before after : Nat) : Padding :=
  match axis with
  | .x => { padding with left := before, right := after }
  | .ix => { padding with left := before, right := after }
  | _ => { padding with top := before, bottom := after }

end Padding

structure KernelWindow where
  strideY : Nat := 1
  strideX : Nat := 1
  dilationY : Nat := 1
  dilationX : Nat := 1
  padding : Padding := {}
  deriving DecidableEq, Repr

namespace KernelWindow

/-- The same stride and padding on every side, taps next to each other. -/
def uniform (stride padding : Nat) : KernelWindow :=
  { strideY := stride, strideX := stride, padding := Padding.uniform padding }

def stride (window : KernelWindow) : Axis → Nat
  | .x => window.strideX
  | .ix => window.strideX
  | _ => window.strideY

def dilation (window : KernelWindow) : Axis → Nat
  | .x => window.dilationX
  | .ix => window.dilationX
  | _ => window.dilationY

/-- Extent from the first to the last of `taps` taps. -/
def reach (window : KernelWindow) (axis : Axis) (taps : Nat) : Nat :=
  if taps = 0 then 0 else word ((taps - 1) * window.dilation axis + 1)

def padded (window : KernelWindow) (axis : Axis) (input : Nat) : Nat :=
  word (input + window.padding.before axis + window.padding.after axis)

/-- How often the kernel fits into the padded input, none if it does not fit at all. -/
def outputExtent? (window : KernelWindow) (axis : Axis) (input taps : Nat) : Option Nat :=
  let reach := window.reach axis taps
  let padded := window.padded axis input
  if reach = 0 ∨ window.stride axis = 0 ∨ padded < reach then
    none
  else
    some ((padded - reach) / window.stride axis + 1)

end KernelWindow

/-! Primitives. -/

/-- A neuron that integrates its input and fires above a threshold. -/
structure Neuron where
  threshold : Int32 := 0
  leak : Int32 := 0
  reset : Int32 := 0
  deriving DecidableEq, Repr

inductive Operation
  | convolution (window : KernelWindow) (shift : UInt8)
  | convolution2d (window : KernelWindow) (shift : UInt8)
  | vectorMatrix (shift : UInt8)
  | accumulate (shift : UInt8)
  | averagePool (window : KernelWindow) (shift : UInt8)
  | vectorProduct (shift : UInt8)
  | channelScale (shift : UInt8)
  | vectorShift (shift : UInt8)
  | binaryCompare (window : KernelWindow) (constant : Int32)
  | signedCompare (window : KernelWindow) (constant : Int32)
  | lookup
  | integrateAndFire (neuron : Neuron)
  deriving DecidableEq, Repr

namespace Operation

def mnemonic : Operation → String
  | .convolution .. => "CC"
  | .convolution2d .. => "CC2D"
  | .vectorMatrix .. => "CVM"
  | .accumulate .. => "CADD"
  | .averagePool .. => "CAVG"
  | .vectorProduct .. => "CVVH"
  | .channelScale .. => "CAX"
  | .vectorShift .. => "CVS"
  | .binaryCompare .. => "CCMPB"
  | .signedCompare .. => "CCMPS"
  | .lookup => "CLUT"
  | .integrateAndFire .. => "CLIF"

instance : ToString Operation := ⟨mnemonic⟩

def engine : Operation → Engine
  | .convolution .. => .axon
  | .convolution2d .. => .axon
  | .vectorMatrix .. => .axon
  | .accumulate .. => .axon
  | .averagePool .. => .axon
  | .vectorProduct .. => .axon
  | .channelScale .. => .axon
  | .vectorShift .. => .soma
  | .binaryCompare .. => .soma
  | .signedCompare .. => .soma
  | .lookup => .soma
  | .integrateAndFire .. => .soma

def window? : Operation → Option KernelWindow
  | .convolution window _ => some window
  | .convolution2d window _ => some window
  | .averagePool window _ => some window
  | .binaryCompare window _ => some window
  | .signedCompare window _ => some window
  | _ => none

def withWindow (operation : Operation) (window : KernelWindow) : Operation :=
  match operation with
  | .convolution _ shift => .convolution window shift
  | .convolution2d _ shift => .convolution2d window shift
  | .averagePool _ shift => .averagePool window shift
  | .binaryCompare _ constant => .binaryCompare window constant
  | .signedCompare _ constant => .signedCompare window constant
  | other => other

def shift? : Operation → Option UInt8
  | .convolution _ shift => some shift
  | .convolution2d _ shift => some shift
  | .vectorMatrix shift => some shift
  | .accumulate shift => some shift
  | .averagePool _ shift => some shift
  | .vectorProduct shift => some shift
  | .channelScale shift => some shift
  | .vectorShift shift => some shift
  | _ => none

def withShift (operation : Operation) (shift : UInt8) : Operation :=
  match operation with
  | .convolution window _ => .convolution window shift
  | .convolution2d window _ => .convolution2d window shift
  | .vectorMatrix _ => .vectorMatrix shift
  | .accumulate _ => .accumulate shift
  | .averagePool window _ => .averagePool window shift
  | .vectorProduct _ => .vectorProduct shift
  | .channelScale _ => .channelScale shift
  | .vectorShift _ => .vectorShift shift
  | other => other

/-- Whether cutting the `r` axis leaves partial sums. -/
def isReduction : Operation → Bool
  | .convolution .. => true
  | .convolution2d .. => true
  | .vectorMatrix .. => true
  | _ => false

def takesVectorBias : Operation → Bool
  | .convolution .. => true
  | .convolution2d .. => true
  | .vectorMatrix .. => true
  | .channelScale .. => true
  | .accumulate .. => true
  | _ => false

def requiredAxes : Operation → List Axis
  | .convolution .. => [.y, .x, .f, .r, .ky, .kx, .iy, .ix]
  | .convolution2d .. => [.y, .x, .f, .r, .ky, .kx, .iy, .ix]
  | .averagePool .. => [.y, .x, .f, .ky, .kx, .iy, .ix]
  | .binaryCompare .. => [.y, .x, .f, .ky, .kx, .iy, .ix]
  | .signedCompare .. => [.y, .x, .f, .ky, .kx, .iy, .ix]
  | .vectorMatrix .. => [.f, .r]
  | .accumulate .. => [.f, .r]
  | .lookup => [.f, .r]
  | .vectorProduct .. => [.f]
  | .channelScale .. => [.f]
  | .vectorShift .. => [.f]
  | .integrateAndFire .. => [.f]

end Operation

inductive OperandRole
  | activation
  | weight
  | bias
  | table
  deriving DecidableEq, Repr

def OperandRole.text : OperandRole → String
  | .activation => "Activation"
  | .weight => "Weight"
  | .bias => "Bias"
  | .table => "Table"

/-- Which axis of a computation lies along which axis of the data at one of its ports:
pairs of the data's axis and the computation's. -/
structure AxisMap where
  pairs : List (Axis × Axis)
  deriving DecidableEq, Repr

namespace AxisMap

def convolutionInput : AxisMap := ⟨[(.y, .iy), (.x, .ix), (.f, .r)]⟩

def poolInput : AxisMap := ⟨[(.y, .iy), (.x, .ix), (.f, .f)]⟩

def vectorInput : AxisMap := ⟨[(.f, .r)]⟩

/-- Activations that keep their place; every output is one of these. -/
def elementwise : AxisMap := ⟨[(.y, .y), (.x, .x), (.f, .f)]⟩

def convolutionWeight : AxisMap := ⟨[(.f, .f), (.r, .r), (.ky, .ky), (.kx, .kx)]⟩

def matrixWeight : AxisMap := ⟨[(.f, .f), (.r, .r)]⟩

def channel : AxisMap := ⟨[(.f, .f)]⟩

def table : AxisMap := ⟨[(.r, .r)]⟩

/-- Extents of the data, for the extents of the computation. -/
def shape (map : AxisMap) (block : Shape) : Shape :=
  map.pairs.foldl (fun data pair => data.set pair.1 (block.get pair.2)) Shape.zero

def window (map : AxisMap) (block : Window) : Window :=
  ⟨map.shape block.position, map.shape block.size⟩

end AxisMap

end TiledPlacement
