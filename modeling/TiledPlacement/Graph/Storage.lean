import TiledPlacement.Graph.Shape

/-!
How tensors are kept: element formats, the room a tensor takes in a memory bank, and kinds of
storage.
-/

namespace TiledPlacement

inductive Precision
  | int32
  | int8
  | ternary
  | binary
  deriving DecidableEq, Repr

namespace Precision

def all : List Precision := [.int32, .int8, .ternary, .binary]

def text : Precision → String
  | .int32 => "int32"
  | .int8 => "int8"
  | .ternary => "ternary"
  | .binary => "binary"

def bits : Precision → Nat
  | .int32 => 32
  | .int8 => 8
  | .ternary => 2
  | .binary => 1

/-- Whole bytes that hold `elements` values. -/
def bytesFor (precision : Precision) (elements : Nat) : Nat :=
  (word (elements * precision.bits) + 7) / 8

end Precision

/-- The least multiple of `alignment` that is not below `bytes`; an alignment of zero or one
leaves the count as it is. -/
def alignUp (bytes alignment : Nat) : Nat :=
  if alignment ≤ 1 then bytes else word ((bytes + (alignment - 1)) / alignment * alignment)

def storageBytes (shape : Shape) (precision : Precision) (alignment : Nat) : Nat :=
  alignUp (precision.bytesFor shape.volume) alignment

/-! Kinds of storage: tensors that are held in a memory bank or staged in a router. -/

inductive StorageKind
  | activation
  | convolutionActivation
  | convolution2dActivation
  | denseActivation
  | convolutionWeight
  | bias
  | denseWeight
  | convolution2dWeight
  | input
  | output
  deriving DecidableEq, Repr

namespace StorageKind

def all : List StorageKind :=
  [.activation, .convolutionActivation, .convolution2dActivation, .denseActivation,
    .convolutionWeight, .bias, .denseWeight, .convolution2dWeight, .input, .output]

def text : StorageKind → String
  | .activation => "Si"
  | .convolutionActivation => "Sic"
  | .convolution2dActivation => "Sic2d"
  | .denseActivation => "Sifc"
  | .convolutionWeight => "Sw"
  | .bias => "Sb"
  | .denseWeight => "Swfc"
  | .convolution2dWeight => "Sw2d"
  | .input => "Input"
  | .output => "Output"

instance : ToString StorageKind := ⟨text⟩

/-- Whether the tensor is loaded before execution and never written. -/
def isStatic : StorageKind → Bool
  | .convolutionWeight => true
  | .bias => true
  | .denseWeight => true
  | .convolution2dWeight => true
  | _ => false

def inputPorts (kind : StorageKind) : Nat :=
  if kind.isStatic || kind == .input then 0 else 1

def outputPorts : StorageKind → Nat
  | .output => 0
  | _ => 1

end StorageKind

end TiledPlacement
