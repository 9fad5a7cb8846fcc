import TiledPlacement.Graph.Error
import TiledPlacement.Graph.Storage

/-!
Blocks of a task graph. A block is a storage tensor or a computation; the shape of each of its
ports follows from its own, and a port lists the edges attached to it in order of attachment.
-/

namespace TiledPlacement

inductive Bias
  | absent
  | constant (value : Int32)
  /-- One value per output channel, read from a port of its own. -/
  | vector
  deriving DecidableEq, Repr

structure Port where
  shape : Shape
  edges : List EdgeId
  deriving DecidableEq, Repr

namespace Port

def unconnected (shape : Shape) : Port := ⟨shape, []⟩

def isEmpty (port : Port) : Bool := port.edges.isEmpty

def attach (port : Port) (edge : EdgeId) : Port :=
  if edge ∈ port.edges then port else { port with edges := port.edges ++ [edge] }

def detach (port : Port) (edge : EdgeId) : Port :=
  { port with edges := port.edges.filter (fun other => decide (other ≠ edge)) }

end Port

structure Storage where
  kind : StorageKind
  shape : Shape
  precision : Precision
  deriving DecidableEq, Repr

structure Computation where
  operation : Operation
  shape : Shape
  precision : Precision
  bias : Bias
  deriving DecidableEq, Repr

namespace Computation

def hasBiasPort (computation : Computation) : Bool :=
  computation.bias == .vector && computation.operation.takesVectorBias

/-- Input ports in order, a bias port last. -/
def inputs (computation : Computation) : List (OperandRole × AxisMap) :=
  let operands : List (OperandRole × AxisMap) :=
    match computation.operation with
    | .convolution .. => [(.activation, .convolutionInput), (.weight, .convolutionWeight)]
    | .convolution2d .. => [(.activation, .convolutionInput), (.weight, .convolutionWeight)]
    | .vectorMatrix .. => [(.activation, .vectorInput), (.weight, .matrixWeight)]
    | .accumulate .. =>
        List.replicate (Nat.max computation.shape.r 1) (.activation, .elementwise)
    | .averagePool .. => [(.activation, .poolInput)]
    | .binaryCompare .. => [(.activation, .poolInput)]
    | .signedCompare .. => [(.activation, .poolInput)]
    | .vectorProduct .. => [(.activation, .elementwise), (.activation, .elementwise)]
    | .channelScale .. => [(.activation, .elementwise), (.weight, .channel)]
    | .lookup => [(.activation, .elementwise), (.table, .table)]
    | .vectorShift .. => [(.activation, .elementwise)]
    | .integrateAndFire .. => [(.activation, .elementwise)]
  if computation.hasBiasPort then operands ++ [(.bias, .channel)] else operands

/-- The only output is an activation in the computation's own axes. -/
def output : AxisMap := .elementwise

/-- The disagreement, if any, between the output extent along an axis and the extent that the
sliding window makes of the input. -/
def windowFault? (computation : Computation) (window : KernelWindow)
    (outputAxis inputAxis kernelAxis : Axis) : Option ShapeFault :=
  let shape := computation.shape
  let expected :=
    window.outputExtent? inputAxis (shape.get inputAxis) (shape.get kernelAxis)
  if expected = some (shape.get outputAxis) then
    none
  else
    some (.outputMismatch computation.operation outputAxis (shape.get outputAxis)
      inputAxis (shape.get inputAxis) expected)

/-- The first thing wrong with the shape: a missing axis, or an output extent that does not
follow from the input. -/
def shapeFault? (computation : Computation) : Option ShapeFault :=
  let missing := computation.operation.requiredAxes.find? fun axis =>
    !computation.shape.has axis
  match missing, computation.operation.window? with
  | some axis, _ => some (.missingAxis computation.operation axis computation.shape)
  | none, none => none
  | none, some window =>
      match computation.windowFault? window .y .iy .ky with
      | some fault => some fault
      | none => computation.windowFault? window .x .ix .kx

/-- Whether the description is one that the hardware can run; `task` names it in errors. -/
def check (computation : Computation) (task : TaskId) : Except GraphError Unit :=
  match computation.shapeFault? with
  | some fault => .error (.shape task fault)
  | none =>
      if computation.bias = .vector ∧ computation.operation.takesVectorBias = false then
        .error (.unsupportedBlock task (.noBiasPort computation.operation))
      else
        .ok ()

end Computation

inductive Payload
  | storage (storage : Storage)
  | computation (computation : Computation)
  deriving DecidableEq, Repr

structure Block where
  id : TaskId
  payload : Payload
  inputs : List Port
  outputs : List Port
  deriving DecidableEq, Repr

namespace Block

def ofStorage (id : TaskId) (storage : Storage) : Except GraphError Block :=
  if storage.shape.volume = 0 then
    .error (.shape id (.emptyStorage storage.kind))
  else
    .ok {
      id
      payload := .storage storage
      inputs := List.replicate storage.kind.inputPorts (.unconnected storage.shape)
      outputs := List.replicate storage.kind.outputPorts (.unconnected storage.shape) }

def ofComputation (id : TaskId) (computation : Computation) : Except GraphError Block :=
  match computation.check id with
  | .error error => .error error
  | .ok () =>
      .ok {
        id
        payload := .computation computation
        inputs := computation.inputs.map fun input =>
          .unconnected (input.2.shape computation.shape)
        outputs := [.unconnected (Computation.output.shape computation.shape)] }

/-- A block of the same kind with another id and shape, without edges. -/
def copyLike (block : Block) (id : TaskId) (shape : Shape) : Except GraphError Block :=
  match block.payload with
  | .storage storage => ofStorage id { storage with shape }
  | .computation computation => ofComputation id { computation with shape }

def shape (block : Block) : Shape :=
  match block.payload with
  | .storage storage => storage.shape
  | .computation computation => computation.shape

def precision (block : Block) : Precision :=
  match block.payload with
  | .storage storage => storage.precision
  | .computation computation => computation.precision

def storage? (block : Block) : Option Storage :=
  match block.payload with
  | .storage storage => some storage
  | .computation _ => none

def computation? (block : Block) : Option Computation :=
  match block.payload with
  | .storage _ => none
  | .computation computation => some computation

def isComputation (block : Block) : Bool := block.computation?.isSome

/-- The engine that runs the block; storage needs none. -/
def engine? (block : Block) : Option Engine :=
  block.computation?.map (·.operation.engine)

def input (block : Block) (port : Nat) : Except GraphError Port :=
  match block.inputs[port]? with
  | some found => .ok found
  | none => .error (.unknownPort block.id .input port)

def output (block : Block) (port : Nat) : Except GraphError Port :=
  match block.outputs[port]? with
  | some found => .ok found
  | none => .error (.unknownPort block.id .output port)

def inputEdges (block : Block) : List EdgeId := block.inputs.flatMap Port.edges

def outputEdges (block : Block) : List EdgeId := block.outputs.flatMap Port.edges

def edgeIds (block : Block) : List EdgeId := block.inputEdges ++ block.outputEdges

def attachInput (block : Block) (port : Nat) (edge : EdgeId) : Block :=
  { block with inputs := block.inputs.modify port (·.attach edge) }

def attachOutput (block : Block) (port : Nat) (edge : EdgeId) : Block :=
  { block with outputs := block.outputs.modify port (·.attach edge) }

def detach (block : Block) (edge : EdgeId) : Block :=
  { block with
    inputs := block.inputs.map (·.detach edge)
    outputs := block.outputs.map (·.detach edge) }

def text (block : Block) : String :=
  match block.payload with
  | .storage storage => block.id.text ++ " " ++ storage.kind.text ++ storage.shape.text
  | .computation computation =>
      block.id.text ++ " " ++ computation.operation.mnemonic ++ computation.shape.text

instance : ToString Block := ⟨text⟩

end Block

end TiledPlacement
