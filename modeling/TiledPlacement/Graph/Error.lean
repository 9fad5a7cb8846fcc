import TiledPlacement.Graph.Id
import TiledPlacement.Graph.Operation
import TiledPlacement.Graph.Storage

/-!
What can go wrong in a task graph. Each checker reports through a constructor of its own.
-/

namespace TiledPlacement

/-- Ways in which a shape, a window or a split factor breaks its contract. -/
inductive ShapeFault
  | emptyStorage (kind : StorageKind)
  | missingAxis (operation : Operation) (axis : Axis) (shape : Shape)
  | outputMismatch (operation : Operation) (outputAxis : Axis) (output : Nat)
      (inputAxis : Axis) (input : Nat) (expected : Option Nat)
  | selfFeed
  | sourceOutside (window : Window) (cluster : Shape)
  | destinationOutside (window : Window) (cluster : Shape)
  | sizesDiffer (sent : Shape) (producer : TaskId) (received : Shape)
  | volumesDiffer (sent received : Nat)
  | zeroFactor (axis : Axis)
  | absentAxis (axis : Axis) (parts : Nat)
  | factorTooLarge (parts : Nat) (axis : Axis) (extent : Nat)
  deriving DecidableEq, Repr

def optionalExtent : Option Nat → String
  | some extent => "Some(" ++ toString extent ++ ")"
  | none => "None"

def ShapeFault.text : ShapeFault → String
  | .emptyStorage kind => s!"{kind} storage has an empty shape"
  | .missingAxis operation axis shape => s!"{operation} requires axis {axis}, shape is {shape}"
  | .outputMismatch operation outputAxis output inputAxis input expected =>
      s!"{operation} output {outputAxis}={output} does not match input {inputAxis}={input} " ++
        "(expected " ++ optionalExtent expected ++ ")"
  | .selfFeed => "a block cannot feed itself"
  | .sourceOutside window cluster => s!"source window {window} outside output cluster {cluster}"
  | .destinationOutside window cluster =>
      s!"destination window {window} outside input cluster {cluster}"
  | .sizesDiffer sent producer received =>
      s!"window sizes differ: {sent} from {producer} vs {received}"
  | .volumesDiffer sent received => s!"rearranged volumes differ: {sent} vs {received}"
  | .zeroFactor axis => s!"split factor 0 on axis {axis}"
  | .absentAxis axis parts => s!"cannot split absent axis {axis} by {parts}"
  | .factorTooLarge parts axis extent => s!"split factor {parts} exceeds {axis} extent {extent}"

/-- Why a block does not take part in an operation. -/
inductive BlockFault
  | noBiasPort (operation : Operation)
  | connected
  | notComputation
  deriving DecidableEq, Repr

def BlockFault.text : BlockFault → String
  | .noBiasPort operation => s!"{operation} has no vector bias port"
  | .connected => "inserted blocks must be unconnected"
  | .notComputation => "only computation blocks can be split"

inductive ConnectionFault
  | sourceMissing (task : TaskId)
  | destinationMissing (task : TaskId)
  | noOutputPort (task : TaskId) (port : Nat)
  | noInputPort (task : TaskId) (port : Nat)
  | notListedBySource
  | notListedByDestination
  | sourceOutOfBounds
  | destinationOutOfBounds
  | listedButMissing (task : TaskId)
  | pointsElsewhere (task : TaskId) (port : Nat)
  deriving DecidableEq, Repr

def ConnectionFault.text : ConnectionFault → String
  | .sourceMissing task => s!"source {task} missing"
  | .destinationMissing task => s!"destination {task} missing"
  | .noOutputPort task port => s!"{task} has no output port {port}"
  | .noInputPort task port => s!"{task} has no input port {port}"
  | .notListedBySource => "not listed by source cluster"
  | .notListedByDestination => "not listed by destination cluster"
  | .sourceOutOfBounds => "source window out of bounds"
  | .destinationOutOfBounds => "destination window out of bounds"
  | .listedButMissing task => s!"listed by {task} but missing"
  | .pointsElsewhere task port => s!"listed by {task} port {port} but points elsewhere"

inductive TilingFault
  | outOfBounds (window : Window)
  | overlap (first second : Window)
  | uncovered (covered expected : Nat)
  deriving DecidableEq, Repr

def TilingFault.text : TilingFault → String
  | .outOfBounds window => s!"window {window} out of bounds"
  | .overlap first second => s!"windows {first} and {second} overlap"
  | .uncovered covered expected => s!"edges cover {covered} of {expected} elements"

inductive IdFault
  | inUse
  | blockAndEdge
  | blockNotBelow (next : Nat)
  | edgeNotBelow (next : Nat)
  deriving DecidableEq, Repr

def IdFault.text : IdFault → String
  | .inUse => "block id already in use"
  | .blockAndEdge => "used by both a block and an edge"
  | .blockNotBelow next => s!"block id not below the allocator's next id {next}"
  | .edgeNotBelow next => s!"edge id not below the allocator's next id {next}"

inductive PortSide
  | input
  | output
  deriving DecidableEq, Repr

def PortSide.text : PortSide → String
  | .input => "input"
  | .output => "output"

inductive GraphError
  | shape (task : TaskId) (fault : ShapeFault)
  | unknownTask (task : TaskId)
  | unknownEdge (edge : EdgeId)
  | unknownPort (task : TaskId) (side : PortSide) (port : Nat)
  | unsupportedBlock (task : TaskId) (fault : BlockFault)
  /-- A split would cut an edge whose data is rearranged on the way. -/
  | rearrangedCut (edge : EdgeId)
  | connection (edge : EdgeId) (fault : ConnectionFault)
  | tiling (task : TaskId) (port : Nat) (fault : TilingFault)
  | duplicateId (raw : Nat) (fault : IdFault)
  /-- `remaining` blocks could not be ordered. -/
  | cycle (remaining : Nat)
  deriving DecidableEq, Repr

def GraphError.message : GraphError → String
  | .shape task fault => s!"Shape violation on {task}: " ++ fault.text
  | .unknownTask task => s!"Unknown task block: {task}"
  | .unknownEdge edge => s!"Unknown edge: {edge}"
  | .unknownPort task side port => s!"{task} has no " ++ side.text ++ s!" port {port}"
  | .unsupportedBlock task fault => s!"Unsupported block {task}: " ++ fault.text
  | .rearrangedCut edge => s!"Edge {edge} carries a rearrangement and cannot be partially split"
  | .connection edge fault => s!"Connection check failed for {edge}: " ++ fault.text
  | .tiling task port fault =>
      s!"Tiling check failed for {task} input port {port}: " ++ fault.text
  | .duplicateId raw fault => s!"Duplicate id {raw}: " ++ fault.text
  | .cycle remaining => s!"Task graph contains a cycle through {remaining} block(s)"

end TiledPlacement
