import TiledPlacement.Graph.Integrity
import TiledPlacement.Placement.Command
import TiledPlacement.Placement.Evaluation
import TiledPlacement.Schedule
import TiledPlacement.Transfer.Run

/-!
A demonstration on one convolution layer: it is cut, placed and measured. The copies go around the
columns of the accelerator, one on each, then around them again at the next phase, and after the
last phase at the next step.
-/

namespace TiledPlacement

namespace Demo

/-- The blocks of the layer that outlast the cut, and the computation that is cut. -/
structure Layer where
  input : TaskId
  convolution : TaskId
  output : TaskId

/-- A convolution with a kernel of three by three, its operands, and its input and output. -/
def layer : GraphAction Layer := do
  let received := Shape.plane 18 18 16
  let sent := Shape.plane 16 16 32
  let kernel : Shape := { f := 32, r := 16, ky := 3, kx := 3 }
  let input ← TaskGraph.addStorage ⟨.input, received, .int8⟩
  let activation ← TaskGraph.addStorage ⟨.convolutionActivation, received, .int8⟩
  let weight ← TaskGraph.addStorage ⟨.convolutionWeight, kernel, .int8⟩
  let bias ← TaskGraph.addStorage ⟨.bias, .vector 32, .int32⟩
  let convolution ← TaskGraph.addComputation {
    operation := .convolution (.uniform 1 0) 6
    shape := { kernel with y := 16, x := 16, iy := 18, ix := 18 }
    precision := .int8
    bias := .vector }
  let output ← TaskGraph.addStorage ⟨.output, sent, .int8⟩
  discard (TaskGraph.connectWhole input activation 0)
  discard (TaskGraph.connectWhole activation convolution 0)
  discard (TaskGraph.connectWhole weight convolution 1)
  discard (TaskGraph.connectWhole bias convolution 2)
  discard (TaskGraph.connectWhole convolution output 0)
  GraphAction.ofExcept (← get).validate
  return { input, convolution, output }

/-- Build the layer and cut its convolution; returns the blocks that the cut makes. -/
def splitLayer (vector : SplitVector) : PlacementAction (Layer × List TaskId) := do
  let layer ← Placement.changeGraph layer
  let created ← Placement.splitTask layer.convolution vector
  Placement.ofGraph (← get).graph.validate
  return (layer, created)

def slot (hardware : Hardware) (first : Coordinate) (columns : List Coordinate) (index : Nat) :
    Coordinate :=
  let column := columns[index % columns.length]?.getD first
  let round := index / columns.length
  column.atTime (round / hardware.phases) (round % hardware.phases) .axon

/-- Place the computations with their operands, the input at the first column and the output
beside the last computation, or with the input if it cannot be there. Then route every edge;
returns how many there are. -/
def placeLayer (layer : Layer) (computations : List TaskId) (first : Coordinate)
    (columns : List Coordinate) : PlacementAction Nat := do
  let placement ← get
  let place := slot placement.hardware first columns
  let start := first.atTime 0 0 .memory
  let last := if computations.isEmpty then start
    else placement.memoryAt (place (computations.length - 1))
  computations.zipIdx.forM fun (task, index) => Placement.putGroupIn (place index) task
  Placement.putIn start layer.input
  try Placement.putIn last layer.output
  catch _ => Placement.putIn start layer.output
  let routed ← Placement.routePlacedEdges
  Placement.ofExcept (← get).checkConsistency
  return routed

def latest (completions : List (EdgeId × Float)) : Float :=
  completions.foldl (fun latest (_, time) => if latest < time then time else latest) 0.0

def firingOrder (placement : Placement) : Except PlacementError (List TaskId) :=
  match Schedule.run placement Executor.pipeline (Schedule.start placement.graph ∅) with
  | .ok fired _ => .ok fired
  | .error error _ => .error error

end Demo

end TiledPlacement
