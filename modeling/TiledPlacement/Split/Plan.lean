import TiledPlacement.Graph.Basic
import TiledPlacement.Split.Part

/-!
What a split creates. A copy of the computation is planned for each part, with copies of the
operands that only the computation reads, cut to what the part reads; the edges that met the
computation are cut to the windows of the copies. Only ids are taken while planning.
-/

namespace TiledPlacement

structure SplitPlan where
  created : List TaskId
  blocks : List Block
  edges : List Connection

namespace SplitPlan

def empty : SplitPlan := ⟨[], [], []⟩

def append (first second : SplitPlan) : SplitPlan where
  created := first.created ++ second.created
  blocks := first.blocks ++ second.blocks
  edges := first.edges ++ second.edges

def concat (plans : List SplitPlan) : SplitPlan := plans.foldr append empty

end SplitPlan

abbrev Planner := EStateM GraphError IdSource

namespace Planner

def ofExcept : Except GraphError α → Planner α
  | .ok value => pure value
  | .error error => throw error

def takeTaskId : Planner TaskId := modifyGet IdSource.task

end Planner

/-- A split of one block: the block and its computation, the cuts, the operands to be copied and
whether partial sums are to be accumulated. -/
structure Split where
  block : Block
  computation : Computation
  factors : SplitVector
  operands : List TaskId

namespace Split

def reduces (split : Split) : Bool :=
  decide (1 < split.factors.r) && split.computation.operation.isReduction

def parts (split : Split) : List SplitPart :=
  SplitPart.all split.computation.shape split.factors

def window (split : Split) (part : SplitPart) : Window :=
  part.window split.computation split.factors

/-- The common part of two windows, if it has any element. -/
def overlap? (left right : Window) : Option Window :=
  (left.intersect? right).filter fun window => decide (0 < window.volume)

/-- Edges that meet a window at one of their ends, each with the part of that end that does. -/
def meeting (edges : List Edge) (side : Edge → Endpoint) (window : Window) :
    List (Edge × Window) :=
  edges.filterMap fun edge =>
    (overlap? (side edge).window window).map fun part => (edge, part)

/-- The part of the window `there`, at one end of an edge, that corresponds to the part of the
window `here` at its other end. Rearranged data corresponds only as a whole. -/
def carry (edge : Edge) (here part there : Window) : Except GraphError Window :=
  if edge.isIdentity then .ok (here.project part there)
  else if part = here then .ok there
  else .error (.rearrangedCut edge.id)

/-- Edges that feed the part of an operand that a copy holds. -/
def operandFeeds (graph : TaskGraph) (operand copy : TaskId) (part : Window) :
    Except GraphError (List Connection) :=
  (meeting (graph.inputEdges operand) Edge.dst part).mapM fun (edge, piece) => do
    let sent ← carry edge edge.dst.window piece edge.src.window
    return {
      src := { edge.src with window := sent }
      dst := ⟨copy, edge.dst.port, part.localize piece⟩
      rearrange := edge.rearrange }

/-- Copy the part of an operand that `edge` brings to `dst`. -/
def planOperand (graph : TaskGraph) (edge : Edge) (part : Window) (dst : Endpoint) :
    Planner SplitPlan := do
  let operand ← Planner.ofExcept (graph.block edge.src.task)
  let copy ← Planner.takeTaskId
  let block ← Planner.ofExcept (operand.copyLike copy part.size)
  let feeds ← Planner.ofExcept (operandFeeds graph operand.id copy part)
  let delivery : Connection := {
    src := ⟨copy, edge.src.port, .full part.size⟩
    dst
    rearrange := edge.rearrange }
  return ⟨[copy], [block], feeds ++ [delivery]⟩

/-- Bring to port `port` of a copy the part `part` of what `edge` brought to the cut block. -/
def planFeed (split : Split) (graph : TaskGraph) (copy : TaskId) (port : Nat)
    (required : Window) (edge : Edge) (part : Window) : Planner SplitPlan := do
  let sent ← Planner.ofExcept (carry edge edge.dst.window part edge.src.window)
  let dst : Endpoint := ⟨copy, port, required.localize part⟩
  if edge.src.task ∈ split.operands then
    planOperand graph edge sent dst
  else
    let feed : Connection := {
      src := { edge.src with window := sent }
      dst
      rearrange := edge.rearrange }
    return ⟨[], [], [feed]⟩

def planInputs (split : Split) (graph : TaskGraph) (copy : TaskId) (ports : Nat)
    (window : Window) : Planner SplitPlan := do
  let inputs := (split.computation.inputs.zip split.block.inputs).zipIdx.take ports
  let plans ← inputs.mapM fun ((operand, whole), port) => do
    let required := operand.2.window window
    let feeds ← (meeting (graph.edgesAt whole) Edge.dst required).mapM fun (edge, part) =>
      split.planFeed graph copy port required edge part
    return SplitPlan.concat feeds
  return SplitPlan.concat plans

def outputEdges (split : Split) (graph : TaskGraph) : List Edge :=
  (split.block.outputs.take 1).flatMap graph.edgesAt

/-- Edges from a copy to where the cut block sent its part of the output. -/
def deliveries (split : Split) (graph : TaskGraph) (copy : TaskId) (window : Window) :
    Except GraphError (List Connection) :=
  (meeting (split.outputEdges graph) Edge.src window).mapM fun (edge, part) => do
    let received ← carry edge edge.src.window part edge.dst.window
    return {
      src := ⟨copy, 0, window.localize part⟩
      dst := { edge.dst with window := received }
      rearrange := edge.rearrange }

/-- The edge that brings a partial sum to its port of the accumulator. -/
def addendEdge (copy accumulator : TaskId) (addend : Nat) (window : Window) : Connection where
  src := ⟨copy, 0, .full window.size⟩
  dst := ⟨accumulator, addend, window⟩
  rearrange := []

def planCopy (split : Split) (graph : TaskGraph) (accumulator : Option TaskId)
    (part : SplitPart) : Planner SplitPlan := do
  let copy ← Planner.takeTaskId
  let computation := part.computation split.computation split.factors split.reduces
  let block ← Planner.ofExcept (Block.ofComputation copy computation)
  let inputs ← split.planInputs graph copy block.inputs.length (split.window part)
  let sent := Computation.output.window (split.window part)
  let outputs ← match accumulator with
    | some accumulator => pure [addendEdge copy accumulator part.addend sent]
    | none => Planner.ofExcept (split.deliveries graph copy sent)
  return {
    created := copy :: inputs.created
    blocks := inputs.blocks ++ [block]
    edges := inputs.edges ++ outputs }

def accumulation (split : Split) : Computation where
  operation := .accumulate (split.computation.operation.shift?.getD 0)
  shape := (Shape.plane split.computation.shape.y split.computation.shape.x
    split.computation.shape.f).set .r split.factors.r
  precision := split.computation.precision
  bias := .absent

/-- The accumulator, sending what the cut block sent. -/
def planAccumulator (split : Split) (graph : TaskGraph) (accumulator : TaskId) :
    Except GraphError SplitPlan := do
  let block ← Block.ofComputation accumulator split.accumulation
  let edges := (split.outputEdges graph).map fun edge =>
    { edge.connection with src := ⟨accumulator, 0, edge.src.window⟩ }
  return ⟨[accumulator], [block], edges⟩

/-- The whole plan; a connection that arises twice is made once. -/
def plan (split : Split) (graph : TaskGraph) : Planner SplitPlan := do
  let accumulator ←
    if split.reduces then some <$> Planner.takeTaskId else pure none
  let copies ← split.parts.mapM (split.planCopy graph accumulator)
  let sums ← match accumulator with
    | some accumulator => Planner.ofExcept (split.planAccumulator graph accumulator)
    | none => pure SplitPlan.empty
  let whole := (SplitPlan.concat copies).append sums
  return { whole with edges := whole.edges.eraseDups }

end Split

/-!
Splitting a computation of a graph: the block and its operands give way to the planned copies.
-/

namespace TaskGraph

/-- Take ids from the graph while planning. -/
def runPlanner (planner : Planner α) : GraphAction α := fun graph =>
  match planner graph.ids with
  | .ok value ids => .ok value { graph with ids }
  | .error error ids => .error error { graph with ids }

/-- Put the planned blocks and edges in the place of a block and its operands. -/
def commit (task : TaskId) (operands : List TaskId) (plan : SplitPlan) : GraphAction Unit := do
  operands.forM fun operand => discard (removeBlockDeferred operand)
  discard (removeBlockDeferred task)
  plan.blocks.forM insertBlockDeferred
  plan.edges.forM fun connection => discard (connectDeferred connection)

/-- Cut a computation into equivalent copies; returns the new blocks, each copy followed by the
copies of its operands and an accumulator last. A vector without effect changes nothing. -/
def split (task : TaskId) (vector : SplitVector) : GraphAction (List TaskId) := do
  let graph ← get
  let block ← GraphAction.ofExcept (graph.block task)
  match block.computation? with
  | none => throw (.unsupportedBlock task .notComputation)
  | some computation =>
      let factors ← GraphAction.ofExcept (computation.effectiveFactors task vector)
      if factors.isIdentity then
        return []
      let operands := (graph.group? task).getD []
      let plan ← runPlanner (Split.plan { block, computation, factors, operands } graph)
      regroupAfter (commit task operands plan)
      return plan.created

end TaskGraph

end TiledPlacement
