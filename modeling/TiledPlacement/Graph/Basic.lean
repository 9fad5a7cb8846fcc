import TiledPlacement.Graph.Block
import TiledPlacement.Graph.Id
import TiledPlacement.Graph.Shape

/-!
Task graphs. Blocks and edges are kept by id; every change of structure keeps an edge listed by
exactly the two ports that it names. An action that fails keeps the ids it has taken.

The operands of computations are recorded, and have to be determined anew when the structure has
changed. The changes called deferred leave that to their callers, who may have several to make.
-/

namespace TiledPlacement

/-!
Edges carry a window of one block's output to a window of another block's input.
-/

/-- A change of index that data undergoes on the way. -/
inductive Rearrangement
  | identity
  | reshape (source target : Shape)
  | permute (axes : List Axis)
  deriving DecidableEq, Repr

/-- One end of an edge: a block, one of its ports and a region of the data there. -/
structure Endpoint where
  task : TaskId
  port : Nat
  window : Window
  deriving DecidableEq, Repr

/-- A connection that has no identity yet. -/
structure Connection where
  src : Endpoint
  dst : Endpoint
  rearrange : List Rearrangement
  deriving DecidableEq, Repr

namespace Connection

def isIdentity (connection : Connection) : Bool :=
  connection.rearrange.all (· == .identity)

end Connection

structure Edge where
  id : EdgeId
  connection : Connection
  deriving DecidableEq, Repr

namespace Edge

def src (edge : Edge) : Endpoint := edge.connection.src

def dst (edge : Edge) : Endpoint := edge.connection.dst

def rearrange (edge : Edge) : List Rearrangement := edge.connection.rearrange

def isIdentity (edge : Edge) : Bool := edge.connection.isIdentity

def volume (edge : Edge) : Nat := edge.src.window.volume

def sameConnection (left right : Edge) : Bool :=
  decide (left.connection = right.connection)

def text (edge : Edge) : String :=
  let side := fun (point : Endpoint) =>
    point.task.text ++ "." ++ toString point.port ++ " " ++ point.window.text
  edge.id.text ++ ": " ++ side edge.src ++ " -> " ++ side edge.dst

instance : ToString Edge := ⟨text⟩

end Edge

/-! Graphs and their changes. -/

structure TaskGraph where
  blocks : TaskMap Block
  edges : EdgeMap Edge
  ids : IdSource
  /-- The exclusive operands of each computation, as last determined. -/
  recorded : TaskMap TaskSet

/-- A change of a graph that may fail; the graph left behind is kept either way. -/
abbrev GraphAction := EStateM GraphError TaskGraph

namespace GraphAction

def ofExcept : Except GraphError α → GraphAction α
  | .ok value => pure value
  | .error error => throw error

end GraphAction

namespace TaskGraph

def empty (first : Nat) : TaskGraph := ⟨∅, ∅, ⟨first⟩, ∅⟩

def taskIds (graph : TaskGraph) : List TaskId := graph.blocks.keys

def edgeIds (graph : TaskGraph) : List EdgeId := graph.edges.keys

def block? (graph : TaskGraph) (task : TaskId) : Option Block := graph.blocks[task]?

def edge? (graph : TaskGraph) (edge : EdgeId) : Option Edge := graph.edges[edge]?

def hasBlock (graph : TaskGraph) (task : TaskId) : Bool := graph.blocks.contains task

def block (graph : TaskGraph) (task : TaskId) : Except GraphError Block :=
  match graph.block? task with
  | some block => .ok block
  | none => .error (.unknownTask task)

def edge (graph : TaskGraph) (id : EdgeId) : Except GraphError Edge :=
  match graph.edge? id with
  | some edge => .ok edge
  | none => .error (.unknownEdge id)

def isComputation (graph : TaskGraph) (task : TaskId) : Bool :=
  (graph.block? task).any (·.isComputation)

def isStorage (graph : TaskGraph) (task : TaskId) : Bool :=
  (graph.block? task).any (!·.isComputation)

/-! Neighbours -/

def edgesAt (graph : TaskGraph) (port : Port) : List Edge :=
  port.edges.filterMap graph.edge?

def inputEdges (graph : TaskGraph) (task : TaskId) : List Edge :=
  match graph.block? task with
  | some block => block.inputEdges.filterMap graph.edge?
  | none => []

def outputEdges (graph : TaskGraph) (task : TaskId) : List Edge :=
  match graph.block? task with
  | some block => block.outputEdges.filterMap graph.edge?
  | none => []

def producers (graph : TaskGraph) (task : TaskId) : TaskSet :=
  .ofList ((graph.inputEdges task).map (·.src.task))

def consumers (graph : TaskGraph) (task : TaskId) : TaskSet :=
  .ofList ((graph.outputEdges task).map (·.dst.task))

/-- Bytes that an edge carries, at the precision of its producer. -/
def edgeBytes (graph : TaskGraph) (id : EdgeId) : Except GraphError Nat := do
  let edge ← graph.edge id
  let producer ← graph.block edge.src.task
  return producer.precision.bytesFor edge.volume

/-- Bytes that a storage block takes in a memory bank. -/
def footprint? (graph : TaskGraph) (task : TaskId) (alignment : Nat) : Option Nat :=
  ((graph.block? task).bind (·.storage?)).map fun storage =>
    storageBytes storage.shape storage.precision alignment

/-! Operands -/

/-- Enter a storage block that has a single consumer under that consumer. -/
def enter (graph : TaskGraph) (groups : TaskMap TaskSet) (task : TaskId) : TaskMap TaskSet :=
  match (graph.consumers task).toList with
  | [owner] => groups.modify owner (·.insert task)
  | _ => groups

/-- The graph with the operands of its computations determined anew. -/
def regrouped (graph : TaskGraph) : TaskGraph :=
  let computations := graph.taskIds.filter graph.isComputation
  let bare : TaskMap TaskSet := .ofList (computations.map fun task => (task, ∅))
  { graph with recorded := (graph.taskIds.filter graph.isStorage).foldl graph.enter bare }

def regroup : GraphAction Unit := modify regrouped

/-- Regroup after an action, also when the action fails. -/
def regroupAfter (action : GraphAction α) : GraphAction α := fun graph =>
  match action graph with
  | .ok value left => .ok value left.regrouped
  | .error error left => .error error left.regrouped

def group? (graph : TaskGraph) (task : TaskId) : Option (List TaskId) :=
  graph.recorded[task]?.map (·.toList)

def groups (graph : TaskGraph) : List (TaskId × List TaskId) :=
  graph.recorded.toList.map fun entry => (entry.1, entry.2.toList)

def owner? (graph : TaskGraph) (task : TaskId) : Option TaskId :=
  (graph.groups.find? fun entry => decide (task ∈ entry.2)).map (·.1)

/-! Blocks -/

def reseeded (graph : TaskGraph) : TaskGraph :=
  let blockIds := graph.taskIds.map TaskId.raw
  let edgeIds := graph.edgeIds.map EdgeId.raw
  { graph with ids := (blockIds ++ edgeIds).foldl IdSource.observe ⟨0⟩ }

def reseed : GraphAction Unit := modify reseeded

def takeTaskId : GraphAction TaskId :=
  modifyGet fun graph =>
    let (task, ids) := graph.ids.task
    (task, { graph with ids })

def usesId (graph : TaskGraph) (raw : Nat) : Bool :=
  graph.hasBlock ⟨raw⟩ || graph.edges.contains ⟨raw⟩

/-- Insert a block made elsewhere; it must have no edges. -/
def insertBlockDeferred (block : Block) : GraphAction Unit := do
  let graph ← get
  if graph.usesId block.id.raw then
    throw (.duplicateId block.id.raw .inUse)
  if block.edgeIds ≠ [] then
    throw (.unsupportedBlock block.id .connected)
  set { graph with
    blocks := graph.blocks.insert block.id block
    ids := graph.ids.observe block.id.raw }

def insertBlock (block : Block) : GraphAction Unit := do
  insertBlockDeferred block
  regroup

def addStorage (storage : Storage) : GraphAction TaskId := do
  let task ← takeTaskId
  insertBlock (← GraphAction.ofExcept (Block.ofStorage task storage))
  return task

def addComputation (computation : Computation) : GraphAction TaskId := do
  let task ← takeTaskId
  insertBlock (← GraphAction.ofExcept (Block.ofComputation task computation))
  return task

/-! Edges -/

/-- Drop an edge and its mention by both end blocks; unknown edges are left alone. -/
def withoutEdge (graph : TaskGraph) (id : EdgeId) : TaskGraph :=
  match graph.edge? id with
  | none => graph
  | some edge =>
      { graph with
        edges := graph.edges.erase id
        blocks := (graph.blocks.modify edge.src.task (·.detach id)).modify
          edge.dst.task (·.detach id) }

/-- Remove a block with every edge attached to it. -/
def removeBlockDeferred (task : TaskId) : GraphAction Block := do
  let graph ← get
  let attached := (← GraphAction.ofExcept (graph.block task)).edgeIds
  let detached := attached.foldl withoutEdge graph
  set detached
  let block ← GraphAction.ofExcept (detached.block task)
  set { detached with blocks := detached.blocks.erase task }
  return block

def removeBlock (task : TaskId) : GraphAction Block := do
  let block ← removeBlockDeferred task
  regroup
  return block

def removeEdge (id : EdgeId) : GraphAction Edge := do
  let graph ← get
  let edge ← GraphAction.ofExcept (graph.edge id)
  set (graph.withoutEdge id)
  regroup
  return edge

/-- The first rule, if any, that the windows of a connection between the given ports break. -/
def windowFault? (connection : Connection) (sent received : Shape) : Option GraphError :=
  let src := connection.src
  let dst := connection.dst
  if !src.window.within sent then
    some (.shape src.task (.sourceOutside src.window sent))
  else if !dst.window.within received then
    some (.shape dst.task (.destinationOutside dst.window received))
  else if connection.isIdentity then
    if src.window.size.agreesWith dst.window.size &&
        decide (src.window.volume = dst.window.volume) then
      none
    else
      some (.shape dst.task (.sizesDiffer src.window.size src.task dst.window.size))
  else if src.window.volume = dst.window.volume then
    none
  else
    some (.shape dst.task (.volumesDiffer src.window.volume dst.window.volume))

def checkConnection (graph : TaskGraph) (connection : Connection) : Except GraphError Unit := do
  let src := connection.src
  let dst := connection.dst
  if src.task = dst.task then
    throw (.shape src.task .selfFeed)
  let sent ← (← graph.block src.task).output src.port
  let received ← (← graph.block dst.task).input dst.port
  match windowFault? connection sent.shape received.shape with
  | some error => throw error
  | none => return ()

/-- Insert an edge and list it at both of its ports. -/
def withEdge (graph : TaskGraph) (id : EdgeId) (connection : Connection) : TaskGraph :=
  let src := connection.src
  let dst := connection.dst
  { graph with
    edges := graph.edges.insert id ⟨id, connection⟩
    blocks := (graph.blocks.modify src.task (·.attachOutput src.port id)).modify
      dst.task (·.attachInput dst.port id) }

/-- Connect two ports. Data that arrives as sent needs windows of one size, data that is
rearranged only windows of one volume. -/
def connectDeferred (connection : Connection) : GraphAction EdgeId := do
  let graph ← get
  GraphAction.ofExcept (graph.checkConnection connection)
  let (id, ids) := graph.ids.edge
  set ({ graph with ids }.withEdge id connection)
  return id

def connect (connection : Connection) : GraphAction EdgeId := do
  let id ← connectDeferred connection
  regroup
  return id

/-- Connect the first output of `src` to the whole of an input of `dst`. -/
def connectWhole (src dst : TaskId) (port : Nat) : GraphAction EdgeId := do
  let graph ← get
  let sent ← GraphAction.ofExcept do (← graph.block src).output 0
  let received ← GraphAction.ofExcept do (← graph.block dst).input port
  connect {
    src := ⟨src, 0, .full sent.shape⟩
    dst := ⟨dst, port, .full received.shape⟩
    rearrange := [] }

end TaskGraph

end TiledPlacement
