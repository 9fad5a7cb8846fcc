import TiledPlacement.Placement.Basic
import TiledPlacement.Split.Plan

/-!
Commands on more than one task: on routes, on a computation and its operands, on whole columns, and
changes of the graph under a placement.
-/

namespace TiledPlacement

/-!
Routes of edges. Grid and whereabouts record the same routes; a route of an edge whose ends are
both placed joins their columns.
-/

namespace Placement

def recordRoute (placement : Placement) (edge : EdgeId) (path : List Coordinate) : Placement :=
  { placement with
    grid := placement.grid.recordRoute edge path
    whereabouts := { placement.whereabouts with
      routes := placement.whereabouts.routes.insert edge path } }

def dropRoute (placement : Placement) (edge : EdgeId) : Placement :=
  { placement with
    grid := placement.grid.dropRoute edge
    whereabouts := { placement.whereabouts with
      routes := placement.whereabouts.routes.erase edge } }

def dropRoutes (placement : Placement) (stale : EdgeId → Bool) : Placement :=
  (placement.grid.routes.keys.filter stale).foldl dropRoute placement

/-- Drop the routes of edges that meet one of the tasks or have left the graph. -/
def dropRoutesOf (placement : Placement) (tasks : List TaskId) : Placement :=
  placement.dropRoutes fun id =>
    match placement.graph.edge? id with
    | some edge => decide (edge.src.task ∈ tasks) || decide (edge.dst.task ∈ tasks)
    | none => true

def dropStaleRoutes (placement : Placement) : Placement :=
  placement.dropRoutes fun id => (placement.graph.edge? id).isNone

def columnOf? (placement : Placement) (task : TaskId) : Option Coordinate :=
  (placement.coordinate? task).map (·.take placement.spaceDepth)

/-- Why a path cannot be the route of an edge, if it cannot. -/
def routeFault? (placement : Placement) (edge : Edge) (path : List Coordinate) :
    Option RouteFault :=
  if path.isEmpty then
    some .emptyPath
  else
    match Route.check placement.hardware path with
    | .error fault => some (.path fault)
    | .ok () =>
        match placement.columnOf? edge.src.task, placement.columnOf? edge.dst.task with
        | some source, some target =>
            if path.head? = some source ∧ path.getLast? = some target then none
            else some (.notJoined source target)
        | _, _ => none

/-- Record a chain of neighbouring columns as the route of an edge. -/
def mapEdge (id : EdgeId) (path : List Coordinate) : PlacementAction Unit := do
  let placement ← get
  let edge ← ofGraph (placement.graph.edge id)
  match placement.routeFault? edge path with
  | some fault => throw (.route id fault)
  | none => set (placement.recordRoute id path)

def routeEdge (id : EdgeId) : PlacementAction (List Coordinate) := do
  let placement ← get
  let edge ← ofGraph (placement.graph.edge id)
  match placement.coordinate? edge.src.task, placement.coordinate? edge.dst.task with
  | none, _ => throw (.notPlaced edge.src.task)
  | some _, none => throw (.notPlaced edge.dst.task)
  | some source, some target =>
      match Route.between? placement.hardware source target with
      | none => throw (.route id .endpointOutside)
      | some path =>
          mapEdge id path
          return path

/-- Route every edge whose ends are both placed; returns how many there are. -/
def routePlacedEdges : PlacementAction Nat := do
  let placement ← get
  let ready := placement.graph.edges.values.filter fun edge =>
    placement.isPlaced edge.src.task && placement.isPlaced edge.dst.task
  ready.forM fun edge => discard (routeEdge edge.id)
  return ready.length

/-!
Commands on a computation together with the storage blocks that only it reads. They share its
point: the operands lie in the memory bank.
-/

def operands (placement : Placement) (task : TaskId) : Except PlacementError (List TaskId) :=
  match placement.graph.block task with
  | .error error => .error (.graph error)
  | .ok block =>
      if block.isComputation then .ok ((placement.graph.group? task).getD [])
      else .error (.notComputation task)

def memoryAt (placement : Placement) (place : Coordinate) : Coordinate :=
  place.withUnit placement.spaceDepth .memory

/-- Place a computation and, in the memory bank of its point, its operands. -/
def putGroupIn (place : Coordinate) (task : TaskId) : PlacementAction Unit := do
  let placement ← get
  let operands ← ofExcept (placement.operands task)
  putIn place task
  operands.forM (putIn (placement.memoryAt place))

def takeOperandOut (operand : TaskId) : PlacementAction Unit := do
  match (← get).coordinate? operand with
  | some place => takeOut place operand
  | none => return ()

/-- Take away a computation and those of its operands that are placed. -/
def takeGroupOut (place : Coordinate) (task : TaskId) : PlacementAction Unit := do
  let operands ← ofExcept ((← get).operands task)
  takeOut place task
  operands.forM takeOperandOut

/-- Bring an operand to a memory bank from wherever it is. -/
def bringOperand (memory : Coordinate) (operand : TaskId) : PlacementAction Unit := do
  if (← get).coordinate? operand ≠ some memory then
    takeOperandOut operand
    putIn memory operand

/-- Move a computation and bring its operands to the memory bank of its new point. -/
def moveGroup (task : TaskId) (target : Coordinate) : PlacementAction Unit := do
  let placement ← get
  let operands ← ofExcept (placement.operands task)
  moveTask task target
  operands.forM (bringOperand (placement.memoryAt target))

/-!
Commands on whole columns. The routes of all edges that meet a displaced task are dropped.
-/

def columnResidents (placement : Placement) (column : Coordinate) :
    Except GridError (List (Coordinate × TaskId)) :=
  (placement.grid.column? column).map fun points => Grid.residentsOf (points.getD [])

/-- Move one resident to the same unit, step and phase of column `target`; `moved` lists the tasks
moved before it. A task that clashes there is put back. -/
def mergeResident (target : Coordinate) (moved : List TaskId)
    (resident : Coordinate × TaskId) : PlacementAction (List TaskId) := do
  let (source, task) := resident
  let spaceDepth := (← get).spaceDepth
  takeOut source task
  try putIn (source.relocated spaceDepth target) task
  catch error =>
    putIn source task
    modify (·.dropRoutesOf moved)
    throw error
  return moved ++ [task]

def mergeInto (target : Coordinate) (moved : List TaskId) (column : Coordinate) :
    PlacementAction (List TaskId) := do
  let placement ← get
  let source := column.take placement.spaceDepth
  if source = target then
    return moved
  (← ofGrid (placement.columnResidents source)).foldlM (mergeResident target) moved

/-- Move the residents of the later columns into the first; returns how many tasks moved. -/
def mergeColumn : List Coordinate → PlacementAction Nat
  | [] => return 0
  | first :: sources => do
      let placement ← get
      let target := first.take placement.spaceDepth
      match ← ofGrid (placement.grid.column? target) with
      | none => throw (.grid (.notFound target))
      | some _ =>
          let moved ← sources.foldlM (mergeInto target) []
          modify (·.dropRoutesOf moved)
          return moved.length

def deleteColumn (place : Coordinate) : PlacementAction (List (Coordinate × TaskId)) := do
  let placement ← get
  let column := place.take placement.spaceDepth
  match ← ofGrid (placement.grid.column? column) with
  | none => throw (.grid (.notFound column))
  | some points =>
      let displaced := Grid.residentsOf points
      displaced.forM fun (place, task) => takeOut place task
      points.forM fun (place, _) => discard (changeGrid (Grid.removePoint place))
      modify (·.dropRoutesOf (displaced.map (·.2)))
      return displaced

/-!
Changes of the graph under a placement. What a split replaces leaves the placement, and what it
creates is not placed.
-/

/-- Take a task that has left the graph off the grid. -/
def evict (task : TaskId) : PlacementAction Unit := do
  let placement ← get
  match placement.graph.hasBlock task, placement.coordinate? task with
  | false, some place =>
      changeGrid (Grid.removeTask place task)
      modify (·.forget task)
  | _, _ => return ()

def splitTask (task : TaskId) (vector : SplitVector) : PlacementAction (List TaskId) := do
  let replaced := task :: ((← get).graph.group? task).getD []
  let created ← changeGraph (TaskGraph.split task vector)
  replaced.forM evict
  modify dropStaleRoutes
  return created

/-- Split several computations in the same way; earlier splits stay when a later one fails. -/
def splitGroup (tasks : List TaskId) (vector : SplitVector) : PlacementAction (List TaskId) :=
  tasks.foldlM (fun created task => return created ++ (← splitTask task vector)) []

def connect (connection : Connection) : PlacementAction EdgeId :=
  changeGraph (TaskGraph.connect connection)

end Placement

end TiledPlacement
