import TiledPlacement.Graph.Basic
import TiledPlacement.Graph.Error
import TiledPlacement.Grid
import TiledPlacement.Hardware.Route

/-!
Placements of a task graph on a space-time grid. The grid says what is at a coordinate and the
whereabouts say where a task is; each command changes the grid first and the whereabouts second.
A command that fails keeps what it has changed so far.
-/

namespace TiledPlacement

/-!
What can go wrong when tasks are placed, routed, measured and run.
-/

inductive SlotFault
  | needsEngine (operation : Operation) (engine : Engine)
  | storageElsewhere
  | changesUnit (current : FunctionalUnit)
  deriving DecidableEq, Repr

def SlotFault.text : SlotFault → String
  | .needsEngine operation engine => s!"{operation} needs the {engine} engine"
  | .storageElsewhere => "storage lives in the memory bank or a router half"
  | .changesUnit current => s!"task occupies {current} and cannot change unit while moving"

inductive RouteFault
  | emptyPath
  | path (fault : PathFault)
  | notJoined (source target : Coordinate)
  | endpointOutside
  | alreadyQueued
  | noBandwidth (source target : Coordinate)
  deriving DecidableEq, Repr

def RouteFault.text : RouteFault → String
  | .emptyPath => "empty path"
  | .path fault => fault.text
  | .notJoined source target => s!"path does not join {source} to {target}"
  | .endpointOutside => "endpoint outside the hierarchy"
  | .alreadyQueued => "transfer already queued"
  | .noBandwidth source target => s!"no bandwidth between {source} and {target}"

inductive Inconsistency
  | elsewhere (task : TaskId) (inGrid recorded : Coordinate)
  | unrecorded (task : TaskId) (inGrid : Coordinate)
  | missingBlock (task : TaskId)
  | counts (inGrid recorded : Nat)
  | routesDiffer
  | notStorage (task : TaskId)
  deriving DecidableEq, Repr

def Inconsistency.text : Inconsistency → String
  | .elsewhere task inGrid recorded =>
      s!"{task} is at {inGrid} in the matrix but {recorded} in the context"
  | .unrecorded task inGrid => s!"{task} is at {inGrid} but has no context entry"
  | .missingBlock task => s!"{task} is placed but not in the graph"
  | .counts inGrid recorded => s!"matrix holds {inGrid} task(s), context {recorded}"
  | .routesDiffer => "edge routes differ"
  | .notStorage task => s!"{task} in a memory bank is not a storage block"

inductive PlacementError
  | grid (error : GridError)
  | graph (error : GraphError)
  | slotMismatch (task : TaskId) (unit : FunctionalUnit) (fault : SlotFault)
  | notPlaced (task : TaskId)
  | alreadyPlaced (task : TaskId) (place : Coordinate)
  | notComputation (task : TaskId)
  | inconsistent (fault : Inconsistency)
  | route (edge : EdgeId) (fault : RouteFault)
  /-- All `pending` activated tasks were tried in vain. -/
  | deadlock (pending : Nat)
  deriving DecidableEq, Repr

def PlacementError.message : PlacementError → String
  | .grid error => error.message
  | .graph error => error.message
  | .slotMismatch task unit fault => s!"{task} cannot occupy {unit}: " ++ fault.text
  | .notPlaced task => s!"{task} is not placed"
  | .alreadyPlaced task place => s!"{task} is already placed at {place}"
  | .notComputation task => s!"{task} is not a computation block"
  | .inconsistent fault => "Placement inconsistent: " ++ fault.text
  | .route edge fault => s!"Route for {edge} invalid: " ++ fault.text
  | .deadlock pending => s!"Scheduler deadlock: {pending} activated task(s) cannot proceed"

/-! Placements and the commands on single tasks. -/

/-- Where each placed task is and how each routed edge travels. -/
structure Whereabouts where
  coordinates : TaskMap Coordinate
  routes : EdgeMap (List Coordinate)

def Whereabouts.empty : Whereabouts := ⟨∅, ∅⟩

structure Placement where
  graph : TaskGraph
  grid : Grid
  whereabouts : Whereabouts

abbrev PlacementAction := EStateM PlacementError Placement

namespace Placement

/-- Nothing placed yet, on a grid that may already exist. -/
def onGrid (graph : TaskGraph) (grid : Grid) : Placement := ⟨graph, grid, .empty⟩

def onHardware (graph : TaskGraph) (hardware : Hardware) : Placement :=
  onGrid graph (.ofHardware hardware)

def hardware (placement : Placement) : Hardware := placement.grid.hardware

def spaceDepth (placement : Placement) : Nat := placement.grid.spaceDepth

def coordinate? (placement : Placement) (task : TaskId) : Option Coordinate :=
  placement.whereabouts.coordinates[task]?

def isPlaced (placement : Placement) (task : TaskId) : Bool :=
  placement.whereabouts.coordinates.contains task

def route? (placement : Placement) (edge : EdgeId) : Option (List Coordinate) :=
  placement.whereabouts.routes[edge]?

def ofExcept : Except PlacementError α → PlacementAction α
  | .ok value => pure value
  | .error error => throw error

def ofGraph (result : Except GraphError α) : PlacementAction α :=
  ofExcept (result.mapError .graph)

def ofGrid (result : Except GridError α) : PlacementAction α :=
  ofExcept (result.mapError .grid)

def changeGrid (action : GridAction α) : PlacementAction α := fun placement =>
  match action placement.grid with
  | .ok value grid => .ok value { placement with grid }
  | .error error grid => .error (.grid error) { placement with grid }

def changeGraph (action : GraphAction α) : PlacementAction α := fun placement =>
  match action placement.graph with
  | .ok value graph => .ok value { placement with graph }
  | .error error graph => .error (.graph error) { placement with graph }

def record (placement : Placement) (task : TaskId) (place : Coordinate) : Placement :=
  { placement with whereabouts :=
      { placement.whereabouts with
        coordinates := placement.whereabouts.coordinates.insert task place } }

def forget (placement : Placement) (task : TaskId) : Placement :=
  { placement with whereabouts :=
      { placement.whereabouts with
        coordinates := placement.whereabouts.coordinates.erase task } }

def slotFault? (block : Block) (unit : FunctionalUnit) : Option SlotFault :=
  match block.payload with
  | .computation computation =>
      if computation.operation.engine.accepts unit then none
      else some (.needsEngine computation.operation computation.operation.engine)
  | .storage _ =>
      if unit == .memory || unit.isRouter then none else some .storageElsewhere

def checkSlot (placement : Placement) (place : Coordinate) (task : TaskId) :
    Except PlacementError Unit := do
  let fullDepth := placement.hardware.fullDepth
  if place.depth ≠ fullDepth then
    throw (.grid (.contract place (.fullDepthRequired fullDepth)))
  match place.unit? placement.spaceDepth with
  | none => throw (.grid (.notFound place))
  | some unit =>
      match placement.graph.block task with
      | .error error => throw (.graph error)
      | .ok block =>
          match slotFault? block unit with
          | some fault => throw (.slotMismatch task unit fault)
          | none => return ()

def putIn (place : Coordinate) (task : TaskId) : PlacementAction Unit := do
  let placement ← get
  match placement.coordinate? task with
  | some current => throw (.alreadyPlaced task current)
  | none =>
      ofExcept (placement.checkSlot place task)
      changeGrid (Grid.addTask place task)
      modify (·.record task place)

def takeOut (place : Coordinate) (task : TaskId) : PlacementAction Unit := do
  match (← get).coordinate? task with
  | none => throw (.notPlaced task)
  | some current =>
      if current ≠ place then
        throw (.grid (.notResident task place))
      changeGrid (Grid.removeTask place task)
      modify (·.forget task)

/-- Move a task to the same unit elsewhere. If it cannot go there it is put back. -/
def moveTask (task : TaskId) (target : Coordinate) : PlacementAction Unit := do
  let placement ← get
  match placement.coordinate? task with
  | none => throw (.notPlaced task)
  | some source =>
      match source.unit? placement.spaceDepth, target.unit? placement.spaceDepth with
      | some current, some wanted =>
          if current ≠ wanted then
            throw (.slotMismatch task wanted (.changesUnit current))
          takeOut source task
          try putIn target task
          catch error =>
            putIn source task
            throw error
      | _, _ => throw (.grid (.contract target .unitRequired))

end Placement

end TiledPlacement
