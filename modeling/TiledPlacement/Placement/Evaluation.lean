import TiledPlacement.Placement.Basic

/-!
What is read off a placement: the memory that its columns need, and whether its parts agree.
-/

namespace TiledPlacement

/-!
Memory that a column needs in each phase: every storage block in its memory bank and every storage
block next to a computation in one of its slots, each once.
-/

structure PhaseUsage where
  step : Nat
  phase : Nat
  bytes : Nat
  deriving DecidableEq, Repr

structure MemoryReport where
  column : Coordinate
  phases : List PhaseUsage
  capacity : Nat
  deriving DecidableEq, Repr

namespace MemoryReport

def largest : List PhaseUsage → Nat
  | [] => 0
  | usage :: rest => Nat.max usage.bytes (largest rest)

def peak (report : MemoryReport) : Nat := largest report.phases

def exceedsCapacity (report : MemoryReport) : Bool := decide (report.capacity < report.peak)

end MemoryReport

namespace Placement

/-- Storage blocks that exchange data with a computation. -/
def storageBeside (graph : TaskGraph) (task : TaskId) : List TaskId :=
  if graph.isComputation task then
    ((graph.producers task).toList ++ (graph.consumers task).toList).filter graph.isStorage
  else
    []

/-- Storage blocks that a point needs. -/
def neededAt (graph : TaskGraph) (point : Point) : TaskSet :=
  .ofList (point.memory.toList ++
    FunctionalUnit.pipeline.flatMap fun unit =>
      (point.residentsOf unit).flatMap (storageBeside graph))

/-- Bytes that some blocks take together, in a word. -/
def totalFootprint (graph : TaskGraph) (alignment : Nat) :
    List TaskId → Except Inconsistency Nat
  | [] => .ok 0
  | task :: rest =>
      match graph.footprint? task alignment with
      | none => .error (.notStorage task)
      | some bytes => (totalFootprint graph alignment rest).map fun others => word (bytes + others)

def phaseUsage (placement : Placement) (place : Coordinate) (point : Point) :
    Except Inconsistency PhaseUsage :=
  let spaceDepth := placement.spaceDepth
  (totalFootprint placement.graph placement.hardware.alignment
    (neededAt placement.graph point).toList).map fun bytes => {
      step := (place.step? spaceDepth).getD 0
      phase := (place.phase? spaceDepth).getD 0
      bytes }

def memoryReport (placement : Placement) (place : Coordinate) :
    Except PlacementError MemoryReport := do
  let column := place.take placement.spaceDepth
  match placement.grid.column? column with
  | .error error => throw (.grid error)
  | .ok none => throw (.grid (.notFound column))
  | .ok (some points) =>
      let usages := points.mapM fun (place, point) => placement.phaseUsage place point
      match usages with
      | .error fault => throw (.inconsistent fault)
      | .ok phases => return { column, phases, capacity := placement.hardware.memoryBytes }

/-- Columns that hold a task, in order. -/
def occupiedColumns (placement : Placement) : List Coordinate :=
  let occupied := placement.grid.points.filter fun entry => !entry.2.isEmpty
  (occupied.map fun entry => entry.1.take placement.spaceDepth).eraseDups

def memoryReports (placement : Placement) : Except PlacementError (List MemoryReport) :=
  placement.occupiedColumns.mapM placement.memoryReport

/-! Agreement of the grid, the whereabouts and the graph of a placement. -/

/-- How a resident of the grid contradicts the whereabouts or the graph, if it does. -/
def residentFault? (placement : Placement) (inGrid : Coordinate) (task : TaskId) :
    Option Inconsistency :=
  match placement.coordinate? task with
  | none => some (.unrecorded task inGrid)
  | some recorded =>
      if recorded ≠ inGrid then some (.elsewhere task inGrid recorded)
      else if !placement.graph.hasBlock task then some (.missingBlock task)
      else none

/-- As many routes on both sides, and each one of the whereabouts in the grid too. -/
def sameRoutes (placement : Placement) : Bool :=
  let inGrid := placement.grid.routes
  let recorded := placement.whereabouts.routes
  decide (inGrid.size = recorded.size) &&
    recorded.toList.all fun (edge, path) => decide (inGrid[edge]? = some path)

def inconsistency? (placement : Placement) : Option Inconsistency :=
  let residents := placement.grid.residents
  let recorded := placement.whereabouts.coordinates.size
  match residents.findSome? fun (place, task) => placement.residentFault? place task with
  | some fault => some fault
  | none =>
      if residents.length ≠ recorded then
        some (.counts residents.length recorded)
      else if !placement.sameRoutes then
        some .routesDiffer
      else
        none

/-- Grid and whereabouts hold the same tasks at the same places and the same routes, and every
placed task is in the graph. -/
def checkConsistency (placement : Placement) : Except PlacementError Unit :=
  match placement.inconsistency? with
  | some fault => .error (.inconsistent fault)
  | none => .ok ()

end Placement

end TiledPlacement
