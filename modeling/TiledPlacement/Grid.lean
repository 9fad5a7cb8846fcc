import TiledPlacement.Graph.Id
import TiledPlacement.Hardware.Basic
import TiledPlacement.Hardware.Coordinate

/-!
The space-time grid. It has one cell for each column, step and phase, and a cell holds a point or
nothing. A coordinate of the space levels names a column, with a step one step of that column, with
a phase a point, and with a unit one functional unit; a time level is read by its first component.
Cells are found by their place among all cells, which is a word. Beyond the last cell there is
nothing.
-/

namespace TiledPlacement

/-!
Occupancy of one core in one phase: a slot for one task in each running unit and a memory bank that
holds any number of them.
-/

structure Point where
  axon : Option TaskId := none
  soma1 : Option TaskId := none
  routerSend : Option TaskId := none
  routerReceive : Option TaskId := none
  soma2 : Option TaskId := none
  memory : TaskSet := ∅

namespace Point

def empty : Point := {}

def occupant? (point : Point) : FunctionalUnit → Option TaskId
  | .axon => point.axon
  | .soma1 => point.soma1
  | .routerSend => point.routerSend
  | .routerReceive => point.routerReceive
  | .soma2 => point.soma2
  | .memory => none

def setSlot (point : Point) (unit : FunctionalUnit) (occupant : Option TaskId) : Point :=
  match unit with
  | .axon => { point with axon := occupant }
  | .soma1 => { point with soma1 := occupant }
  | .routerSend => { point with routerSend := occupant }
  | .routerReceive => { point with routerReceive := occupant }
  | .soma2 => { point with soma2 := occupant }
  | .memory => point

theorem occupant?_setSlot (point : Point) (unit other : FunctionalUnit)
    (occupant : Option TaskId) :
    (point.setSlot unit occupant).occupant? other =
      if other = unit ∧ unit.isSlot = true then occupant else point.occupant? other := by
  cases unit <;> cases other <;> rfl

theorem memory_setSlot (point : Point) (unit : FunctionalUnit) (occupant : Option TaskId) :
    (point.setSlot unit occupant).memory = point.memory := by
  cases unit <;> rfl

def residentsOf (point : Point) (unit : FunctionalUnit) : List TaskId :=
  if unit.isSlot then (point.occupant? unit).toList else point.memory.toList

def holds (point : Point) (unit : FunctionalUnit) (task : TaskId) : Bool :=
  if unit.isSlot then decide (point.occupant? unit = some task) else point.memory.contains task

def isUnitEmpty (point : Point) (unit : FunctionalUnit) : Bool :=
  if unit.isSlot then (point.occupant? unit).isNone else point.memory.isEmpty

def isEmpty (point : Point) : Bool := FunctionalUnit.all.all point.isUnitEmpty

/-- Every resident with its unit, slots in pipeline order before the memory bank. -/
def residents (point : Point) : List (FunctionalUnit × TaskId) :=
  FunctionalUnit.all.flatMap fun unit => (point.residentsOf unit).map fun task => (unit, task)

def insert (point : Point) (unit : FunctionalUnit) (task : TaskId) : Except TaskId Point :=
  if unit.isSlot then
    match point.occupant? unit with
    | some occupant => .error occupant
    | none => .ok (point.setSlot unit (some task))
  else if point.memory.contains task then
    .error task
  else
    .ok { point with memory := point.memory.insert task }

def remove (point : Point) (unit : FunctionalUnit) (task : TaskId) : Except TaskId Point :=
  if !point.holds unit task then
    .error task
  else if unit.isSlot then
    .ok (point.setSlot unit none)
  else
    .ok { point with memory := point.memory.erase task }

/-- Take out whatever a unit holds, of a memory bank its least task. -/
def removeFirst (point : Point) (unit : FunctionalUnit) : Option TaskId × Point :=
  match (point.residentsOf unit).head? with
  | none => (none, point)
  | some task =>
      (some task,
        if unit.isSlot then point.setSlot unit none
        else { point with memory := point.memory.erase task })

end Point

/-! Grids, and how they are read and changed. -/

/-- Ways in which a coordinate cannot name what an operation needs. -/
inductive CoordinateFault
  | tooShallow (depth spaceDepth : Nat)
  | tooDeep (deepest : Nat)
  | unitRequired
  | onlyPointsAdded
  | onlyPointsRemoved
  | timeRequired
  | fullDepthRequired (fullDepth : Nat)
  deriving DecidableEq, Repr

def CoordinateFault.text : CoordinateFault → String
  | .tooShallow depth spaceDepth =>
      s!"coordinate has {depth} level(s), space needs {spaceDepth}"
  | .tooDeep deepest => s!"coordinate deeper than the {deepest} level hierarchy"
  | .unitRequired => "a PI index is required"
  | .onlyPointsAdded => "only points can be added"
  | .onlyPointsRemoved => "only points can be removed"
  | .timeRequired => "a step and phase are required"
  | .fullDepthRequired fullDepth => s!"placement needs all {fullDepth} levels"

inductive GridError
  | contract (place : Coordinate) (fault : CoordinateFault)
  | notFound (place : Coordinate)
  | elementExists (place : Coordinate)
  | occupied (place : Coordinate) (unit : FunctionalUnit) (occupant : TaskId)
  | duplicateResident (place : Coordinate) (task : TaskId)
  | notResident (task : TaskId) (place : Coordinate)
  deriving DecidableEq, Repr

def GridError.message : GridError → String
  | .contract place fault => s!"Contract violation at {place}: " ++ fault.text
  | .notFound place => s!"No element at {place}"
  | .elementExists place => s!"Element already present at {place}"
  | .occupied place unit occupant => s!"{unit} at {place} is occupied by {occupant}"
  | .duplicateResident place task =>
      s!"{task} is already resident in the memory bank at {place}"
  | .notResident task place => s!"{task} is not resident at {place}"

/-- A cell by its place among all cells. -/
structure Cell where
  place : Nat
  deriving DecidableEq, Repr

namespace Hardware

/-- How many cells a grid of the accelerator has. -/
def cellCount (hardware : Hardware) : Nat :=
  word (hardware.columnCount * hardware.pointsPerColumn)

/-- The cell for a step and phase of a column. -/
def cell (hardware : Hardware) (column step phase : Nat) : Cell :=
  ⟨word ((column * hardware.steps + step) * hardware.phases + phase)⟩

/-- Where the cells of a column start, and those of the column before it end. -/
def columnStart (hardware : Hardware) (column : Nat) : Nat :=
  word (column * hardware.pointsPerColumn)

/-- Where the cells of a step of a column start. -/
def stepStart (hardware : Hardware) (column step : Nat) : Nat :=
  word (column * hardware.pointsPerColumn + step * hardware.phases)

end Hardware

/-- What a coordinate within the hierarchy names. -/
inductive Address
  | column (column : Nat)
  | step (column step : Nat)
  | point (cell : Cell)
  | unit (cell : Cell) (unit : FunctionalUnit)
  deriving DecidableEq, Repr

/-- What a coordinate leads to. -/
inductive Element
  | region (points : List (Coordinate × Point))
  | point (point : Point)
  | unit (point : Point) (unit : FunctionalUnit)

def Element.isEmpty : Element → Bool
  | .region points => points.all fun entry => entry.2.isEmpty
  | .point found => found.isEmpty
  | .unit found slot => found.isUnitEmpty slot

structure Grid where
  hardware : Hardware
  cells : Array (Option Point)
  routes : EdgeMap (List Coordinate)
  size_cells : cells.size = hardware.cellCount

abbrev GridAction := EStateM GridError Grid

namespace Grid

def empty (hardware : Hardware) : Grid where
  hardware
  cells := Array.replicate hardware.cellCount none
  routes := ∅
  size_cells := Array.size_replicate

def spaceDepth (grid : Grid) : Nat := grid.hardware.spaceDepth

def pointAt? (grid : Grid) (cell : Cell) : Option Point :=
  (grid.cells[cell.place]?).join

def setCell (grid : Grid) (cell : Cell) (point : Option Point) : Grid where
  hardware := grid.hardware
  cells := grid.cells.setIfInBounds cell.place point
  routes := grid.routes
  size_cells := Array.size_setIfInBounds.trans grid.size_cells

/-- Put empty points into the cells from `start` on and before `stop`. There is no such range if it
ends before it starts or beyond the last cell. -/
def fillRange? (grid : Grid) (start stop : Nat) : Option Grid :=
  if start ≤ stop ∧ stop ≤ grid.cells.size then
    some ((List.range' start (stop - start)).foldl
      (fun grid place => grid.setCell ⟨place⟩ (some .empty)) grid)
  else
    none

/-- Put empty points into the columns of the next `left` numbers from `index` on, except for those
that are disabled. Columns are counted on the way, and `number` of them have gone by. -/
def fillColumns? : Nat → Nat → Nat → Grid → Option Grid
  | 0, _, _, grid => some grid
  | left + 1, index, number, grid =>
      match grid.hardware.column? index with
      | none => fillColumns? left (index + 1) number grid
      | some column =>
          if grid.hardware.isDisabled column then
            fillColumns? left (index + 1) (number + 1) grid
          else do
            let filled ← grid.fillRange? (grid.hardware.columnStart number)
              (grid.hardware.columnStart (number + 1))
            fillColumns? left (index + 1) (number + 1) filled

/-- The grid of an accelerator, with empty points except in disabled columns. There is none if the
cells of some column are not cells of the grid. -/
def ofHardware? (hardware : Hardware) : Option Grid :=
  fillColumns? hardware.columnCount 0 0 (empty hardware)

/-- The grid of an accelerator, left without points if it cannot be filled. -/
def ofHardware (hardware : Hardware) : Grid := (ofHardware? hardware).getD (empty hardware)

/-- What a coordinate names; none if it lies outside the hierarchy. -/
def resolve (grid : Grid) (coordinate : Coordinate) : Except GridError (Option Address) :=
  let spaceDepth := grid.spaceDepth
  let depth := coordinate.depth
  if depth < spaceDepth then
    .error (.contract coordinate (.tooShallow depth spaceDepth))
  else if grid.hardware.fullDepth < depth then
    .ok none
  else .ok do
    let column ← grid.hardware.columnIndex? coordinate
    if depth = spaceDepth then
      return .column column
    let step ← coordinate.step? spaceDepth
    guard (step < grid.hardware.steps)
    if depth = spaceDepth + 1 then
      return .step column step
    let phase ← coordinate.phase? spaceDepth
    guard (phase < grid.hardware.phases)
    if depth = spaceDepth + 2 then
      return .point (grid.hardware.cell column step phase)
    let unit ← coordinate.unit? spaceDepth
    return .unit (grid.hardware.cell column step phase) unit

/-- Changes need a coordinate that is not deeper than the hierarchy. -/
def resolveForChange (grid : Grid) (coordinate : Coordinate) :
    Except GridError (Option Address) :=
  if grid.hardware.fullDepth < coordinate.depth then
    .error (.contract coordinate (.tooDeep grid.hardware.fullDepth))
  else
    grid.resolve coordinate

def resolveUnit (grid : Grid) (coordinate : Coordinate) :
    Except GridError (Cell × FunctionalUnit) := do
  match ← grid.resolveForChange coordinate with
  | some (.unit cell unit) => return (cell, unit)
  | some _ => throw (.contract coordinate .unitRequired)
  | none => throw (.notFound coordinate)

/-! Reading -/

def coordinateAt (grid : Grid) (index : Nat) : Coordinate :=
  let perColumn := grid.hardware.pointsPerColumn
  let within := index % perColumn
  ⟨Hardware.positionsAt grid.hardware.levels (index / perColumn) ++
    [.scalar (within / grid.hardware.phases), .scalar (within % grid.hardware.phases)]⟩

/-- The points in the cells from `start` on and before `stop`, with their coordinates. -/
def region (grid : Grid) (start stop : Nat) : List (Coordinate × Point) :=
  (List.range' start (stop - start)).filterMap fun index =>
    (grid.cells[index]?).join.map fun point => (grid.coordinateAt index, point)

def points (grid : Grid) : List (Coordinate × Point) := grid.region 0 grid.cells.size

def pointCount (grid : Grid) : Nat := grid.points.length

/-- Every resident task of some points, with its full coordinate. -/
def residentsOf (points : List (Coordinate × Point)) : List (Coordinate × TaskId) :=
  points.flatMap fun (coordinate, point) =>
    point.residents.map fun (unit, task) => (coordinate.push (.scalar unit.index), task)

def residents (grid : Grid) : List (Coordinate × TaskId) := residentsOf grid.points

/-- A region is nothing when it has no point. -/
def nonempty (points : List (Coordinate × Point)) : Option Element :=
  if points.isEmpty then none else some (.region points)

/-- What a coordinate leads to; nothing if it lies outside the hierarchy or no point is there. -/
def element? (grid : Grid) (coordinate : Coordinate) : Except GridError (Option Element) :=
  let hardware := grid.hardware
  (grid.resolve coordinate).map fun
    | none => none
    | some (.column column) =>
        nonempty (grid.region (hardware.columnStart column) (hardware.columnStart (column + 1)))
    | some (.step column step) =>
        let start := hardware.stepStart column step
        nonempty (grid.region start (word (start + hardware.phases)))
    | some (.point cell) => (grid.pointAt? cell).map .point
    | some (.unit cell unit) => (grid.pointAt? cell).map fun point => .unit point unit

def column? (grid : Grid) (coordinate : Coordinate) :
    Except GridError (Option (List (Coordinate × Point))) :=
  (grid.element? (coordinate.take grid.spaceDepth)).map fun
    | some (.region points) => some points
    | _ => none

def point? (grid : Grid) (coordinate : Coordinate) : Except GridError (Option Point) :=
  if coordinate.depth < grid.spaceDepth + 2 then
    .error (.contract coordinate .timeRequired)
  else
    (grid.resolve (coordinate.take (grid.spaceDepth + 2))).map fun
      | some (.point cell) => grid.pointAt? cell
      | _ => none

def isEmpty (grid : Grid) (coordinate : Coordinate) : Except GridError Bool := do
  match ← grid.element? coordinate with
  | some element => return element.isEmpty
  | none => throw (.notFound coordinate)

/-! Changing -/

def ofExcept : Except GridError α → GridAction α
  | .ok value => pure value
  | .error error => throw error

def addPoint (coordinate : Coordinate) (point : Point) : GridAction Unit := do
  let grid ← get
  match ← ofExcept (grid.resolveForChange coordinate) with
  | some (.point cell) =>
      if (grid.pointAt? cell).isSome then
        throw (.elementExists coordinate)
      set (grid.setCell cell (some point))
  | some _ => throw (.contract coordinate .onlyPointsAdded)
  | none => throw (.notFound coordinate)

def removePoint (coordinate : Coordinate) : GridAction Point := do
  let grid ← get
  match ← ofExcept (grid.resolveForChange coordinate) with
  | some (.point cell) =>
      match grid.pointAt? cell with
      | some point =>
          set (grid.setCell cell none)
          return point
      | none => throw (.notFound coordinate)
  | some _ => throw (.contract coordinate .onlyPointsRemoved)
  | none => throw (.notFound coordinate)

/-- The point and the unit at a full coordinate, with the point's cell. -/
def locate (coordinate : Coordinate) : GridAction (Cell × FunctionalUnit × Point) := do
  let grid ← get
  let (cell, unit) ← ofExcept (grid.resolveUnit coordinate)
  match grid.pointAt? cell with
  | some point => return (cell, unit, point)
  | none => throw (.notFound coordinate)

def addTask (coordinate : Coordinate) (task : TaskId) : GridAction Unit := do
  let (cell, unit, point) ← locate coordinate
  match point.insert unit task with
  | .ok point => modify (·.setCell cell (some point))
  | .error occupant =>
      if unit.isSlot then throw (.occupied coordinate unit occupant)
      else throw (.duplicateResident coordinate task)

def removeTask (coordinate : Coordinate) (task : TaskId) : GridAction Unit := do
  let (cell, unit, point) ← locate coordinate
  match point.remove unit task with
  | .ok point => modify (·.setCell cell (some point))
  | .error task => throw (.notResident task coordinate)

/-- Take out whatever the unit at a full coordinate holds, of a memory bank its least task. -/
def removeFirst (coordinate : Coordinate) : GridAction (Option TaskId) := do
  let (cell, unit, point) ← locate coordinate
  let (task, point) := point.removeFirst unit
  modify (·.setCell cell (some point))
  return task

/-! Routes -/

def recordRoute (grid : Grid) (edge : EdgeId) (path : List Coordinate) : Grid :=
  { grid with routes := grid.routes.insert edge path }

def dropRoute (grid : Grid) (edge : EdgeId) : Grid :=
  { grid with routes := grid.routes.erase edge }

end Grid

end TiledPlacement
