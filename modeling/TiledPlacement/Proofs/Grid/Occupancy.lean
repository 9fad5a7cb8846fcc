import TiledPlacement.Grid
import TiledPlacement.Proofs.Hardware.Order

/-!
The grid as a map from places to points: what a coordinate names, and what the changes of a grid do
to such a map. Columns are told apart by their coordinates here, not by their numbers.
-/

namespace TiledPlacement

/-- A column by its coordinate, and a step and phase of it. -/
structure Site where
  column : Coordinate
  step : Nat
  phase : Nat
  deriving DecidableEq

def Site.place (site : Site) : Coordinate :=
  ⟨site.column.levels ++ [.scalar site.step, .scalar site.phase]⟩

/-- What a coordinate within the hierarchy names. -/
inductive Reference
  | column (column : Coordinate)
  | step (column : Coordinate) (step : Nat)
  | point (site : Site)
  | unit (site : Site) (unit : FunctionalUnit)
  deriving DecidableEq

namespace Reference

/-- Whether a point lies in what is named, or has in it the unit that is named. -/
def Includes (reference : Reference) (site : Site) : Prop :=
  match reference with
  | .column named => site.column = named
  | .step named number => site.column = named ∧ site.step = number
  | .point named => site = named
  | .unit named _ => site = named

/-- Whether a unit lies in what is named. -/
def Covers (reference : Reference) (site : Site) (unit : FunctionalUnit) : Prop :=
  match reference with
  | .unit named only => site = named ∧ unit = only
  | region => region.Includes site

/-- The site of a point, or of the point of a unit. -/
def site? : Reference → Option Site
  | .point site => some site
  | .unit site _ => some site
  | _ => none

end Reference

namespace Hardware

variable (hardware : Hardware)

def HasSite (site : Site) : Prop :=
  hardware.IsColumn site.column ∧ site.step < hardware.steps ∧ site.phase < hardware.phases

instance (site : Site) : Decidable (hardware.HasSite site) :=
  inferInstanceAs (Decidable (_ ∧ _))

/-- A time level is read by its first component. -/
def timeAt? (bound : Nat) (position : Position) : Option Nat :=
  (position.get? 0).filter (· < bound)

/-- What the levels after those of a column name in it. -/
def within? (column : Coordinate) : List Position → Option Reference
  | [] => some (.column column)
  | [step] => do
      let step ← timeAt? hardware.steps step
      return .step column step
  | [step, phase] => do
      let step ← timeAt? hardware.steps step
      let phase ← timeAt? hardware.phases phase
      return .point ⟨column, step, phase⟩
  | [step, phase, unit] => do
      let step ← timeAt? hardware.steps step
      let phase ← timeAt? hardware.phases phase
      let unit ← (unit.get? 0).bind FunctionalUnit.ofIndex?
      return .unit ⟨column, step, phase⟩ unit
  | _ => none

def reference? (place : Coordinate) : Option Reference :=
  if hardware.IsColumn (place.take hardware.spaceDepth) then
    hardware.within? (place.take hardware.spaceDepth) (place.levels.drop hardware.spaceDepth)
  else
    none

/-- What a coordinate names, for reading. -/
def named (place : Coordinate) : Except GridError (Option Reference) :=
  if place.depth < hardware.spaceDepth then
    .error (.contract place (.tooShallow place.depth hardware.spaceDepth))
  else
    .ok (hardware.reference? place)

/-- What a coordinate names, for a change, which needs it to name something. -/
def namedForChange (place : Coordinate) : Except GridError Reference := do
  if hardware.fullDepth < place.depth then
    throw (.contract place (.tooDeep hardware.fullDepth))
  match ← hardware.named place with
  | some reference => return reference
  | none => throw (.notFound place)

/-- A reading fails where its coordinate is too shallow to be read, and elsewhere is about what the
coordinate names. -/
def Reading {α : Type} (place : Coordinate) (found : Except GridError α)
    (meaning : Option Reference → Except GridError α → Prop) : Prop :=
  match hardware.named place with
  | .error error => found = .error error
  | .ok reference => meaning reference found

end Hardware

namespace Grid

/-- A change of a grid. -/
inductive Command
  | addPoint (place : Coordinate) (point : Point)
  | removePoint (place : Coordinate)
  | addTask (place : Coordinate) (task : TaskId)
  /-- Take a task out of a unit, or what the unit holds if none is given. -/
  | take (place : Coordinate) (task : Option TaskId)

inductive Answer
  | done
  | point (point : Point)
  | task (task : Option TaskId)

namespace Command

def place : Command → Coordinate
  | .addPoint place _ => place
  | .removePoint place => place
  | .addTask place _ => place
  | .take place _ => place

def run : Command → GridAction Answer
  | .addPoint place point => do
      Grid.addPoint place point
      return .done
  | .removePoint place => do
      return .point (← Grid.removePoint place)
  | .addTask place task => do
      Grid.addTask place task
      return .done
  | .take place (some task) => do
      removeTask place task
      return .task (some task)
  | .take place none => do
      return .task (← removeFirst place)

end Command

def runAll : List Command → Grid → List (Except GridError Answer) × Grid
  | [], grid => ([], grid)
  | command :: rest, grid =>
      match command.run grid with
      | .ok answer next => (.ok answer :: (runAll rest next).1, (runAll rest next).2)
      | .error error next => (.error error :: (runAll rest next).1, (runAll rest next).2)

end Grid

/-- What stands at each place; nothing does outside the hierarchy. -/
abbrev Occupancy := Site → Option Point

namespace Occupancy

open Grid

def empty : Occupancy := fun _ => none

/-- An empty point everywhere except in disabled columns. -/
def functional (hardware : Hardware) : Occupancy := fun site =>
  if hardware.HasSite site ∧ site.column ∉ hardware.disabled then some {} else none

def put (occupancy : Occupancy) (site : Site) (point : Option Point) : Occupancy :=
  fun other => if other = site then point else occupancy other

/-- The point with a task put into one of its slots or into its set. -/
def filled (place : Coordinate) (unit : FunctionalUnit) (task : TaskId) (point : Point) :
    Except GridError Point :=
  if unit = .memory then
    if task ∈ point.memory then .error (.duplicateResident place task)
    else .ok { point with memory := point.memory.insert task }
  else
    match point.occupant? unit with
    | some occupant => .error (.occupied place unit occupant)
    | none => .ok (point.setSlot unit (some task))

/-- The task taken out of one of the slots or out of the set, and the point without it. If none is
asked for, that is what the slot has or the least task of the set. -/
def cleared (place : Coordinate) (unit : FunctionalUnit) (task : Option TaskId) (point : Point) :
    Except GridError (Option TaskId × Point) :=
  let present := if unit = .memory then point.memory.min? else point.occupant? unit
  let without (task : TaskId) : Point :=
    if unit = .memory then { point with memory := point.memory.erase task }
    else point.setSlot unit none
  match task with
  | none => .ok (present, present.elim point without)
  | some task =>
      if (if unit = .memory then task ∈ point.memory else present = some task) then
        .ok (some task, without task)
      else
        .error (.notResident task place)

def pointAt (occupancy : Occupancy) (place : Coordinate) (site : Site) : Except GridError Point :=
  match occupancy site with
  | some point => .ok point
  | none => .error (.notFound place)

/-- What a change does at a place that names something. -/
def change (occupancy : Occupancy) : Command → Reference →
    Except GridError (Answer × Occupancy)
  | .addPoint place point, .point site =>
      if (occupancy site).isSome then .error (.elementExists place)
      else .ok (.done, occupancy.put site (some point))
  | .addPoint place _, _ => .error (.contract place .onlyPointsAdded)
  | .removePoint place, .point site => do
      let point ← occupancy.pointAt place site
      return (.point point, occupancy.put site none)
  | .removePoint place, _ => .error (.contract place .onlyPointsRemoved)
  | .addTask place task, .unit site unit => do
      let point ← filled place unit task (← occupancy.pointAt place site)
      return (.done, occupancy.put site (some point))
  | .addTask place _, _ => .error (.contract place .unitRequired)
  | .take place task, .unit site unit => do
      let (task, point) ← cleared place unit task (← occupancy.pointAt place site)
      return (.task task, occupancy.put site (some point))
  | .take place _, _ => .error (.contract place .unitRequired)

/-- What a command answers and leaves; one that fails leaves everything as it was. -/
def perform (occupancy : Occupancy) (hardware : Hardware) (command : Command) :
    Except GridError (Answer × Occupancy) := do
  occupancy.change command (← hardware.namedForChange command.place)

def performAll (occupancy : Occupancy) (hardware : Hardware) :
    List Command → List (Except GridError Answer) × Occupancy
  | [] => ([], occupancy)
  | command :: rest =>
      match occupancy.perform hardware command with
      | .ok (answer, next) => (.ok answer :: (next.performAll hardware rest).1,
          (next.performAll hardware rest).2)
      | .error error => (.error error :: (occupancy.performAll hardware rest).1,
          (occupancy.performAll hardware rest).2)

/-! Reading -/

/-- Whether a task is in a unit of the point at a site. -/
def Has (occupancy : Occupancy) (site : Site) (unit : FunctionalUnit) (task : TaskId) : Prop :=
  ∃ point, occupancy site = some point ∧
    if unit = .memory then task ∈ point.memory else point.occupant? unit = some task

def HasPoint (occupancy : Occupancy) (region : Site → Prop) : Prop :=
  ∃ site, region site ∧ (occupancy site).isSome = true

/-- The points of some sites, in the order of their coordinates. -/
structure Lists (occupancy : Occupancy) (region : Site → Prop)
    (entries : List (Coordinate × Point)) : Prop where
  ascending : entries.Pairwise fun earlier later => earlier.1.compare later.1 = .lt
  mem_iff : ∀ place point, (place, point) ∈ entries ↔
    ∃ site, region site ∧ occupancy site = some point ∧ site.place = place

/-- All tasks by the coordinates of their units, and those of one unit in their own order. -/
structure ListsTasks (occupancy : Occupancy) (entries : List (Coordinate × TaskId)) : Prop where
  ascending : entries.Pairwise fun earlier later =>
    earlier.1.compare later.1 = .lt ∨ earlier.1 = later.1 ∧ compare earlier.2 later.2 = .lt
  mem_iff : ∀ place task, (place, task) ∈ entries ↔
    ∃ site unit, occupancy.Has site unit task ∧ site.place.push (.scalar unit.index) = place

/-- What a coordinate leads to if it names the reference. A region without points is nothing. -/
def Shows (occupancy : Occupancy) : Option Reference → Option Element → Prop
  | some (.point site), found => found = (occupancy site).map .point
  | some (.unit site unit), found => found = (occupancy site).map (.unit · unit)
  | some region, some (.region entries) => entries ≠ [] ∧ occupancy.Lists region.Includes entries
  | some region, none => occupancy.Lists region.Includes []
  | some _, some _ => False
  | none, found => found = none

/-- Whether what is named holds no task is asked only where a point is. -/
def Judges (occupancy : Occupancy) (place : Coordinate) (reference : Option Reference)
    (found : Except GridError Bool) : Prop :=
  match reference with
  | none => found = .error (.notFound place)
  | some reference =>
      (¬occupancy.HasPoint reference.Includes → found = .error (.notFound place)) ∧
        (occupancy.HasPoint reference.Includes → ∃ answer, found = .ok answer ∧
          (answer = true ↔
            ∀ site unit task, reference.Covers site unit → ¬occupancy.Has site unit task))

end Occupancy

end TiledPlacement
