import TiledPlacement.Demo
import TiledPlacement.Hardware.Document

/-!
The command line: which command the arguments name, and what running it prints.
-/

namespace TiledPlacement

/-!
Commands print lines and may fail. What a command has printed stays printed when it fails.
-/

inductive CommandError
  | loading (path : String) (cause : HardwareError)
  | placement (error : PlacementError)
  | noFunctionalCore (hardware : String)
  | tooFewPoints (computations points : Nat)
  deriving DecidableEq, Repr

namespace CommandError

def message : CommandError → String
  | .loading path _ => "loading " ++ path
  | .placement error => error.message
  | .noFunctionalCore hardware => "no functional core in " ++ hardware
  | .tooFewPoints computations points =>
      s!"{computations} computation(s) do not fit in {points} point(s)"

/-- Text with a margin before every line. -/
def indented (text : String) : String :=
  "    " ++ String.intercalate "\n    " (text.splitOn "\n")

/-- A cause below its heading. The line stays open where the fault in a file is left out. -/
def causeText (cause : HardwareError) : String :=
  let text := "\nCaused by:\n" ++ indented cause.message
  match cause with
  | .notFound _ => text ++ "\n"
  | .invalid _ => text ++ "\n"
  | .unreadable => text
  | .malformed => text

/-- The report on an error that ends the program. The program alone needs it. -/
def text (error : CommandError) : String :=
  "Error: " ++ error.message ++ "\n" ++
    match error with
    | .loading _ cause => causeText cause
    | _ => ""

end CommandError

abbrev Script := EStateM CommandError String

namespace Script

def print (line : String) : Script Unit := modify fun printed => printed ++ line ++ "\n"

def ofExcept : Except CommandError α → Script α
  | .ok value => pure value
  | .error error => throw error

def ofPlacement (result : Except PlacementError α) : Script α :=
  ofExcept (result.mapError .placement)

/-- Run commands on a placement; returns the changed placement too. -/
def change (placement : Placement) (action : PlacementAction α) : Script (α × Placement) :=
  match action placement with
  | .ok value next => pure (value, next)
  | .error error _ => throw (.placement error)

end Script

/-- Text with blanks behind it, or before it, up to a width. -/
def padEnd (width : Nat) (text : String) : String :=
  text ++ String.ofList (List.replicate (width - text.length) ' ')

def padStart (width : Nat) (text : String) : String :=
  String.ofList (List.replicate (width - text.length) ' ') ++ text

/-! The command that prints the hierarchy of an accelerator. -/

namespace Info

def levelLine (level : Level) (index : Nat) : String :=
  s!"Level {index}      : " ++ padEnd 6 level.name ++ " " ++
    padEnd 8 (String.intercalate "×" (level.dims.map toString)) ++ " " ++
    padStart 6 (fixedText level.bandwidth 1) ++ " B/cycle per link"

def columnsLine (hardware : Hardware) : String :=
  s!"Columns      : {hardware.columnCount} ({hardware.functionalCount} functional, " ++
    s!"{hardware.disabled.length} disabled)"

def lines (hardware : Hardware) : List String :=
  ["Hardware     : " ++ hardware.name] ++
  hardware.levels.zipIdx.map (fun (level, index) => levelLine level index) ++
  [s!"Time         : {hardware.steps} step(s) × {hardware.phases} phase(s)",
    s!"Core memory  : {hardware.memoryBytes} bytes ({hardware.alignment}-byte aligned)",
    columnsLine hardware] ++
  hardware.disabled.map (fun column => "  disabled   : " ++ column.text) ++
  ["Units/point  : " ++ String.intercalate ", " (FunctionalUnit.all.map FunctionalUnit.text)]

def script (hardware : Hardware) : Script Unit := (lines hardware).forM Script.print

end Info

/-!
The command that demonstrates one layer and reports memory, transfer times and the firing order.
-/

namespace Demo

def splitLine (vector : SplitVector) (created computations : List TaskId) : String :=
  s!"Split {vector}: {created.length} new block(s), {computations.length} computation(s)"

def memoryLine (report : MemoryReport) : String :=
  "  " ++ padEnd 16 report.column.text ++ " " ++ padStart 8 (toString report.peak) ++ " / " ++
    toString report.capacity ++ (if report.exceedsCapacity then "  OVER" else "")

def transfersLine (completions : List (EdgeId × Float)) : String :=
  s!"Transfers    : {completions.length} complete, last at " ++
    fixedText (latest completions) 1 ++ " cycles"

structure Outcome where
  placement : Placement
  reports : List MemoryReport
  fired : List TaskId

/-- Place the layer, if there are points enough for its computations. -/
def place (hardware : Hardware) (layer : Layer) (computations : List TaskId)
    (placement : Placement) : Script (Nat × Placement) :=
  match hardware.functionalColumns with
  | [] => throw (.noFunctionalCore hardware.name)
  | first :: rest =>
      let points := word ((rest.length + 1) * hardware.pointsPerColumn)
      if points < computations.length then
        throw (.tooFewPoints computations.length points)
      else
        Script.change placement (placeLayer layer computations first (first :: rest))

def script (hardware : Hardware) (vector : SplitVector) : Script Outcome := do
  let ((layer, created), placement) ←
    Script.change (.onHardware (.empty 0) hardware) (splitLayer vector)
  let computations := created.filter placement.graph.isComputation
  Script.print (splitLine vector created computations)
  let (routed, placement) ← place hardware layer computations placement
  let placed := placement.whereabouts.coordinates.size
  Script.print s!"Placed {placed} task(s), routed {routed} edge(s)"
  Script.print ""
  Script.print "Memory (peak bytes per column)"
  let reports ← Script.ofPlacement placement.memoryReports
  reports.forM fun report => Script.print (memoryLine report)
  let simulation ← Script.ofPlacement placement.simulation
  let completions := (simulation.runToCompletion Simulation.roundLimit).elim [] (·.1)
  Script.print ""
  Script.print (transfersLine completions)
  let fired ← Script.ofPlacement (firingOrder placement)
  Script.print s!"Schedule     : {fired.length} task(s) fired"
  Script.print ("  " ++ String.intercalate " " (fired.map TaskId.text))
  return { placement, reports, fired }

end Demo

/-!
The arguments that name a command, and what it leaves behind. Of the ways to write arguments only
the plain ones are read, each option behind the file and apart from its value.
-/

inductive Command
  | info
  | demo (vector : SplitVector)
  deriving DecidableEq, Repr

/-- A command and the file that describes the accelerator it is about. -/
structure Invocation where
  command : Command
  path : String
  deriving DecidableEq, Repr

namespace Invocation

/-- A number of parts: decimal digits, after a plus sign or not, within 64 bits. -/
def parts? (text : String) : Option Nat :=
  let digits := match text.toList with
    | '+' :: digits => digits
    | digits => digits
  let number := Digits.number 10 digits
  if !digits.isEmpty && digits.all Char.isDigit && decide (number < Nat.pow 2 64) then some number
  else none

def splitAxis? : String → Option Axis
  | "--split-y" => some .y
  | "--split-f" => some .f
  | "--split-r" => some .r
  | _ => none

def vector? (vector : SplitVector) (seen : List Axis) : List String → Option SplitVector
  | [] => some vector
  | [_] => none
  | option :: value :: rest => do
      let axis ← splitAxis? option
      let parts ← parts? value
      if axis ∈ seen then none else vector? (vector.set axis parts) (axis :: seen) rest

def defaultVector : SplitVector := { y := 2, f := 2 }

def ofArguments? : List String → Option Invocation
  | ["info", path] => some ⟨.info, path⟩
  | "demo" :: path :: options =>
      (vector? defaultVector [] options).map fun vector => ⟨.demo vector, path⟩
  | _ => none

/-- Run the command on the content of its file, if there is one. -/
def script (invocation : Invocation) (content : Option ByteArray) : Script Unit := do
  let hardware ← Script.ofExcept
    ((Hardware.ofFile .toml invocation.path content).mapError (.loading invocation.path))
  match invocation.command with
  | .info => Info.script hardware
  | .demo vector => discard (Demo.script hardware vector)

/-- What a command leaves behind: its exit code, its output and its complaints. -/
structure Result where
  code : Nat
  output : String
  errors : String
  deriving DecidableEq, Repr

def run (invocation : Invocation) (content : Option ByteArray) : Result :=
  match invocation.script content "" with
  | .ok _ printed => ⟨0, printed, ""⟩
  | .error error printed => ⟨1, printed, error.text⟩

end Invocation

end TiledPlacement
