import TiledPlacement.Hardware.Basic
import TiledPlacement.Toml.Document
import TiledPlacement.Toml.Writer

/-!
Descriptions of accelerators as texts. What reads and writes the texts is a format; the one that
runs is TOML. There a record is a table, whose unknown keys are ignored, or an array that lists the
fields in order.
-/

namespace TiledPlacement

namespace Toml

/-- The fields of a record by their names, each if it is there. -/
def Value.fields? (value : Value) (names : List String) : Option (List (Option Value)) :=
  match value with
  | .table _ entries => some (names.map (Entries.get? entries))
  | other => other.items?.map fun items => (List.range names.length).map (items[·]?)

def Value.text? : Value → Option String
  | .string text => some text
  | _ => none

def Value.nat? : Value → Option Nat
  | .integer value => if 0 ≤ value then some value.toNat else none
  | _ => none

def Value.float? : Value → Option Float
  | .real value => some value.toFloat
  | .integer value => some (Float.ofInt value)
  | _ => none

/-- A list of items that are all read in the same way. -/
def Value.list? (read : Value → Option α) (value : Value) : Option (List α) := do
  (← value.items?).mapM read

/-- A field that may be left out. -/
def fieldOr (field : Option Value) (read : Value → Option α) (fallback : α) : Option α :=
  match field with
  | some value => read value
  | none => some fallback

end Toml

open Toml

def Position.ofToml? (value : Value) : Option Position := Position.mk <$> value.list? Value.nat?

def Coordinate.ofToml? (value : Value) : Option Coordinate :=
  Coordinate.mk <$> value.list? Position.ofToml?

def Level.ofToml? (value : Value) : Option Level := do
  match ← value.fields? ["name", "dims", "bandwidth"] with
  | [some name, some dims, some bandwidth] =>
      return ⟨← name.text?, ← dims.list? Value.nat?, ← bandwidth.float?⟩
  | _ => none

namespace Hardware

/-- The part of a description that says how long each core runs: steps and phases. -/
def timeOfToml? (value : Value) : Option (Nat × Nat) := do
  match ← value.fields? ["steps", "phases"] with
  | [some steps, some phases] => return (← steps.nat?, ← phases.nat?)
  | _ => none

/-- The part of a description that says what a core is: bytes of memory, alignment, and which
columns are disabled. -/
def coreOfToml? (value : Value) : Option (Nat × Nat × List Coordinate) := do
  match ← value.fields? ["memory_bytes", "alignment", "disabled"] with
  | [some memoryBytes, alignment, disabled] =>
      return (← memoryBytes.nat?, ← fieldOr alignment Value.nat? defaultAlignment,
        ← fieldOr disabled (Value.list? Coordinate.ofToml?) [])
  | _ => none

def ofToml? (value : Value) : Option Hardware := do
  match ← value.fields? ["name", "space", "time", "core"] with
  | [name, some space, some time, some core] =>
      let name ← fieldOr name Value.text? ""
      let levels ← space.list? Level.ofToml?
      let (steps, phases) ← timeOfToml? time
      let (memoryBytes, alignment, disabled) ← coreOfToml? core
      return { name, levels, steps, phases, memoryBytes, alignment, disabled }
  | _ => none

/-- The description that a document gives, whether or not it can be used. -/
def read? (text : String) : Option Hardware := do
  ofToml? (.table .header (← Toml.parse? text))

/-! Writing -/

def positionText (position : Position) : String :=
  arrayText (position.components.map toString)

def coordinateText (coordinate : Coordinate) : String :=
  arrayText (coordinate.levels.map positionText)

def levelText (spelling : Spelling) (level : Level) : String :=
  "\n[[space]]\n" ++ assignment "name" (spelling.string level.name) ++
    assignment "dims" (arrayText (level.dims.map toString)) ++
    assignment "bandwidth" (spelling.real level.bandwidth)

def wholeNumbers (hardware : Hardware) : List Nat :=
  hardware.levels.flatMap Level.dims ++
    [hardware.steps, hardware.phases, hardware.memoryBytes, hardware.alignment] ++
    hardware.disabled.flatMap fun place => place.levels.flatMap Position.components

def isWritable (number : Nat) : Bool := isInteger number

def layout (spelling : Spelling) (hardware : Hardware) : String :=
  assignment "name" (spelling.string hardware.name) ++
    (if hardware.levels.isEmpty then assignment "space" (arrayText [])
      else String.join (hardware.levels.map (levelText spelling))) ++
    "\n[time]\n" ++ assignment "steps" (toString hardware.steps) ++
    assignment "phases" (toString hardware.phases) ++
    "\n[core]\n" ++ assignment "memory_bytes" (toString hardware.memoryBytes) ++
    assignment "alignment" (toString hardware.alignment) ++
    assignment "disabled" (arrayText (hardware.disabled.map coordinateText))

/-- The document of a description, unless there is no writing some number in it. -/
def write? (hardware : Hardware) : Option String :=
  if hardware.wholeNumbers.all isWritable then some (hardware.layout .shortest) else none

/-- A way to read descriptions from texts and to write them. -/
structure Format where
  read? : String → Option Hardware
  write? : Hardware → Option String

def Format.toml : Format := ⟨Hardware.read?, Hardware.write?⟩

def ofText (format : Format) (text : String) : Except HardwareError Hardware :=
  match format.read? text with
  | none => .error .malformed
  | some hardware => hardware.validate.map fun () => hardware

/-- The usable description in a file that holds some bytes, or does not exist. -/
def ofFile (format : Format) (path : String) (content : Option ByteArray) :
    Except HardwareError Hardware :=
  match content with
  | none => .error (.notFound path)
  | some bytes =>
      match String.fromUTF8? bytes with
      | none => .error .unreadable
      | some text => ofText format text

def toText (format : Format) (hardware : Hardware) : Except HardwareError String :=
  match format.write? hardware with
  | none => .error .malformed
  | some text => .ok text

end Hardware

end TiledPlacement
