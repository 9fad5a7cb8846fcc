import TiledPlacement.Decimal
import TiledPlacement.Hardware.Coordinate
import TiledPlacement.MixedRadix
import TiledPlacement.Word

/-!
Descriptions of an accelerator: nested levels of space, outermost first, steps and phases of time,
and the memory bank of each core. A column is a place in space through all time. Columns are
numbered by level and dimension, the innermost dimension varying fastest. Numbers of columns and of
points are words, and what does not fit into a word is lost.
-/

namespace TiledPlacement

/-- One level of space and the bandwidth of a link that crosses it, in bytes per cycle. -/
structure Level where
  name : String
  dims : List Nat
  bandwidth : Float
  deriving BEq

namespace Level

/-- How many places the level makes of one, in a word. -/
def extent (level : Level) : Nat := word (MixedRadix.volume level.dims)

def contains (level : Level) (position : Position) : Bool :=
  MixedRadix.fits level.dims position.components

end Level

structure Hardware where
  name : String
  levels : List Level
  steps : Nat
  phases : Nat
  memoryBytes : Nat
  alignment : Nat
  /-- Columns that are fused off. -/
  disabled : List Coordinate
  deriving BEq

/-- Level names that the ready-made descriptions use. -/
def chipLevel (dims : List Nat) : Level := ⟨"chip", dims, 4.0⟩

def coreLevel (dims : List Nat) : Level := ⟨"core", dims, 32.0⟩

/-- Alignment of operands in a memory bank unless a description says otherwise. -/
def defaultAlignment : Nat := 32

namespace Hardware

/-- A grid of chips, each a grid of cores. -/
def multiChip (chipsX chipsY coresX coresY : Nat) : Hardware where
  name := s!"{chipsX}x{chipsY} chips, {coresX}x{coresY} cores"
  levels := [chipLevel [chipsX, chipsY], coreLevel [coresX, coresY]]
  steps := 1
  phases := 4
  memoryBytes := 144 * 1024
  alignment := defaultAlignment
  disabled := []

def singleChip (coresX coresY : Nat) : Hardware := multiChip 1 1 coresX coresY

def spaceDepth (hardware : Hardware) : Nat := hardware.levels.length

/-- Depth of a coordinate that names a functional unit. -/
def fullDepth (hardware : Hardware) : Nat := hardware.spaceDepth + 3

/-- How many columns the levels make, counted without a bound. -/
def count : List Level → Nat
  | [] => 1
  | level :: rest => MixedRadix.volume level.dims * count rest

/-- The product of all extents, in a word. -/
def columnCount (hardware : Hardware) : Nat := word (count hardware.levels)

/-- Columns that are left when each entry of the list of disabled columns takes one away. -/
def functionalCount (hardware : Hardware) : Nat :=
  hardware.columnCount - hardware.disabled.length

def pointsPerColumn (hardware : Hardware) : Nat := word (hardware.steps * hardware.phases)

/-- Append digits to a number, each in a word. -/
def appendDigits : Nat → List Nat → List Nat → Nat
  | number, radix :: rest, digit :: digits =>
      appendDigits (word (number * radix + digit)) rest digits
  | number, _, _ => number

/-- Append the digits of the first positions to a number, if each lies on its level. -/
def indexFrom? : Nat → List Level → List Position → Option Nat
  | number, [], _ => some number
  | _, _ :: _, [] => none
  | number, level :: rest, position :: positions =>
      if level.contains position then
        indexFrom? (appendDigits number level.dims position.components) rest positions
      else
        none

/-- Number of the column that a coordinate names, or in which it names something. -/
def columnIndex? (hardware : Hardware) (coordinate : Coordinate) : Option Nat :=
  indexFrom? 0 hardware.levels coordinate.levels

/-- Whether the coordinate names a column, or something within one. -/
def hasColumn (hardware : Hardware) (coordinate : Coordinate) : Bool :=
  (hardware.columnIndex? coordinate).isSome

section Division

variable {F : Type → Type} [Monad F]

/-- Take the positions of a column off its number, the innermost level first; returns what is left
of the number as well. -/
def takePositions (divide : Nat → Nat → F (Nat × Nat)) :
    List Level → Nat → F (List Position × Nat)
  | [], number => pure ([], number)
  | level :: rest, number => do
      let (positions, left) ← takePositions divide rest number
      let (digits, left) ← MixedRadix.takeDigits divide level.dims left
      return (⟨digits⟩ :: positions, left)

/-- The column of a number; there is none from the number of columns on. -/
def columnBy? (hardware : Hardware) (divide : Nat → Nat → F (Nat × Nat)) (index : Nat) :
    F (Option Coordinate) :=
  if index < hardware.columnCount then do
    let (positions, _) ← takePositions divide hardware.levels index
    return some ⟨positions⟩
  else
    pure none

end Division

def positionsAt (levels : List Level) (index : Nat) : List Position :=
  (Id.run (takePositions MixedRadix.divide levels index)).1

def column? (hardware : Hardware) (index : Nat) : Option Coordinate :=
  Id.run (hardware.columnBy? MixedRadix.divide index)

def columns (hardware : Hardware) : List Coordinate :=
  (List.range hardware.columnCount).filterMap hardware.column?

def isDisabled (hardware : Hardware) (coordinate : Coordinate) : Bool :=
  decide (coordinate.take hardware.spaceDepth ∈ hardware.disabled)

def functionalColumns (hardware : Hardware) : List Coordinate :=
  hardware.columns.filter fun column => !hardware.isDisabled column

def bandwidth? (hardware : Hardware) (level : Nat) : Option Float :=
  hardware.levels[level]?.map (·.bandwidth)

end Hardware

/-! What makes a description of an accelerator usable. All problems are reported together. -/

inductive HardwareProblem
  | noLevels
  | noDimensions (index : Nat) (name : String)
  | zeroExtent (index : Nat) (name : String)
  | badBandwidth (index : Nat) (name : String) (bandwidth : Numeral)
  | noTime
  | noMemory
  | badAlignment (alignment : Nat)
  | disabledOutside (place : Coordinate)
  deriving DecidableEq, Repr

def HardwareProblem.text : HardwareProblem → String
  | .noLevels => "at least one space level is required"
  | .noDimensions index name => s!"space[{index}] '" ++ name ++ "' has no dimensions"
  | .zeroExtent index name => s!"space[{index}] '" ++ name ++ "' has a zero extent"
  | .badBandwidth index name bandwidth =>
      s!"space[{index}] '" ++ name ++ "' bandwidth must be positive, got " ++ bandwidth.text
  | .noTime => "time.steps and time.phases must be positive"
  | .noMemory => "core.memory_bytes must be positive"
  | .badAlignment alignment => s!"core.alignment must be a power of two, got {alignment}"
  | .disabledOutside place => s!"disabled core {place} is outside the hierarchy"

inductive HardwareError
  | notFound (path : String)
  /-- The file does not hold text. -/
  | unreadable
  /-- The text does not describe an accelerator. -/
  | malformed
  | invalid (problems : List HardwareProblem)
  deriving DecidableEq, Repr

def HardwareError.message : HardwareError → String
  | .notFound path => "Hardware configuration not found: " ++ path
  | .unreadable => "I/O error:"
  | .malformed => "Invalid hardware configuration TOML:"
  | .invalid problems =>
      "Hardware configuration validation failed:\n" ++
        String.intercalate "\n" (problems.map fun problem => "  - " ++ problem.text)

def problemIf (condition : Bool) (problem : HardwareProblem) : List HardwareProblem :=
  if condition then [problem] else []

/-- A bandwidth is a positive number and not infinite. -/
def isUsableBandwidth (bandwidth : Float) : Bool := bandwidth.isFinite && bandwidth > 0.0

def isPowerOfTwo (number : Nat) : Bool := number != 0 && number &&& (number - 1) == 0

def Level.problems (level : Level) (index : Nat) : List HardwareProblem :=
  problemIf level.dims.isEmpty (.noDimensions index level.name) ++
  problemIf (level.dims.contains 0) (.zeroExtent index level.name) ++
  problemIf (!isUsableBandwidth level.bandwidth)
    (.badBandwidth index level.name (.ofFloat level.bandwidth))

namespace Hardware

def problems (hardware : Hardware) : List HardwareProblem :=
  problemIf hardware.levels.isEmpty .noLevels ++
  hardware.levels.zipIdx.flatMap (fun (level, index) => level.problems index) ++
  problemIf (hardware.steps == 0 || hardware.phases == 0) .noTime ++
  problemIf (hardware.memoryBytes == 0) .noMemory ++
  problemIf (!isPowerOfTwo hardware.alignment) (.badAlignment hardware.alignment) ++
  (hardware.disabled.filter fun place => !hardware.hasColumn place).map .disabledOutside

def validate (hardware : Hardware) : Except HardwareError Unit :=
  if hardware.problems.isEmpty then .ok () else .error (.invalid hardware.problems)

end Hardware

end TiledPlacement
