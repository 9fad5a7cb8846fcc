import TiledPlacement.Decimal
import TiledPlacement.Toml.Reader

/-!
The written form of values in TOML documents. A string stands between the first quotes that can
hold it without escapes: double quotes, single quotes, three double quotes, three single quotes.
If none can, double quotes hold it with escapes, three of them if it has several lines.
-/

namespace TiledPlacement

namespace Toml

inductive Quotation
  | basic
  | literal
  | multilineBasic
  | multilineLiteral
  deriving DecidableEq, Repr

/-- Length of the longest series of a character without a break, given that `run` of them have
just been passed. -/
def longestRun (char : Char) (run : Nat) : List Char → Nat
  | [] => run
  | first :: rest =>
      if first = char then longestRun char (run + 1) rest
      else Nat.max run (longestRun char 0 rest)

def hexDigit (value : Nat) : Char := Nat.digitChar value |>.toUpper

def escaped (char : Char) : List Char :=
  if char = '"' then ['\\', '"']
  else if char = '\\' then ['\\', '\\']
  else if char = '\x08' then ['\\', 'b']
  else if char = '\t' then ['\\', 't']
  else if char = '\n' then ['\\', 'n']
  else if char = '\x0c' then ['\\', 'f']
  else if char = '\r' then ['\\', 'r']
  else if char < ' ' ∨ char = '\x7f' then
    ['\\', 'u', '0', '0', hexDigit (char.toNat / 16), hexDigit (char.toNat % 16)]
  else [char]

namespace Quotation

/-- In order of preference. -/
def all : List Quotation := [.basic, .literal, .multilineBasic, .multilineLiteral]

def quote : Quotation → Char
  | .basic => '"'
  | .literal => '\''
  | .multilineBasic => '"'
  | .multilineLiteral => '\''

def isMultiline : Quotation → Bool
  | .basic => false
  | .literal => false
  | .multilineBasic => true
  | .multilineLiteral => true

/-- Whether backslashes start escapes. -/
def hasEscapes : Quotation → Bool
  | .basic => true
  | .literal => false
  | .multilineBasic => true
  | .multilineLiteral => false

/-- The quotes on either side. -/
def delimiter (quotation : Quotation) : List Char :=
  List.replicate (if quotation.isMultiline then 3 else 1) quotation.quote

/-- How many of the quotes may stand in a row within the text. -/
def innerLimit (quotation : Quotation) : Nat := if quotation.isMultiline then 2 else 0

/-- Whether a character other than the quote may stand in the text. -/
def admits (quotation : Quotation) (char : Char) : Bool :=
  (isPlain char && !(quotation.hasEscapes && char == '\\')) ||
    (quotation.isMultiline && char == '\n')

/-- Whether the quotes can hold the text without escapes, those of tabs apart. -/
def suits (quotation : Quotation) (text : List Char) : Bool :=
  text.all quotation.admits &&
    decide (longestRun quotation.quote 0 text ≤ quotation.innerLimit)

def ofText (text : List Char) : Quotation :=
  match all.find? fun quotation => quotation.suits text with
  | some quotation => quotation
  | none => if '\n' ∈ text then .multilineBasic else .basic

/-- Text between double quotes, given that `run` quotes stand in a row before it. -/
def escapedText (quotation : Quotation) (run : Nat) : List Char → List Char
  | [] => []
  | char :: rest =>
      if char = '"' ∧ run < quotation.innerLimit then
        '"' :: quotation.escapedText (run + 1) rest
      else if char = '\n' ∧ quotation.isMultiline then
        '\n' :: quotation.escapedText 0 rest
      else
        escaped char ++ quotation.escapedText 0 rest

/-- What stands between the quotes. Several lines start on a line of their own. -/
def body (quotation : Quotation) (text : List Char) : List Char :=
  (if quotation.isMultiline ∧ '\n' ∈ text then ['\n'] else []) ++
    if quotation.hasEscapes then quotation.escapedText 0 text else text

end Quotation

def quoted (text : String) : String :=
  let quotation := Quotation.ofText text.toList
  String.ofList (quotation.delimiter ++ quotation.body text.toList ++ quotation.delimiter)

/-! Numbers, arrays and assignments. -/

def realText : Numeral → String
  | .finite decimal => if decimal.isWhole then decimal.text ++ ".0" else decimal.text
  | .infinite true => "-inf"
  | .infinite false => "inf"
  | .notANumber => "nan"

/-- Several items stand on lines of their own, with four blanks before the first line of each. -/
def arrayText : List String → String
  | [] => "[]"
  | [item] => "[" ++ item ++ "]"
  | items => "[\n" ++ String.join (items.map fun item => "    " ++ item ++ ",\n") ++ "]"

/-- The texts of scalars that are not whole numbers. -/
structure Spelling where
  string : String → String
  real : Float → String

def Spelling.shortest : Spelling := ⟨quoted, fun value => realText (.ofFloat value)⟩

def assignment (key value : String) : String := key ++ " = " ++ value ++ "\n"

end Toml

end TiledPlacement
