import TiledPlacement.Decimal

/-!
Readers of text: each takes what it reads off the front of a list of characters, or fails. A reader
that fails leaves the characters as they were for the alternative. The blanks and the scalars of
TOML documents are read so.
-/

namespace TiledPlacement

namespace Toml

abbrev Reader (α : Type) := StateT (List Char) Option α

namespace Reader

def char (test : Char → Bool) : Reader Char := fun
  | [] => none
  | first :: rest => if test first then some (first, rest) else none

def exactly : List Char → Reader Unit
  | [] => pure ()
  | expected :: rest => do
      let _ ← char (· == expected)
      exactly rest

def symbol (text : String) : Reader Unit := exactly text.toList

/-- As many characters as pass a test. -/
def run (test : Char → Bool) : Reader (List Char) := fun input =>
  some (input.takeWhile test, input.dropWhile test)

/-- As many characters as pass a test, at least one. -/
def run1 (test : Char → Bool) : Reader (List Char) := do
  let first ← char test
  return first :: (← run test)

/-- Succeeds, without taking anything, when the next character is there and passes a test. -/
def ahead (test : Char → Bool) : Reader Unit := fun input =>
  if input.head?.any test then some ((), input) else none

def atEnd : Reader Unit := fun input => if input.isEmpty then some ((), input) else none

def repeated (item : Reader α) : Nat → Reader (List α)
  | 0 => pure []
  | count + 1 => do
      let first ← item
      return first :: (← repeated item count)

/-- The longest series of readings, at most one for each character of `limit`. -/
def manyWithin (item : Reader α) : (limit input : List Char) → List α × List Char
  | [], input => ([], input)
  | _ :: limit, input =>
      match item input with
      | none => ([], input)
      | some (value, rest) =>
          let (values, last) := manyWithin item limit rest
          (value :: values, last)

def many (item : Reader α) : Reader (List α) := fun input => some (manyWithin item input input)

def maybe (item : Reader α) : Reader (Option α) := some <$> item <|> pure none

/-- Readings with a separator between every two of them. -/
def separated1 (item : Reader α) (separator : Reader Unit) : Reader (List α) := do
  let first ← item
  return first :: (← many (do separator; item))

def separated (item : Reader α) (separator : Reader Unit) : Reader (List α) :=
  separated1 item separator <|> pure []

end Reader

/-! Blanks, comments and strings of TOML documents. -/

def isBlank (char : Char) : Bool := char == ' ' || char == '\t'

/-- Characters of comments, and of strings apart from quotes and backslashes: no control
characters but tabs. -/
def isPlain (char : Char) : Bool :=
  char == '\t' || (decide (' ' ≤ char) && char != '\x7f')

def isHexDigit (char : Char) : Bool :=
  char.isDigit || (decide ('a' ≤ char) && decide (char ≤ 'f')) ||
    (decide ('A' ≤ char) && decide (char ≤ 'F'))

namespace Reader

def blanks : Reader Unit := do
  let _ ← run isBlank

def newline : Reader Unit := symbol "\n" <|> symbol "\r\n"

def comment : Reader Unit := do
  symbol "#"
  let _ ← run isPlain

def lineEnd : Reader Unit := do
  blanks
  let _ ← maybe comment
  newline <|> atEnd

/-- Blanks, newlines and comments between the items of an array. -/
def spacing : Reader Unit := do
  let _ ← many ((do let _ ← run1 isBlank) <|> (do let _ ← maybe comment; newline))

def codePoint (count : Nat) : Reader Char := do
  let value := Digits.number 16 (← repeated (char isHexDigit) count)
  if value.isValidChar then return Char.ofNat value
  failure

def escape : Reader Char := do
  symbol "\\"
  match ← char fun _ => true with
  | 'b' => return '\x08'
  | 't' => return '\t'
  | 'n' => return '\n'
  | 'f' => return '\x0c'
  | 'r' => return '\r'
  | '"' => return '"'
  | '\\' => return '\\'
  | 'u' => codePoint 4
  | 'U' => codePoint 8
  | _ => failure

def isBasic (char : Char) : Bool := isPlain char && char != '"' && char != '\\'

def isLiteral (char : Char) : Bool := isPlain char && char != '\''

def basicString : Reader (List Char) := do
  symbol "\""
  let pieces ← many (run1 isBasic <|> (do return [← escape]))
  symbol "\""
  return pieces.flatten

def literalString : Reader (List Char) := do
  symbol "'"
  let text ← run isLiteral
  symbol "'"
  return text

/-- One or two quotes with other text behind them. -/
def innerQuotes (quote : Char) : Reader (List Char) :=
  (do exactly [quote, quote]; ahead (· != quote); return [quote, quote]) <|>
    (do exactly [quote]; ahead (· != quote); return [quote])

/-- Three quotes, and up to two more in front of them that belong to the text. -/
def closingQuotes (quote : Char) : Reader (List Char) :=
  (do exactly (List.replicate 5 quote); return [quote, quote]) <|>
    (do exactly (List.replicate 4 quote); return [quote]) <|>
    (do exactly (List.replicate 3 quote); return [])

/-- Text between triple quotes, without a newline right behind the first three. -/
def multiline (quote : Char) (piece : Reader (List Char)) : Reader (List Char) := do
  exactly (List.replicate 3 quote)
  let _ ← maybe newline
  let pieces ← many (piece <|> (do newline; return ['\n']) <|> innerQuotes quote)
  let last ← closingQuotes quote
  return pieces.flatten ++ last

/-- A backslash at the end of a line takes away all space up to the next text. -/
def lineContinuation : Reader (List Char) := do
  symbol "\\"
  blanks
  newline
  let _ ← many ((do let _ ← run1 isBlank) <|> newline)
  return []

def multilineBasic : Reader (List Char) :=
  multiline '"' (run1 isBasic <|> lineContinuation <|> (do return [← escape]))

def multilineLiteral : Reader (List Char) := multiline '\'' (run1 isLiteral)

def string : Reader String :=
  String.ofList <$> (multilineBasic <|> basicString <|> multilineLiteral <|> literalString)

end Reader

/-! Numbers, dates and times of TOML documents. -/

/-- Integers have 64 bits. -/
def isInteger (value : Int) : Bool :=
  let bound : Int := Nat.pow 2 63
  decide (-bound ≤ value) && decide (value < bound)

namespace Reader

/-- Digits with single underscores between them. -/
def digits (test : Char → Bool) : Reader (List Char) := do
  let first ← char test
  return first :: (← many ((do symbol "_"; char test) <|> char test))

/-- Decimal digits that start with no zero unless they are one. -/
def decimalDigits : Reader (List Char) :=
  (do ahead fun first => first != '0'; digits Char.isDigit) <|> (do return [← char (· == '0')])

/-- Whether a minus sign is read; a plus sign may stand in its place. -/
def sign : Reader Bool :=
  (do symbol "-"; return true) <|> (do symbol "+"; return false) <|> pure false

def signed (negative : Bool) (value : Int) : Int := if negative then -value else value

/-- Digits behind a base, without sign. -/
def based (mark : String) (base : Nat) (test : Char → Bool) : Reader Int := do
  symbol mark
  return Digits.number base (← digits test)

def integer : Reader Int := do
  let value ←
    based "0x" 16 isHexDigit <|>
    based "0o" 8 (fun digit => decide ('0' ≤ digit) && decide (digit ≤ '7')) <|>
    based "0b" 2 (fun digit => digit == '0' || digit == '1') <|>
    (do return signed (← sign) (Digits.number 10 (← decimalDigits)))
  if isInteger value then return value
  failure

def fraction : Reader (List Char) := do
  symbol "."
  digits Char.isDigit

def exponent : Reader Int := do
  let _ ← char fun mark => mark == 'e' || mark == 'E'
  return signed (← sign) (Digits.number 10 (← digits Char.isDigit))

def decimal : Reader Numeral := do
  let negative ← sign
  let whole ← decimalDigits
  let (behind, exponent) ←
    (do return ([], ← exponent)) <|>
    (do return (← fraction, (← maybe exponent).getD 0))
  let value : Decimal := {
    negative
    digits := Digits.number 10 (whole ++ behind)
    exponent := exponent - behind.length }
  if value.toFloat.isInf && !negative then
    failure
  return .finite value

def special : Reader Numeral := do
  let negative ← sign
  (do symbol "inf"; return .infinite negative) <|> (do symbol "nan"; return .notANumber)

def real : Reader Numeral := decimal <|> special

/-! Dates and times -/

def bounded (count least greatest : Nat) : Reader Nat := do
  let value := Digits.number 10 (← repeated (char Char.isDigit) count)
  if least ≤ value ∧ value ≤ greatest then return value
  failure

def isLeap (year : Nat) : Bool :=
  decide (year % 4 = 0) && (decide (year % 100 ≠ 0) || decide (year % 400 = 0))

def daysIn (year month : Nat) : Nat :=
  if month = 2 then (if isLeap year then 29 else 28)
  else if month = 4 ∨ month = 6 ∨ month = 9 ∨ month = 11 then 30
  else 31

def date : Reader Unit := do
  let year ← bounded 4 0 9999
  symbol "-"
  let month ← bounded 2 1 12
  symbol "-"
  let _ ← bounded 2 1 (daysIn year month)

def time : Reader Unit := do
  let _ ← bounded 2 0 23
  symbol ":"
  let _ ← bounded 2 0 59
  symbol ":"
  let _ ← bounded 2 0 60
  let _ ← maybe (do symbol "."; run1 Char.isDigit)

def offset : Reader Unit :=
  (do let _ ← char fun mark => mark == 'Z' || mark == 'z') <|> (do
    let _ ← char fun mark => mark == '+' || mark == '-'
    let _ ← bounded 2 0 23
    symbol ":"
    let _ ← bounded 2 0 59)

/-- A date, a time or both; only a time behind a date may have an offset. -/
def moment : Reader Unit :=
  (do
    date
    let _ ← maybe (do
      let _ ← char fun mark => mark == 'T' || mark == 't' || mark == ' '
      time
      let _ ← maybe offset)) <|> time

end Reader

end Toml

end TiledPlacement
