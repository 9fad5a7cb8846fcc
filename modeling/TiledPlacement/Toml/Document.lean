import TiledPlacement.Decimal
import TiledPlacement.Toml.Reader

/-!
TOML documents. A document is read line by line into statements, and the statements are carried
out one after the other on the table of the document. Tables remember how they came about, since
that decides how they may be extended.
-/

namespace TiledPlacement

namespace Toml

inductive TableKind
  /-- Opened by a header of its own. -/
  | header
  /-- Came about on the way to another header. -/
  | implicit
  /-- Came about on the way of a dotted key. -/
  | dotted
  /-- Written between braces. -/
  | inlined
  deriving DecidableEq, Repr

inductive Value
  | string (text : String)
  | integer (value : Int)
  | real (value : Numeral)
  | boolean (value : Bool)
  /-- A date, a time or both; nothing depends on which. -/
  | moment
  | array (items : List Value)
  | table (kind : TableKind) (entries : List (String × Value))
  /-- Tables that are opened one after the other by headers in double brackets. -/
  | tables (elements : List (List (String × Value)))

abbrev Entries := List (String × Value)

namespace Entries

def get? (entries : Entries) (key : String) : Option Value :=
  entries.lookup key

def put (entries : Entries) (key : String) (value : Value) : Entries :=
  match entries with
  | [] => [(key, value)]
  | (first, old) :: rest =>
      if first = key then (key, value) :: rest else (first, old) :: put rest key value

end Entries

/-- Items of an array, also of one that is written as a series of tables. -/
def Value.items? : Value → Option (List Value)
  | .array items => some items
  | .tables elements => some (elements.map (.table .header))
  | _ => none

/-!
How keys and headers extend tables. A header leads through any table to a new one, or to one that
has come about on the way to another header. A dotted key leads only through tables without a
header of their own and ends in one that came about by a dotted key. A series of tables is entered
at its last element.
-/

/-- Whether a path may lead through a table. -/
def TableKind.admits (kind : TableKind) (dotted : Bool) : Bool :=
  match kind with
  | .header => !dotted
  | .implicit => true
  | .dotted => true
  | .inlined => false

namespace Entries

def change (dotted : Bool) (act : TableKind → Entries → Option Entries) :
    List String → TableKind → Entries → Option Entries
  | [], kind, entries => act kind entries
  | key :: rest, _, entries =>
      match entries.get? key with
      | none => do
          let kind := if dotted then TableKind.dotted else .implicit
          let inner ← change dotted act rest kind []
          return entries.put key (.table kind inner)
      | some (.table kind inner) => do
          guard (kind.admits dotted)
          let inner ← change dotted act rest kind inner
          return entries.put key (.table kind inner)
      | some (.tables elements) => do
          let last ← change dotted act rest .header (← elements.getLast?)
          return entries.put key (.tables (elements.dropLast ++ [last]))
      | some _ => none

def addNew (entries : Entries) (key : String) (value : Value) : Option Entries :=
  if (entries.get? key).isSome then none else some (entries.put key value)

def assign (entries : Entries) (path : List String) (key : String) (value : Value) :
    Option Entries :=
  change true
    (fun kind entries =>
      if path ≠ [] ∧ kind ≠ .dotted then none else addNew entries key value)
    path .header entries

/-- Open a table by its header. -/
def openTable (entries : Entries) (path : List String) (key : String) : Option Entries :=
  change false
    (fun _ entries =>
      match entries.get? key with
      | none => some (entries.put key (.table .header []))
      | some (.table .implicit inner) => some (entries.put key (.table .header inner))
      | some _ => none)
    path .header entries

/-- Open the next table of a series by its header. -/
def openElement (entries : Entries) (path : List String) (key : String) : Option Entries :=
  change false
    (fun _ entries =>
      match entries.get? key with
      | none => some (entries.put key (.tables [[]]))
      | some (.tables elements) => some (entries.put key (.tables (elements ++ [[]])))
      | some _ => none)
    path .header entries

end Entries

/-! Keys, values and lines. -/

/-- A dotted key: the tables on its way and its last part. -/
structure Key where
  path : List String
  last : String
  deriving DecidableEq, Repr

namespace Reader

/-- More parts than a dotted key may have. -/
def keyLimit : Nat := 80

/-- How deep arrays and inline tables may lie in each other. -/
def depthLimit : Nat := 79

def isBare (char : Char) : Bool :=
  char.isAlphanum || char == '_' || char == '-'

def simpleKey : Reader String := do
  blanks
  let part ← basicString <|> literalString <|> run1 isBare
  blanks
  return String.ofList part

def key : Reader Key := do
  let parts ← separated1 simpleKey (symbol ".")
  match parts.getLast? with
  | some last =>
      if parts.length < keyLimit then return ⟨parts.dropLast, last⟩
      failure
  | none => failure

def boolean : Reader Bool :=
  (do symbol "true"; return true) <|> (do symbol "false"; return false)

def scalar : Reader Value :=
  (Value.string <$> string) <|> (do moment; return .moment) <|> (Value.real <$> real) <|>
    (Value.integer <$> integer) <|> (Value.boolean <$> boolean)

def array (item : Reader Value) : Reader Value := do
  symbol "["
  let items ← separated (do spacing; let value ← item; spacing; return value) (symbol ",")
  unless items.isEmpty do
    let _ ← maybe (symbol ",")
  spacing
  symbol "]"
  return .array items

/-- A key and its value between braces. -/
def inlineEntry (item : Reader Value) : Reader (Key × Value) := do
  let key ← key
  symbol "="
  blanks
  let value ← item
  blanks
  return (key, value)

def inlineTable (item : Reader Value) : Reader Value := do
  symbol "\x7b"
  let entries ← separated (inlineEntry item) (symbol ",")
  blanks
  symbol "\x7d"
  let filled := entries.foldlM
    (fun table entry => Entries.assign table entry.1.path entry.1.last entry.2) []
  match filled with
  | some table => return .table .inlined table
  | none => failure

/-- A value in which others lie at most `depth` deep. -/
def value : Nat → Reader Value
  | 0 => scalar
  | depth + 1 => scalar <|> array (value depth) <|> inlineTable (value depth)

end Reader

/-- What a line of a document does. -/
inductive Statement
  | nothing
  | openTable (key : Key)
  | openElement (key : Key)
  | assign (key : Key) (value : Value)

namespace Reader

def tableHeader : Reader Statement := do
  symbol "["
  let key ← key
  symbol "]"
  lineEnd
  return .openTable key

def elementHeader : Reader Statement := do
  symbol "[["
  let key ← key
  symbol "]]"
  lineEnd
  return .openElement key

def assignment : Reader Statement := do
  let key ← key
  symbol "="
  blanks
  let value ← value depthLimit
  lineEnd
  return .assign key value

def statement : Reader Statement := do
  let statement ←
    (do comment; newline <|> atEnd; return .nothing) <|> (do newline; return .nothing) <|>
      elementHeader <|> tableHeader <|> assignment
  blanks
  return statement

def document : Reader (List Statement) := do
  let _ ← maybe (char (· == '\ufeff'))
  blanks
  let statements ← many statement
  atEnd
  return statements

end Reader

/-- A document that is read in part: its table and the path of the table that is open. -/
structure Progress where
  root : Entries
  current : List String

namespace Progress

def start : Progress := ⟨[], []⟩

def apply (progress : Progress) : Statement → Option Progress
  | .nothing => some progress
  | .openTable key => do
      let root ← progress.root.openTable key.path key.last
      return ⟨root, key.path ++ [key.last]⟩
  | .openElement key => do
      let root ← progress.root.openElement key.path key.last
      return ⟨root, key.path ++ [key.last]⟩
  | .assign key value => do
      let root ← progress.root.change false
        (fun _ entries => entries.assign key.path key.last value) progress.current .header
      return { progress with root }

end Progress

def parse? (text : String) : Option Entries := do
  let (statements, _) ← Reader.document text.toList
  let progress ← statements.foldlM Progress.apply Progress.start
  return progress.root

end Toml

end TiledPlacement
