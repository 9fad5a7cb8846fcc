import TiledPlacement.Proofs.Toml.Document

/-!
Documents of the grammar are read. Each text that stands for some content is read as a value that
holds it, and the lines become statements that say the same.
-/

namespace TiledPlacement

namespace Toml

/-- Whether a value is some content. Floating-point numbers are held by numerals. -/
inductive Value.Holds : Value → Content → Prop
  | string (text : String) : Holds (.string text) (.string text)
  | whole (number : Nat) : Holds (.integer number) (.whole number)
  | real {numeral : Numeral} {value : Float} (hvalue : numeral.toFloat = value) :
      Holds (.real numeral) (.real value)
  | array {values : List Value} {items : List Content} (hitems : List.Forall₂ Holds values items) :
      Holds (.array values) (.array items)

/-- Arrays lie at most so deep in each other. -/
inductive Content.Within : Nat → Content → Prop
  | string {depth : Nat} (text : String) : Within depth (.string text)
  | whole {depth : Nat} (number : Nat) : Within depth (.whole number)
  | real {depth : Nat} (value : Float) : Within depth (.real value)
  | array {depth : Nat} {items : List Content} (hitems : ∀ item ∈ items, Within depth item) :
      Within (depth + 1) (.array items)

/-- Which texts stand for which contents. -/
def Reads (text : String) (content : Content) : Prop :=
  ∃ value : Value, value.Holds content ∧ ∀ depth, content.Within depth → ItemAs depth text value

theorem reads_string (text : String) : Reads (quoted text) (.string text) :=
  ⟨_, .string text, fun depth _ => .string depth text⟩

theorem reads_whole {number : Nat} (hnumber : isInteger number = true) :
    Reads (toString number) (.whole number) :=
  ⟨_, .whole number, fun depth _ => .integer depth hnumber⟩

theorem reads_real {value : Float} {numeral : Numeral}
    (hread : Reader.real (realText (.ofFloat value)).toList = some (numeral, []))
    (hvalue : numeral.toFloat = value) : Reads (realText (.ofFloat value)) (.real value) :=
  ⟨_, .real hvalue, fun depth _ => .real depth hread⟩

theorem exists_values {inner : String} {items : List Content} (hitems : Items Reads inner items) :
    ∃ values, List.Forall₂ Value.Holds values items ∧
      ∀ depth, (∀ item ∈ items, item.Within depth) → Items (ItemAs depth) inner values := by
  induction hitems with
  | none hspace => exact ⟨[], .nil, fun _ _ => .none hspace⟩
  | last hspace hreads =>
      obtain ⟨value, hholds, hitem⟩ := hreads
      refine ⟨[value], .cons hholds .nil, fun depth hwithin => ?_⟩
      exact .last hspace (hitem depth (hwithin _ List.mem_cons_self))
  | next hspace hreads _ induction =>
      obtain ⟨value, hholds, hitem⟩ := hreads
      obtain ⟨values, hvalues, hothers⟩ := induction
      refine ⟨value :: values, .cons hholds hvalues, fun depth hwithin => ?_⟩
      rw [List.forall_mem_cons] at hwithin
      exact .next hspace (hitem depth hwithin.1) (hothers depth hwithin.2)

theorem reads_array {inner : String} {items : List Content} (hitems : Items Reads inner items) :
    Reads ("[" ++ inner ++ "]") (.array items) := by
  obtain ⟨values, hvalues, hinner⟩ := exists_values hitems
  refine ⟨_, .array hvalues, fun depth hwithin => ?_⟩
  cases hwithin with
  | @array depth _ hwithin => exact .array (hinner depth hwithin)

/-! Lines. -/

inductive Statement.Says : Statement → Line → Prop
  | assign {key : String} {value : Value} {content : Content} (hholds : value.Holds content) :
      Says (.assign ⟨[], key⟩ value) (.assign key content)
  | openTable (key : String) : Says (.openTable ⟨[], key⟩) (.openTable key)
  | openElement (key : String) : Says (.openElement ⟨[], key⟩) (.openElement key)

theorem IsDocument.head_ne {Reads : String → Content → Prop} {text : String} {lines : List Line}
    (hdocument : IsDocument Reads text lines) {char : Char}
    (hchar : char ∉ ['\n', '['] ∧ Reader.isBare char = false) :
    text.toList.head? ≠ some char := by
  obtain ⟨hmark, hbare⟩ := hchar
  have hother : ∀ first ∈ ['\n', '['], ∀ others : List Char,
      (first :: others).head? ≠ some char :=
    fun first hfirst _ hsame => hmark (Option.some.inj hsame ▸ hfirst)
  cases hdocument with
  | done => exact nofun
  | blank => simpa using hother '\n' (by decide) []
  | @assign key text rest _ _ hkey =>
      have hsplit : (assignment key text ++ rest).toList =
          key.toList ++ (" = " ++ text ++ "\n" ++ rest).toList := by
        simp [assignment]
      rw [hsplit]
      exact hkey.head_ne hbare _
  | openTable => simpa using hother '[' (by decide) []
  | openElement => simpa using hother '[' (by decide) []

/-- Whether a text is read as statements that say some lines. Those of blank lines say nothing and
have no effect. -/
def ReadsLines (text : String) (lines : List Line) : Prop :=
  ∃ statements said, Reader.Follows text.toList statements ∧
    List.Forall₂ Statement.Says said lines ∧
      ∀ progress, statements.foldlM Progress.apply progress = said.foldlM Progress.apply progress

theorem ReadsLines.cons {text rest : String} {lines : List Line} {found : Statement} {line : Line}
    (hrest : ReadsLines rest lines) (hmeans : found.Says line)
    (hline : ∀ {statements}, Reader.Follows rest.toList statements →
      Reader.Follows text.toList (found :: statements)) : ReadsLines text (line :: lines) := by
  obtain ⟨statements, said, hfollows, hothers, heffect⟩ := hrest
  refine ⟨found :: statements, found :: said, hline hfollows, .cons hmeans hothers,
    fun progress => ?_⟩
  rw [List.foldlM_cons, List.foldlM_cons]
  exact congrArg _ (funext heffect)

theorem readsLines_of_isDocument {text : String} {lines : List Line}
    (hdocument : IsDocument Reads text lines)
    (hwithin : ∀ key content, .assign key content ∈ lines → content.Within Reader.depthLimit) :
    ReadsLines text lines := by
  induction hdocument with
  | done => exact ⟨[], [], .nil, .nil, fun _ => rfl⟩
  | @blank rest lines _ induction =>
      obtain ⟨statements, said, hfollows, hmeans, heffect⟩ := induction hwithin
      refine ⟨.nothing :: statements, said, ?_, hmeans, heffect⟩
      rw [String.toList_append]
      exact .blankLine hfollows
  | @assign key text rest content lines hkey hreads _ induction =>
      obtain ⟨value, hholds, hitem⟩ := hreads
      have hrest := induction fun key content hmember =>
        hwithin key content (List.mem_cons_of_mem _ hmember)
      refine hrest.cons (.assign hholds) fun hfollows => ?_
      rw [String.toList_append]
      exact .assign hkey (hitem _ (hwithin key content List.mem_cons_self)) hfollows
  | @openTable key rest lines hkey _ induction =>
      have hrest := induction fun key content hmember =>
        hwithin key content (List.mem_cons_of_mem _ hmember)
      exact hrest.cons (.openTable key) fun hfollows => by simpa using hfollows.table hkey
  | @openElement key rest lines hkey _ induction =>
      have hrest := induction fun key content hmember =>
        hwithin key content (List.mem_cons_of_mem _ hmember)
      exact hrest.cons (.openElement key) fun hfollows => by simpa using hfollows.element hkey

theorem parse?_of_isDocument {text : String} {lines : List Line}
    (hdocument : IsDocument Reads text lines)
    (hwithin : ∀ key content, .assign key content ∈ lines → content.Within Reader.depthLimit) :
    ∃ said, List.Forall₂ Statement.Says said lines ∧
      parse? text = (said.foldlM Progress.apply Progress.start).map Progress.root := by
  obtain ⟨statements, said, hfollows, hmeans, heffect⟩ :=
    readsLines_of_isDocument hdocument hwithin
  refine ⟨said, hmeans, ?_⟩
  rw [parse?_of_follows hfollows (hdocument.head_ne (by decide)), heffect]

end Toml

end TiledPlacement
