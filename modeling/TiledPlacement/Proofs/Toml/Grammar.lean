import Mathlib.Data.List.Forall2
import TiledPlacement.Toml.Writer

/-!
The part of the grammar of TOML that descriptions of accelerators need. Which texts stand for which
scalars is left open; arrays and lines are as the grammar has them.
-/

namespace TiledPlacement

namespace Toml

/-- What a key is given. -/
inductive Content
  | string (text : String)
  | whole (number : Nat)
  | real (value : Float)
  | array (items : List Content)

/-- What a line says: a key has some content, or a table or the next one of a series begins. -/
inductive Line
  | assign (key : String) (content : Content)
  | openTable (key : String)
  | openElement (key : String)

def IsSpacing (text : String) : Prop := ∀ char ∈ text.toList, char ∈ [' ', '\t', '\n']

/-- A key that stands without quotes. -/
structure IsBareKey (text : String) : Prop where
  nonempty : text.toList ≠ []
  bare : ∀ char ∈ text.toList, char.isAlphanum = true ∨ char = '_' ∨ char = '-'

/-- What may stand between the brackets of an array. There may be a comma behind the last item. -/
inductive Items {α : Type} (Reads : String → α → Prop) : String → List α → Prop
  | none {space : String} (hspace : IsSpacing space) : Items Reads space []
  | last {space text : String} {item : α} (hspace : IsSpacing space)
      (hreads : Reads text item) : Items Reads (space ++ text) [item]
  | next {space text rest : String} {item : α} {items : List α}
      (hspace : IsSpacing space) (hreads : Reads text item) (hrest : Items Reads rest items) :
      Items Reads (space ++ text ++ "," ++ rest) (item :: items)

/-- A document, line by line. -/
inductive IsDocument (Reads : String → Content → Prop) : String → List Line → Prop
  | done : IsDocument Reads "" []
  | blank {rest : String} {lines : List Line} (hrest : IsDocument Reads rest lines) :
      IsDocument Reads ("\n" ++ rest) lines
  | assign {key text rest : String} {content : Content} {lines : List Line}
      (hkey : IsBareKey key) (hreads : Reads text content) (hrest : IsDocument Reads rest lines) :
      IsDocument Reads (assignment key text ++ rest) (.assign key content :: lines)
  | openTable {key rest : String} {lines : List Line} (hkey : IsBareKey key)
      (hrest : IsDocument Reads rest lines) :
      IsDocument Reads ("[" ++ key ++ "]\n" ++ rest) (.openTable key :: lines)
  | openElement {key rest : String} {lines : List Line} (hkey : IsBareKey key)
      (hrest : IsDocument Reads rest lines) :
      IsDocument Reads ("[[" ++ key ++ "]]\n" ++ rest) (.openElement key :: lines)

section Arrays

variable {α : Type} {Reads : String → α → Prop} {texts : List String} {items : List α}

theorem IsSpacing.append {before behind : String} (hbefore : IsSpacing before)
    (hbehind : IsSpacing behind) : IsSpacing (before ++ behind) := by
  intro char hchar
  rw [String.toList_append, List.mem_append] at hchar
  exact hchar.elim (hbefore char) (hbehind char)

theorem isSpacing_indent : IsSpacing "    " := by
  simp [IsSpacing]

theorem isSpacing_newline : IsSpacing "\n" := by
  simp [IsSpacing]

/-- Items on lines of their own, behind some space. -/
theorem Items.lines (hreads : List.Forall₂ Reads texts items) {space : String}
    (hspace : IsSpacing space) :
    Items Reads (space ++ String.join (texts.map fun text => "    " ++ text ++ ",\n")) items := by
  induction hreads generalizing space with
  | nil => simpa using Items.none hspace
  | @cons text item texts items hitem _ induction =>
      have hnext := Items.next (hspace.append isSpacing_indent) hitem
        (induction isSpacing_newline)
      have hsplit : space ++ String.join ((text :: texts).map fun text => "    " ++ text ++ ",\n") =
          space ++ "    " ++ text ++ "," ++
            ("\n" ++ String.join (texts.map fun text => "    " ++ text ++ ",\n")) := by
        simp [← String.toList_inj, String.toList_join]
      exact hsplit ▸ hnext

/-- However many items there are, an array in the layout of the writer is one of the grammar. -/
theorem exists_items (hreads : List.Forall₂ Reads texts items) :
    ∃ inner, arrayText texts = "[" ++ inner ++ "]" ∧ Items Reads inner items := by
  cases hreads with
  | nil => exact ⟨"", rfl, .none nofun⟩
  | @cons text item others items hitem hothers =>
      cases hothers with
      | nil => exact ⟨"" ++ text, by simp [arrayText], .last nofun hitem⟩
      | @cons second next texts items hsecond hothers =>
          refine ⟨_, ?_, Items.lines (.cons hitem (.cons hsecond hothers)) isSpacing_newline⟩
          simp [← String.toList_inj, arrayText]

end Arrays

end Toml

end TiledPlacement
