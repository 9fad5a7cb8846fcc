import Mathlib.Data.List.TakeWhile
import TiledPlacement.Proofs.Toml.Grammar
import TiledPlacement.Proofs.Toml.Number
import TiledPlacement.Proofs.Toml.Quotation
import TiledPlacement.Toml.Document

/-!
Documents are read as they are written. An array stands for its items whether it is written on one
line or on several, and every line of a document is read as the one statement it was written for.
-/

namespace TiledPlacement

namespace Toml

namespace Reader

variable {rest : List Char}

/-! Scalars. -/

theorem string_eq_none (hdouble : rest.head? ≠ some '"') (hsingle : rest.head? ≠ some '\'') :
    string rest = none := by
  have hmultilineBasic : multilineBasic rest = none := multiline_eq_none_of_head hdouble
  have hmultilineLiteral : multilineLiteral rest = none := multiline_eq_none_of_head hsingle
  have hbasic : basicString rest = none := bind_of_none (symbol_eq_none rfl hdouble) _
  have hliteral : literalString rest = none := bind_of_none (symbol_eq_none rfl hsingle) _
  refine map_of_none ?_ _
  rw [orElse_of_none hmultilineBasic, orElse_of_none hbasic, orElse_of_none hmultilineLiteral,
    hliteral]

theorem scalar_string (text : String) (hrest : EndsValue rest) :
    scalar ((quoted text).toList ++ rest) = some (.string text, rest) :=
  orElse_of_some (map_of_some
    (string_append text (hrest.ne (by decide)) (hrest.ne (by decide))) _)

theorem scalar_integer {number : Nat} (hnumber : isInteger number = true)
    (hrest : EndsValue rest) :
    scalar ((toString number).toList ++ rest) = some (.integer number, rest) := by
  rw [toList_toString]
  have hwhole := isWhole_toDigits number
  have hstring : string (Nat.toDigits 10 number ++ rest) = none :=
    string_eq_none (head_append_ne hwhole rest rfl) (head_append_ne hwhole rest rfl)
  have hmoment : moment (Nat.toDigits 10 number ++ rest) = none :=
    moment_digits_eq_none hwhole.digits (isDigit_false_of_endsValue hrest) (hrest.ne (by decide))
      (hrest.ne (by decide))
  rw [scalar, orElse_of_none (map_of_none hstring _), orElse_of_none (bind_of_none hmoment _),
    orElse_of_none (map_of_none (real_whole_eq_none hwhole hrest) _)]
  exact orElse_of_some (map_of_some (integer_append hnumber hrest) _)

/-- Text of a floating-point number starts with digits and a point, or with a minus sign or a
letter. -/
theorem realText_cases (numeral : Numeral) :
    (∃ whole behind, (realText numeral).toList = Nat.toDigits 10 whole ++ '.' :: behind) ∨
      ∃ first ∈ ['-', 'i', 'n'], ∃ others, (realText numeral).toList = first :: others := by
  cases numeral with
  | finite decimal =>
      obtain ⟨whole, behind, htext, -⟩ := realText_finite decimal
      rw [htext, pointed]
      cases decimal.negative with
      | false => exact .inl ⟨whole, behind, rfl⟩
      | true => exact .inr ⟨'-', by decide, _, rfl⟩
  | infinite negative =>
      cases negative with
      | false => exact .inr ⟨'i', by decide, _, rfl⟩
      | true => exact .inr ⟨'-', by decide, _, rfl⟩
  | notANumber => exact .inr ⟨'n', by decide, _, rfl⟩

theorem scalar_real {numeral value : Numeral}
    (hread : real (realText numeral).toList = some (value, [])) (hrest : EndsValue rest) :
    scalar ((realText numeral).toList ++ rest) = some (.real value, rest) := by
  have hreal := map_of_some (real_append hread hrest) Value.real
  suffices hothers : string ((realText numeral).toList ++ rest) = none ∧
      moment ((realText numeral).toList ++ rest) = none by
    rw [scalar, orElse_of_none (map_of_none hothers.1 _),
      orElse_of_none (bind_of_none hothers.2 _)]
    exact orElse_of_some hreal
  obtain ⟨whole, behind, htext⟩ | ⟨first, hmark, others, htext⟩ := realText_cases numeral
  · have hwhole := isWhole_toDigits whole
    have hpoint : ∀ first ∈ ('.' :: (behind ++ rest)).head?, first.isDigit = false :=
      fun _ hfirst => Option.some.inj hfirst ▸ rfl
    rw [htext, List.append_assoc, List.cons_append]
    constructor
    · exact string_eq_none (head_append_ne hwhole _ rfl) (head_append_ne hwhole _ rfl)
    · exact moment_digits_eq_none hwhole.digits hpoint (by simp) (by simp)
  · have hmarks : ∀ first ∈ ['-', 'i', 'n'], first ≠ '"' ∧ first ≠ '\'' ∧
        first.isDigit = false := by
      simp
    obtain ⟨hdouble, hsingle, hdigit⟩ := hmarks first hmark
    rw [htext, List.cons_append]
    constructor
    · exact string_eq_none (fun hsame => hdouble (Option.some.inj hsame))
        (fun hsame => hsingle (Option.some.inj hsame))
    · exact moment_eq_none fun _ hfirst => Option.some.inj hfirst ▸ hdigit

/-! Values that stand in arrays and behind keys. -/

end Reader

/-- Whether a text that lies at some depth is read as a value, in front of what ends values. -/
def ReadsAs (depth : Nat) (text : String) (value : Value) : Prop :=
  ∀ rest, EndsValue rest →
    Reader.value depth (text.toList ++ rest) = some (value, rest)

theorem ReadsAs.of_scalar {text : String} {value : Value} (depth : Nat)
    (hread : ∀ rest, EndsValue rest →
      Reader.scalar (text.toList ++ rest) = some (value, rest)) : ReadsAs depth text value := by
  intro rest hrest
  cases depth with
  | zero => exact hread rest hrest
  | succ depth => exact Reader.orElse_of_some (hread rest hrest)

theorem readsAs_string (depth : Nat) (text : String) :
    ReadsAs depth (quoted text) (.string text) :=
  .of_scalar depth fun _ => Reader.scalar_string text

theorem readsAs_integer (depth : Nat) {number : Nat} (hnumber : isInteger number = true) :
    ReadsAs depth (toString number) (.integer number) :=
  .of_scalar depth fun _ => Reader.scalar_integer hnumber

theorem readsAs_real (depth : Nat) {numeral value : Numeral}
    (hread : Reader.real (realText numeral).toList = some (value, [])) :
    ReadsAs depth (realText numeral) (.real value) :=
  .of_scalar depth fun _ => Reader.scalar_real hread

namespace Reader

/-! Arrays. -/

/-- What `spacing` takes at a time. -/
def space : Reader Unit := (do let _ ← run1 isBlank) <|> (do let _ ← maybe comment; newline)

/-- The start of a text that is neither space nor a comment. -/
def Solid (input : List Char) : Prop :=
  ∃ first others, input = first :: others ∧ isBlank first = false ∧ first ≠ '\n' ∧
    first ≠ '\r' ∧ first ≠ '#'

theorem space_eq_none {input : List Char} (hsolid : Solid input) : space input = none := by
  obtain ⟨first, others, rfl, hblank, hline, hreturn, hcomment⟩ := hsolid
  have hblanks : run1 isBlank (first :: others) = none :=
    run1_eq_none fun _ hfirst => Option.some.inj hfirst ▸ hblank
  have hnone : comment (first :: others) = none :=
    bind_of_none (symbol_cons_eq_none rfl hcomment) _
  rw [space, orElse_of_none (bind_of_none hblanks _), bind_of_some (maybe_of_none hnone)]
  exact newline_eq_none (fun hsame => hline (Option.some.inj hsame))
    (fun hsame => hreturn (Option.some.inj hsame))

theorem spacing_of_series {input : List Char} {values : List Unit}
    (hseries : Series space input values rest) : spacing input = some ((), rest) := by
  rw [spacing, ← space, bind_of_some (many_of_series hseries), pure_apply]

theorem spacing_solid {input : List Char} (hsolid : Solid input) :
    spacing input = some ((), input) :=
  spacing_of_series (.stop (space_eq_none hsolid))

theorem space_line (input : List Char) : space ('\n' :: input) = some ((), input) := by
  have hnone : comment ('\n' :: input) = none := rfl
  rw [space, orElse_of_none rfl, bind_of_some (maybe_of_none hnone), newline_line]

/-- Blanks that follow each other are taken together. -/
theorem space_blanks {first : Char} {front input : List Char} (hblank : isBlank first = true)
    (hsolid : Solid input) :
    space (first :: front ++ input) = some ((), front.dropWhile isBlank ++ input) := by
  have hhead : ∀ next ∈ (front.dropWhile isBlank ++ input).head?, isBlank next = false := by
    intro next hnext
    cases hdrop : front.dropWhile isBlank with
    | nil =>
        obtain ⟨start, others, rfl, hstart, -⟩ := hsolid
        rw [hdrop] at hnext
        exact Option.some.inj hnext ▸ hstart
    | cons start others =>
        rw [hdrop] at hnext
        obtain rfl := Option.some.inj hnext
        have hfirst := List.head?_dropWhile_not isBlank front
        rw [hdrop] at hfirst
        exact hfirst
  have hrun : run1 isBlank (first :: front.takeWhile isBlank ++
      (front.dropWhile isBlank ++ input)) =
        some (first :: front.takeWhile isBlank, front.dropWhile isBlank ++ input) := by
    refine run1_append (List.cons_ne_nil _ _) (List.forall_mem_cons.mpr ⟨hblank, ?_⟩) hhead
    exact fun char hchar => List.mem_takeWhile_imp hchar
  have hsplit : first :: front ++ input =
      first :: front.takeWhile isBlank ++ (front.dropWhile isBlank ++ input) := by
    rw [List.cons_append, List.cons_append, ← List.append_assoc, List.takeWhile_append_dropWhile]
  rw [hsplit]
  exact orElse_of_some ((bind_of_some hrun _).trans rfl)

theorem series_space {front input : List Char}
    (hfront : ∀ char ∈ front, char ∈ [' ', '\t', '\n']) (hsolid : Solid input) :
    ∃ found, Series space (front ++ input) found input := by
  match front with
  | [] => exact ⟨[], .stop (space_eq_none hsolid)⟩
  | first :: front =>
      rw [List.forall_mem_cons] at hfront
      by_cases hblank : isBlank first = true
      · have hbehind : ∀ char ∈ front.dropWhile isBlank, char ∈ [' ', '\t', '\n'] :=
          fun char hchar => hfront.2 char ((List.dropWhile_sublist _).mem hchar)
        obtain ⟨found, hseries⟩ := series_space hbehind hsolid
        have hshorter : (front.dropWhile isBlank).length ≤ front.length :=
          (List.dropWhile_sublist isBlank).length_le
        refine ⟨() :: found, .next (space_blanks hblank hsolid) ?_ hseries⟩
        simp only [List.length_append, List.cons_append, List.length_cons]
        omega
      · obtain ⟨found, hseries⟩ := series_space hfront.2 hsolid
        have hline : first = '\n' := by
          simp only [List.mem_cons, List.not_mem_nil, or_false] at hfront
          obtain ⟨rfl | rfl | rfl, -⟩ := hfront
          · exact absurd rfl hblank
          · exact absurd rfl hblank
          · rfl
        rw [hline]
        exact ⟨() :: found, .next (space_line _) (Nat.lt_succ_self _) hseries⟩
termination_by front.length
decreasing_by
  · exact Nat.lt_succ_of_le (List.dropWhile_sublist isBlank).length_le
  · exact Nat.lt_succ_self _

theorem spacing_append {space : String} (hspace : IsSpacing space) {input : List Char}
    (hsolid : Solid input) : spacing (space.toList ++ input) = some ((), input) := by
  obtain ⟨found, hseries⟩ := series_space hspace hsolid
  exact spacing_of_series hseries

end Reader

theorem endsValue_comma (rest : List Char) : EndsValue (',' :: rest) :=
  fun _ hfirst => .inl (Option.some.inj hfirst).symm

theorem endsValue_bracket (rest : List Char) : EndsValue (']' :: rest) :=
  fun _ hfirst => .inr (.inl (Option.some.inj hfirst).symm)

theorem endsValue_line (rest : List Char) : EndsValue ('\n' :: rest) :=
  fun _ hfirst => .inr (.inr (Option.some.inj hfirst).symm)

/-- Whether a text is read as a value also where space is skipped in front of it. -/
structure ItemAs (depth : Nat) (text : String) (value : Value) : Prop where
  solid : ∀ rest, Reader.Solid (text.toList ++ rest)
  reads : ReadsAs depth text value

namespace Reader

variable {depth : Nat}

theorem value_bracket_eq_none (depth : Nat) (rest : List Char) :
    value depth (']' :: rest) = none := by
  cases depth <;> rfl

theorem scalar_open_eq_none (rest : List Char) : scalar ('[' :: rest) = none :=
  rfl

/-- An item of an array, with the space around it. -/
def spacedItem (item : Reader Value) : Reader Value := do
  spacing
  let value ← item
  spacing
  return value

theorem spacedItem_of_reads {text : String} {found : Value} {input rest : List Char}
    (hspace : spacing input = some ((), text.toList ++ rest)) (hreads : ReadsAs depth text found)
    (hends : EndsValue rest) (hsolid : Solid rest) :
    spacedItem (value depth) input = some (found, rest) := by
  rw [spacedItem, bind_of_some hspace, bind_of_some (hreads rest hends),
    bind_of_some (spacing_solid hsolid), pure_apply]

theorem spacedItem_bracket {input rest : List Char}
    (hspace : spacing input = some ((), ']' :: rest)) :
    spacedItem (value depth) input = none := by
  rw [spacedItem, bind_of_some hspace, bind_of_none (value_bracket_eq_none depth rest)]

theorem solid_comma (rest : List Char) : Solid (',' :: rest) :=
  ⟨',', rest, rfl, by decide⟩

theorem solid_bracket (rest : List Char) : Solid (']' :: rest) :=
  ⟨']', rest, rfl, by decide⟩

/-- How the text in front of the closing bracket is read: as space, or as items with a comma
between each two of them. -/
def ReadsItems (depth : Nat) (input rest : List Char) : List Value → Prop
  | [] => spacing input = some ((), ']' :: rest)
  | found :: others => ∃ left last, spacedItem (value depth) input = some (found, left) ∧
      left.length ≤ input.length ∧
        Series (do symbol ","; spacedItem (value depth)) left others last ∧
        ∃ comma behind, maybe (symbol ",") last = some (comma, behind) ∧
          spacing behind = some ((), ']' :: rest)

theorem readsItems_append {inner : String} {values : List Value}
    (hitems : Items (ItemAs depth) inner values) (rest : List Char) :
    ReadsItems depth (inner.toList ++ ']' :: rest) rest values := by
  induction hitems with
  | none hspace => exact spacing_append hspace (solid_bracket rest)
  | @last space text found hspace hitem =>
      have hnone : symbol "," (']' :: rest) = none := symbol_cons_eq_none rfl (by decide)
      rw [String.toList_append, List.append_assoc]
      exact ⟨_, _, spacedItem_of_reads (spacing_append hspace (hitem.solid _)) hitem.reads
        (endsValue_bracket rest) (solid_bracket rest), by simp; omega,
        .stop (bind_of_none hnone _), _, _, maybe_of_none hnone,
        spacing_solid (solid_bracket rest)⟩
  | @next space text behind found values hspace hitem _ induction =>
      have hsplit : (space ++ text ++ "," ++ behind).toList ++ ']' :: rest =
          space.toList ++ (text.toList ++ ',' :: (behind.toList ++ ']' :: rest)) := by
        simp
      have hfirst := spacedItem_of_reads (spacing_append hspace (hitem.solid _)) hitem.reads
        (endsValue_comma (behind.toList ++ ']' :: rest)) (solid_comma _)
      have hcomma : symbol "," (',' :: (behind.toList ++ ']' :: rest)) =
          some ((), behind.toList ++ ']' :: rest) := symbol_cons rfl _
      have hless : (',' :: (behind.toList ++ ']' :: rest)).length ≤
          (space.toList ++ (text.toList ++ ',' :: (behind.toList ++ ']' :: rest))).length := by
        simp
        omega
      rw [hsplit]
      cases values with
      | nil =>
          refine ⟨_, _, hfirst, hless, .stop ?_, _, _, maybe_of_some hcomma, induction⟩
          exact (bind_of_some hcomma _).trans (spacedItem_bracket induction)
      | cons second values =>
          obtain ⟨left, last, hsecond, hshorter, hothers, hend⟩ := induction
          exact ⟨_, last, hfirst, hless, .next ((bind_of_some hcomma _).trans hsecond)
            (Nat.lt_succ_of_le hshorter) hothers, hend⟩

/-- The end of an array with items: a comma may stand behind the last of them. -/
theorem array_cons {found : Value} {others : List Value} {input left last : List Char}
    (hfirst : spacedItem (value depth) input = some (found, left))
    (hothers : Series (do symbol ","; spacedItem (value depth)) left others last)
    {comma : Option Unit} {behind : List Char}
    (hcomma : maybe (symbol ",") last = some (comma, behind))
    (hspace : spacing behind = some ((), ']' :: rest)) :
    array (value depth) ('[' :: input) = some (.array (found :: others), rest) := by
  have hitems : separated (spacedItem (value depth)) (symbol ",") input =
      some (found :: others, last) := by
    refine orElse_of_some ?_
    rw [separated1, bind_of_some hfirst, bind_of_some (many_of_series hothers), pure_apply]
  rw [array, bind_of_some (symbol_cons rfl _), ← spacedItem, bind_of_some hitems]
  exact (bind_of_some hcomma _).trans ((bind_of_some hspace _).trans
    (bind_of_some (symbol_cons rfl _) _))

theorem array_append {inner : String} {values : List Value}
    (hitems : Items (ItemAs depth) inner values) (rest : List Char) :
    array (value depth) ('[' :: (inner.toList ++ ']' :: rest)) = some (.array values, rest) := by
  have hread := readsItems_append hitems rest
  cases values with
  | nil =>
      have hnone : separated (spacedItem (value depth)) (symbol ",")
          (inner.toList ++ ']' :: rest) = some ([], inner.toList ++ ']' :: rest) := by
        refine (orElse_of_none (bind_of_none ?_ _)).trans (pure_apply _ _)
        exact spacedItem_bracket hread
      rw [array, bind_of_some (symbol_cons rfl _), ← spacedItem, bind_of_some hnone]
      exact (bind_of_some hread _).trans (bind_of_some (symbol_cons rfl _) _)
  | cons found others =>
      obtain ⟨left, last, hfirst, -, hothers, comma, behind, hcomma, hspace⟩ := hread
      exact array_cons hfirst hothers hcomma hspace

end Reader

/-! Items. -/

theorem Reader.solid_of_digit {first : Char} (hdigit : first.isDigit = true)
    (others : List Char) : Reader.Solid (first :: others) := by
  refine ⟨first, others, rfl, ?_, ?_, ?_, ?_⟩
  · refine Bool.or_eq_false_iff.mpr ⟨beq_false_of_ne ?_, beq_false_of_ne ?_⟩ <;>
      (intro hsame; subst hsame; cases hdigit)
  all_goals intro hsame; subst hsame; cases hdigit

theorem Reader.solid_toDigits (number : Nat) (rest : List Char) :
    Reader.Solid (Nat.toDigits 10 number ++ rest) := by
  obtain ⟨first, others, htext⟩ :=
    List.exists_cons_of_ne_nil (isWhole_toDigits number).nonempty
  rw [htext]
  exact solid_of_digit ((isWhole_toDigits number).digits first (htext ▸ List.mem_cons_self)) _

theorem ItemAs.string (depth : Nat) (text : String) :
    ItemAs depth (quoted text) (.string text) where
  reads := readsAs_string depth text
  solid := by
    intro rest
    rw [quoted, String.toList_ofList]
    cases Quotation.ofText text.toList <;> exact ⟨_, _, rfl, by decide⟩

theorem ItemAs.real (depth : Nat) {numeral value : Numeral}
    (hread : Reader.real (realText numeral).toList = some (value, [])) :
    ItemAs depth (realText numeral) (.real value) where
  reads := readsAs_real depth hread
  solid := by
    intro rest
    obtain ⟨whole, behind, htext⟩ | ⟨first, hmark, others, htext⟩ := Reader.realText_cases numeral
    · rw [htext, List.append_assoc]
      exact Reader.solid_toDigits whole _
    · have hmarks : ∀ first ∈ ['-', 'i', 'n'], isBlank first = false ∧ first ≠ '\n' ∧
          first ≠ '\r' ∧ first ≠ '#' := by
        simp [isBlank]
      rw [htext]
      exact ⟨first, others ++ rest, rfl, hmarks first hmark⟩

theorem ItemAs.integer (depth : Nat) {number : Nat} (hnumber : isInteger number = true) :
    ItemAs depth (toString number) (.integer number) where
  reads := readsAs_integer depth hnumber
  solid := by
    intro rest
    rw [toList_toString]
    exact Reader.solid_toDigits number rest

theorem ItemAs.array {depth : Nat} {inner : String} {values : List Value}
    (hitems : Items (ItemAs depth) inner values) :
    ItemAs (depth + 1) ("[" ++ inner ++ "]") (.array values) where
  reads := by
    intro rest _
    have hread := Reader.array_append hitems rest
    have hsplit : ("[" ++ inner ++ "]").toList ++ rest =
        '[' :: (inner.toList ++ ']' :: rest) := by
      simp
    rw [hsplit, Reader.value, Reader.orElse_of_none (Reader.scalar_open_eq_none _),
      Reader.orElse_of_some hread]
  solid := by
    intro rest
    exact ⟨'[', inner.toList ++ ']' :: rest, by simp, by decide⟩

namespace Reader

/-! Lines. -/

/-- The rest of a document: its statements, with no blanks in front of the first. -/
structure Follows (input : List Char) (statements : List Statement) : Prop where
  head : ∀ first ∈ input.head?, isBlank first = false
  series : Series statement input statements []

theorem Follows.nil : Follows [] [] where
  head := nofun
  series := .stop rfl

/-- What a line is read as, behind which others follow. -/
theorem Follows.line {input : List Char} {found : Statement} {statements : List Statement}
    (hhead : ∀ first ∈ input.head?, isBlank first = false) (hless : rest.length < input.length)
    (hread : ((do comment; newline <|> atEnd; return Statement.nothing) <|>
      (do newline; return Statement.nothing) <|> elementHeader <|> tableHeader <|> assignment)
        input = some (found, rest))
    (hrest : Follows rest statements) : Follows input (found :: statements) where
  head := hhead
  series := by
    refine .next ?_ hless hrest.series
    rw [statement, bind_of_some hread, bind_of_some (blanks_of_other hrest.head), pure_apply]

theorem Follows.blankLine {statements : List Statement} (hrest : Follows rest statements) :
    Follows ('\n' :: rest) (.nothing :: statements) := by
  have hcomment : comment ('\n' :: rest) = none := rfl
  refine .line (fun _ hfirst => Option.some.inj hfirst ▸ rfl) (Nat.lt_succ_self _) ?_ hrest
  refine (orElse_of_none (bind_of_none hcomment _)).trans (orElse_of_some ?_)
  exact bind_of_some (newline_line rest) _

theorem lineEnd_line (rest : List Char) : lineEnd ('\n' :: rest) = some ((), rest) := by
  have hblanks : blanks ('\n' :: rest) = some ((), '\n' :: rest) :=
    blanks_of_other fun _ hfirst => Option.some.inj hfirst ▸ rfl
  have hcomment : comment ('\n' :: rest) = none := rfl
  rw [lineEnd, bind_of_some hblanks, bind_of_some (maybe_of_none hcomment)]
  exact orElse_of_some (newline_line rest)

end Reader

namespace IsBareKey

open Reader

theorem isBare {text : String} (htext : IsBareKey text) :
    ∀ char ∈ text.toList, Reader.isBare char = true := by
  intro char hchar
  obtain halphanum | rfl | rfl := htext.bare char hchar
  · rw [Reader.isBare, halphanum]
    rfl
  · rfl
  · rfl

theorem head {text : String} (htext : IsBareKey text) :
    ∃ first others, text.toList = first :: others ∧ Reader.isBare first = true := by
  obtain ⟨first, others, hsplit⟩ := List.exists_cons_of_ne_nil htext.nonempty
  exact ⟨first, others, hsplit, htext.isBare first (hsplit ▸ List.mem_cons_self)⟩

theorem head_ne {text : String} (htext : IsBareKey text) {char : Char}
    (hchar : Reader.isBare char = false) (behind : List Char) :
    (text.toList ++ behind).head? ≠ some char := by
  obtain ⟨first, others, hsplit, hfirst⟩ := htext.head
  rw [hsplit]
  intro hsame
  obtain rfl := Option.some.inj hsame
  cases hchar.symm.trans hfirst

theorem not_blank {text : String} (htext : IsBareKey text) (behind : List Char) :
    ∀ first ∈ (text.toList ++ behind).head?, isBlank first = false := by
  intro first hfirst
  refine Bool.eq_false_iff.mpr fun hblank => ?_
  obtain hspace | htab := Bool.or_eq_true_iff.mp hblank
  · exact htext.head_ne rfl behind (eq_of_beq hspace ▸ hfirst)
  · exact htext.head_ne rfl behind (eq_of_beq htab ▸ hfirst)

end IsBareKey

namespace Reader

variable {rest : List Char}

theorem simpleKey_append {text : String} (htext : IsBareKey text) {behind : List Char}
    (hbehind : ∀ first ∈ behind.head?, isBare first = false)
    (hblanks : blanks behind = some ((), rest)) :
    simpleKey (text.toList ++ behind) = some (text, rest) := by
  have hbasic : basicString (text.toList ++ behind) = none :=
    bind_of_none (symbol_eq_none rfl (htext.head_ne rfl behind)) _
  have hliteral : literalString (text.toList ++ behind) = none :=
    bind_of_none (symbol_eq_none rfl (htext.head_ne rfl behind)) _
  have hbare := (orElse_of_none hbasic).trans ((orElse_of_none hliteral).trans
    (run1_append htext.nonempty htext.isBare hbehind))
  rw [simpleKey, bind_of_some (blanks_of_other (htext.not_blank behind)), bind_of_some hbare,
    bind_of_some hblanks, pure_apply, String.ofList_toList]

theorem key_append {text : String} (htext : IsBareKey text) {behind : List Char}
    (hbehind : ∀ first ∈ behind.head?, isBare first = false)
    (hblanks : blanks behind = some ((), rest)) (hrest : rest.head? ≠ some '.') :
    key (text.toList ++ behind) = some (⟨[], text⟩, rest) := by
  have hstop : Series (do symbol "."; simpleKey) rest [] rest :=
    .stop (bind_of_none (symbol_eq_none rfl hrest) _)
  have hparts : separated1 simpleKey (symbol ".") (text.toList ++ behind) =
      some ([text], rest) := by
    rw [separated1, bind_of_some (simpleKey_append htext hbehind hblanks),
      bind_of_some (many_of_series hstop), pure_apply]
  rw [key, bind_of_some hparts]
  rfl

theorem blanks_space {input : List Char} (hinput : ∀ first ∈ input.head?, isBlank first = false) :
    blanks (' ' :: input) = some ((), input) := by
  have hrun : run isBlank ([' '] ++ input) = some ([' '], input) :=
    run_append (List.all_eq_true.mp rfl) hinput
  exact (bind_of_some hrun _).trans (pure_apply _ _)

/-! The lines of a document. -/

variable {statements : List Statement}

theorem assignment_append {name text : String} {found : Value} (hname : IsBareKey name)
    (hitem : ItemAs depthLimit text found) (rest : List Char) :
    assignment (name.toList ++ (' ' :: '=' :: ' ' :: (text.toList ++ '\n' :: rest))) =
      some (.assign ⟨[], name⟩ found, rest) := by
  have hequals : blanks (' ' :: '=' :: ' ' :: (text.toList ++ '\n' :: rest)) =
      some ((), '=' :: ' ' :: (text.toList ++ '\n' :: rest)) := blanks_space (head_cons rfl _)
  have hkey := key_append hname (head_cons rfl _) hequals (by simp)
  have hblanks : blanks (' ' :: (text.toList ++ '\n' :: rest)) =
      some ((), text.toList ++ '\n' :: rest) := by
    obtain ⟨first, others, hsolid, hblank, -⟩ := hitem.solid ('\n' :: rest)
    rw [hsolid]
    exact blanks_space (head_cons hblank _)
  rw [assignment, bind_of_some hkey, bind_of_some (symbol_cons rfl _), bind_of_some hblanks,
    bind_of_some (hitem.reads _ (endsValue_line rest)), bind_of_some (lineEnd_line rest),
    pure_apply]

theorem Follows.assign {name text : String} {found : Value} (hname : IsBareKey name)
    (hitem : ItemAs depthLimit text found) (hrest : Follows rest statements) :
    Follows ((Toml.assignment name text).toList ++ rest)
      (.assign ⟨[], name⟩ found :: statements) := by
  let behind := ' ' :: '=' :: ' ' :: (text.toList ++ '\n' :: rest)
  have hsplit : (Toml.assignment name text).toList ++ rest = name.toList ++ behind := by
    simp [Toml.assignment, behind]
  have hcomment : comment (name.toList ++ behind) = none :=
    bind_of_none (symbol_eq_none rfl (hname.head_ne rfl behind)) _
  have hline : newline (name.toList ++ behind) = none :=
    newline_eq_none (hname.head_ne rfl behind) (hname.head_ne rfl behind)
  have helement : elementHeader (name.toList ++ behind) = none :=
    bind_of_none (symbol_eq_none rfl (hname.head_ne rfl behind)) _
  have htable : tableHeader (name.toList ++ behind) = none :=
    bind_of_none (symbol_eq_none rfl (hname.head_ne rfl behind)) _
  rw [hsplit]
  refine .line (hname.not_blank behind) (by simp [behind]; omega) ?_ hrest
  exact (orElse_of_none (bind_of_none hcomment _)).trans ((orElse_of_none
    (bind_of_none hline _)).trans ((orElse_of_none helement).trans ((orElse_of_none htable).trans
      (assignment_append hname hitem rest))))

/-- The name in a header. -/
theorem key_bracket {name : String} (hname : IsBareKey name) (rest : List Char) :
    key (name.toList ++ ']' :: rest) = some (⟨[], name⟩, ']' :: rest) :=
  key_append hname (head_cons rfl _) (blanks_of_other (head_cons rfl _)) (by simp)

/-- A line that starts with a bracket is a header. -/
theorem Follows.header {input : List Char} {found : Statement}
    (hless : rest.length < ('[' :: input).length)
    (hread : (elementHeader <|> tableHeader) ('[' :: input) = some (found, rest))
    (hrest : Follows rest statements) : Follows ('[' :: input) (found :: statements) := by
  have hcomment : comment ('[' :: input) = none :=
    bind_of_none (symbol_cons_eq_none rfl (by decide)) _
  have hline : newline ('[' :: input) = none := newline_eq_none (by simp) (by simp)
  refine .line (head_cons rfl _) hless ?_ hrest
  refine (orElse_of_none (bind_of_none hcomment _)).trans
    ((orElse_of_none (bind_of_none hline _)).trans ?_)
  rw [← orElse_assoc, orElse_of_some hread]

theorem Follows.table {name : String} (hrest : Follows rest statements) (hname : IsBareKey name) :
    Follows ('[' :: (name.toList ++ ']' :: '\n' :: rest))
      (.openTable ⟨[], name⟩ :: statements) := by
  have helement : elementHeader ('[' :: (name.toList ++ ']' :: '\n' :: rest)) = none := by
    have hother : (name.toList ++ ']' :: '\n' :: rest).head? ≠ some '[' := hname.head_ne rfl _
    refine bind_of_none (exactly_eq_none fun hprefix => hother ?_) _
    obtain ⟨back, hsplit⟩ := hprefix
    rw [← (List.cons.inj hsplit).2]
    rfl
  refine .header (by simp; omega) ((orElse_of_none helement).trans ?_) hrest
  rw [tableHeader, bind_of_some (symbol_cons rfl _), bind_of_some (key_bracket hname _),
    bind_of_some (symbol_cons rfl _), bind_of_some (lineEnd_line rest), pure_apply]

theorem Follows.element {name : String} (hrest : Follows rest statements) (hname : IsBareKey name) :
    Follows ('[' :: '[' :: (name.toList ++ ']' :: ']' :: '\n' :: rest))
      (.openElement ⟨[], name⟩ :: statements) := by
  have hopen : symbol "[[" (['[', '['] ++ (name.toList ++ ']' :: ']' :: '\n' :: rest)) =
      some ((), name.toList ++ ']' :: ']' :: '\n' :: rest) := symbol_append rfl _
  have hclose : symbol "]]" ([']', ']'] ++ '\n' :: rest) = some ((), '\n' :: rest) :=
    symbol_append rfl _
  refine .header (by simp; omega) (orElse_of_some ?_) hrest
  refine (bind_of_some hopen _).trans ((bind_of_some (key_bracket hname _) _).trans ?_)
  exact (bind_of_some hclose _).trans ((bind_of_some (lineEnd_line rest) _).trans (pure_apply _ _))

theorem document_of_follows {input : List Char} (hfollows : Follows input statements)
    (hmark : input.head? ≠ some '\ufeff') : document input = some (statements, []) := by
  have hnone : char (· == '\ufeff') input = none :=
    char_of_false fun first hfirst => beq_false_of_ne fun hsame => hmark (hsame ▸ hfirst)
  rw [document, bind_of_some (maybe_of_none hnone),
    bind_of_some (blanks_of_other hfollows.head), bind_of_some (many_of_series hfollows.series)]
  rfl

end Reader

/-- A document is what its statements make of the empty table. -/
theorem parse?_of_follows {text : String} {statements : List Statement}
    (hfollows : Reader.Follows text.toList statements)
    (hmark : text.toList.head? ≠ some '\ufeff') :
    parse? text = (statements.foldlM Progress.apply Progress.start).map Progress.root := by
  rw [parse?, Reader.document_of_follows hfollows hmark]
  change (statements.foldlM Progress.apply Progress.start).bind (fun progress =>
    some progress.root) = _
  cases statements.foldlM Progress.apply Progress.start <;> rfl

end Toml

end TiledPlacement
