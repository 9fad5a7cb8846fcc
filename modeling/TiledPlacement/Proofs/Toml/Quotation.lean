import TiledPlacement.Proofs.Toml.Reader
import TiledPlacement.Toml.Writer

/-!
Every string is read as it is written. Between double quotes each character is read from its
escape, or together with the plain characters around it. Between triple quotes up to two quotes in a
row belong to the text, in front of the last three as well, and the newline behind the first three
does not.
-/

namespace TiledPlacement

namespace Toml

namespace Reader

variable {α : Type} {input rest last text : List Char}

theorem orElse_assoc (first second third : Reader α) :
    ((first <|> second) <|> third) = (first <|> second <|> third) := by
  funext input
  change ((first input <|> second input) <|> third input) =
    (first input <|> (second input <|> third input))
  cases first input <;> rfl

/-- A text is read in pieces: as many characters as pass a test, or what another reader makes of
the next ones. -/
def ReadsPieces (test : Char → Bool) (other : Reader (List Char)) (input text rest : List Char) :
    Prop :=
  ∃ pieces, Series (run1 test <|> other) input pieces rest ∧ pieces.flatten = text

variable {test : Char → Bool} {other : Reader (List Char)}

theorem ReadsPieces.stop (htest : ∀ first ∈ rest.head?, test first = false)
    (hother : other rest = none) : ReadsPieces test other rest [] rest :=
  ⟨[], .stop ((orElse_of_none (run1_eq_none htest)).trans hother), rfl⟩

theorem ReadsPieces.piece {piece : List Char} (htest : ∀ first ∈ input.head?, test first = false)
    (hread : other input = some (piece, rest)) (hless : rest.length < input.length)
    (hrest : ReadsPieces test other rest text last) :
    ReadsPieces test other input (piece ++ text) last := by
  obtain ⟨pieces, hseries, rfl⟩ := hrest
  have hitem := (orElse_of_none (run1_eq_none htest)).trans hread
  exact ⟨piece :: pieces, .next hitem hless hseries, rfl⟩

theorem ReadsPieces.plain {first : Char} (hfirst : test first = true)
    (hrest : ReadsPieces test other input text last) :
    ReadsPieces test other (first :: input) (first :: text) last := by
  obtain ⟨pieces, hseries, rfl⟩ := hrest
  cases input with
  | nil =>
      have hitem : (run1 test <|> other) [first] = some ([first], []) :=
        orElse_of_some (run1_cons hfirst [])
      exact ⟨[first] :: pieces, .next hitem (Nat.lt_succ_self _) hseries, rfl⟩
  | cons next others =>
      by_cases hnext : test next = true
      · have htogether : (run1 test <|> other) (next :: others) =
            some (next :: others.takeWhile test, others.dropWhile test) :=
          orElse_of_some (run1_cons hnext others)
        have hitem : (run1 test <|> other) (first :: next :: others) =
            some (first :: next :: others.takeWhile test, others.dropWhile test) := by
          rw [orElse_of_some (run1_cons hfirst (next :: others)),
            List.takeWhile_cons_of_pos hnext, List.dropWhile_cons_of_pos hnext]
        cases hseries with
        | stop hnone => cases htogether.symm.trans hnone
        | next hread hless hrest =>
            cases htogether.symm.trans hread
            exact ⟨_ :: _, .next hitem (Nat.lt_succ_of_lt hless) hrest, rfl⟩
      · have hitem : (run1 test <|> other) (first :: next :: others) =
            some ([first], next :: others) := by
          rw [orElse_of_some (run1_cons hfirst (next :: others)),
            List.takeWhile_cons_of_neg hnext, List.dropWhile_cons_of_neg hnext]
        exact ⟨[first] :: pieces, .next hitem (Nat.lt_succ_self _) hseries, rfl⟩

theorem ReadsPieces.many {input text rest : List Char}
    (hreads : ReadsPieces test other input text rest) :
    ∃ pieces, Reader.many (run1 test <|> other) input = some (pieces, rest) ∧
      pieces.flatten = text := by
  obtain ⟨pieces, hseries, htext⟩ := hreads
  exact ⟨pieces, many_of_series hseries, htext⟩

/-! Escapes. -/

theorem repeated_append (htext : ∀ char ∈ text, test char = true) (rest : List Char) :
    repeated (char test) text.length (text ++ rest) = some (text, rest) := by
  induction text with
  | nil => rfl
  | cons first text induction =>
      have hothers : ∀ char ∈ text, test char = true := fun char hchar =>
        htext char (List.mem_cons_of_mem _ hchar)
      rw [List.length_cons, List.cons_append, repeated,
        bind_of_some (char_of_true (htext first List.mem_cons_self)),
        bind_of_some (induction hothers), pure_apply]

theorem codePoint_append (htext : ∀ char ∈ text, isHexDigit char = true) {char : Char}
    (hnumber : Digits.number 16 text = char.toNat) (rest : List Char) :
    codePoint text.length (text ++ rest) = some (char, rest) := by
  have hvalid : (Digits.number 16 text).isValidChar := hnumber ▸ char.valid
  rw [codePoint, bind_of_some (repeated_append htext rest)]
  rw [if_pos hvalid, hnumber, Char.ofNat_toNat, pure_apply]

end Reader

theorem hexDigit_spec : ∀ number < 128,
    (∀ digit ∈ ['0', '0', hexDigit (number / 16), hexDigit (number % 16)],
        isHexDigit digit = true) ∧
      Digits.number 16 ['0', '0', hexDigit (number / 16), hexDigit (number % 16)] = number := by
  simp only [← List.all_eq_true]
  decide

theorem escape_control {char : Char} (hchar : char.toNat < 128) (rest : List Char) :
    Reader.escape ('\\' :: 'u' :: '0' :: '0' :: hexDigit (char.toNat / 16) ::
      hexDigit (char.toNat % 16) :: rest) = some (char, rest) := by
  obtain ⟨hdigits, hnumber⟩ := hexDigit_spec char.toNat hchar
  generalize hexDigit (char.toNat / 16) = high at *
  generalize hexDigit (char.toNat % 16) = low at *
  exact Reader.codePoint_append hdigits hnumber rest

/-- What may stand behind a backslash that starts an escape as it is written here. -/
def escapeMarks : List Char := ['"', '\\', 'b', 't', 'n', 'f', 'r', 'u']

/-- A character stands for itself and may stand between double quotes, or it is read from an
escape. -/
theorem escaped_cases (char : Char) :
    (escaped char = [char] ∧ Reader.isBasic char = true) ∨
      ∃ mark others, escaped char = '\\' :: mark :: others ∧ mark ∈ escapeMarks ∧
        ∀ rest, Reader.escape (escaped char ++ rest) = some (char, rest) := by
  by_cases hquote : char = '"'
  · subst hquote
    exact .inr ⟨_, _, rfl, by decide, fun _ => rfl⟩
  by_cases hbackslash : char = '\\'
  · subst hbackslash
    exact .inr ⟨_, _, rfl, by decide, fun _ => rfl⟩
  by_cases hbackspace : char = '\x08'
  · subst hbackspace
    exact .inr ⟨_, _, rfl, by decide, fun _ => rfl⟩
  by_cases htab : char = '\t'
  · subst htab
    exact .inr ⟨_, _, rfl, by decide, fun _ => rfl⟩
  by_cases hnewline : char = '\n'
  · subst hnewline
    exact .inr ⟨_, _, rfl, by decide, fun _ => rfl⟩
  by_cases hfeed : char = '\x0c'
  · subst hfeed
    exact .inr ⟨_, _, rfl, by decide, fun _ => rfl⟩
  by_cases hreturn : char = '\r'
  · subst hreturn
    exact .inr ⟨_, _, rfl, by decide, fun _ => rfl⟩
  rw [escaped, if_neg hquote, if_neg hbackslash, if_neg hbackspace, if_neg htab, if_neg hnewline,
    if_neg hfeed, if_neg hreturn]
  by_cases hcontrol : char < ' ' ∨ char = '\x7f'
  · have hsmall : char.toNat < 128 := by
      obtain hless | rfl := hcontrol
      · exact Nat.lt_trans (show char.toNat < 32 from hless) (by decide)
      · decide
    rw [if_pos hcontrol]
    exact .inr ⟨_, _, rfl, by decide, escape_control hsmall⟩
  · obtain ⟨hless, hdelete⟩ := not_or.mp hcontrol
    rw [if_neg hcontrol]
    refine .inl ⟨rfl, ?_⟩
    have hplain : ' ' ≤ char := Char.not_lt.mp hless
    simp [Reader.isBasic, isPlain, hplain, hdelete, hquote, hbackslash]

theorem escaped_head (char : Char) : ∃ first others, escaped char = first :: others ∧
    first ≠ '"' ∧ first ≠ '\n' ∧ first ≠ '\r' := by
  obtain ⟨hself, hbasic⟩ | ⟨mark, others, hescaped, -⟩ := escaped_cases char
  · refine ⟨char, [], hself, ?_, ?_, ?_⟩ <;> (intro hsame; subst hsame; cases hbasic)
  · exact ⟨'\\', _, hescaped, by decide⟩

namespace Reader

/-- One character from its escape. -/
def escapedPiece : Reader (List Char) := do return [← escape]

theorem escapedPiece_of_some {char : Char} (hread : escape input = some (char, rest)) :
    escapedPiece input = some ([char], rest) := by
  rw [escapedPiece, bind_of_some hread, pure_apply]

theorem escapedPiece_eq_none (hinput : input.head? ≠ some '\\') : escapedPiece input = none :=
  bind_of_none (bind_of_none (symbol_eq_none rfl hinput) _) _

theorem ReadsPieces.escaped (char : Char)
    (hother : ∀ mark ∈ escapeMarks, ∀ left found,
      escapedPiece ('\\' :: mark :: left) = some found → other ('\\' :: mark :: left) = some found)
    (hrest : ReadsPieces isBasic other input text last) :
    ReadsPieces isBasic other (Toml.escaped char ++ input) (char :: text) last := by
  obtain ⟨hself, hbasic⟩ | ⟨mark, others, hescaped, hmark, hread⟩ := escaped_cases char
  · rw [hself]
    exact .plain hbasic hrest
  · have hpiece := escapedPiece_of_some (hread input)
    rw [hescaped, List.cons_append, List.cons_append] at hpiece ⊢
    refine ReadsPieces.piece ?_ (hother mark hmark _ _ hpiece) ?_ hrest
    · exact fun _ hfirst => Option.some.inj hfirst ▸ rfl
    · simp only [List.length_cons, List.length_append]
      omega

/-! Single quotes of either kind. -/

theorem readsPieces_basic (text rest : List Char) :
    ReadsPieces isBasic escapedPiece (Quotation.basic.escapedText 0 text ++ '"' :: rest) text
      ('"' :: rest) := by
  induction text with
  | nil => exact .stop (fun _ hfirst => Option.some.inj hfirst ▸ rfl) rfl
  | cons char text induction =>
      have hstep : Quotation.basic.escapedText 0 (char :: text) =
          Toml.escaped char ++ Quotation.basic.escapedText 0 text := by
        simp [Quotation.escapedText, Quotation.innerLimit, Quotation.isMultiline]
      rw [hstep, List.append_assoc]
      exact .escaped char (fun _ _ _ _ hread => hread) induction

theorem basicString_append (text rest : List Char) :
    basicString ('"' :: (Quotation.basic.escapedText 0 text ++ '"' :: rest)) =
      some (text, rest) := by
  obtain ⟨pieces, hpieces, rfl⟩ := (readsPieces_basic text rest).many
  rw [basicString, bind_of_some (symbol_cons rfl _), ← escapedPiece, bind_of_some hpieces,
    bind_of_some (symbol_cons rfl _), pure_apply]

theorem literalString_append (htext : ∀ char ∈ text, isLiteral char = true) (rest : List Char) :
    literalString ('\'' :: (text ++ '\'' :: rest)) = some (text, rest) := by
  have hrun : run isLiteral (text ++ '\'' :: rest) = some (text, '\'' :: rest) :=
    run_append htext fun _ hfirst => Option.some.inj hfirst ▸ rfl
  rw [literalString, bind_of_some (symbol_cons rfl _), bind_of_some hrun,
    bind_of_some (symbol_cons rfl _), pure_apply]

/-! Triple quotes of either kind. -/

/-- Readers of the pieces between triple quotes: they take up to two quotes in front of other text,
refuse those that close the text, and take newlines. -/
structure TripleQuoted (quote : Char) (test : Char → Bool) (other : Reader (List Char)) :
    Prop where
  test_quote : test quote = false
  test_newline : test '\n' = false
  quotes : ∀ {run : Nat}, run ≤ 1 → ∀ {first : Char} {rest : List Char}, first ≠ quote →
    other (List.replicate (run + 1) quote ++ first :: rest) =
      some (List.replicate (run + 1) quote, first :: rest)
  closing : ∀ {run : Nat}, run ≤ 2 → ∀ {rest : List Char}, rest.head? ≠ some quote →
    other (List.replicate (run + 3) quote ++ rest) = none
  line : ∀ {rest : List Char}, other ('\n' :: rest) = some (['\n'], rest)

/-- A text is read in pieces up to the quotes that close it. -/
def ReadsQuoted (quote : Char) (test : Char → Bool) (other : Reader (List Char))
    (input text rest : List Char) : Prop :=
  ∃ front back left, ReadsPieces test other input front left ∧
    closingQuotes quote left = some (back, rest) ∧ front ++ back = text

variable {quote : Char}

/-- More quotes than there are cannot be read. -/
theorem exactly_quotes_eq_none {count more : Nat} (hless : count < more)
    (hrest : rest.head? ≠ some quote) :
    exactly (List.replicate more quote) (List.replicate count quote ++ rest) = none := by
  refine exactly_eq_none fun hprefix => hrest ?_
  obtain ⟨back, hsplit⟩ := hprefix
  obtain ⟨extra, rfl⟩ := Nat.exists_eq_add_of_lt hless
  rw [Nat.add_assoc, ← List.replicate_append_replicate, List.append_assoc] at hsplit
  rw [← List.append_cancel_left hsplit]
  rfl

theorem closingQuotes_append {run : Nat} (hrun : run ≤ 2) (hrest : rest.head? ≠ some quote) :
    closingQuotes quote (List.replicate (run + 3) quote ++ rest) =
      some (List.replicate run quote, rest) := by
  have hread := exactly_append (List.replicate (run + 3) quote) rest
  have hmore : ∀ more, run + 3 < more →
      exactly (List.replicate more quote) (List.replicate (run + 3) quote ++ rest) = none :=
    fun _ hless => exactly_quotes_eq_none hless hrest
  obtain rfl | rfl | rfl : run = 0 ∨ run = 1 ∨ run = 2 := by omega
  · rw [closingQuotes, orElse_of_none (bind_of_none (hmore 5 (by decide)) _),
      orElse_of_none (bind_of_none (hmore 4 (by decide)) _), bind_of_some hread]
    rfl
  · rw [closingQuotes, orElse_of_none (bind_of_none (hmore 5 (by decide)) _),
      orElse_of_some ((bind_of_some hread _).trans rfl)]
    rfl
  · exact orElse_of_some ((bind_of_some hread _).trans rfl)

theorem innerQuotes_append {run : Nat} (hrun : run ≤ 1) {first : Char} (hfirst : first ≠ quote) :
    innerQuotes quote (List.replicate (run + 1) quote ++ first :: rest) =
      some (List.replicate (run + 1) quote, first :: rest) := by
  have hread := exactly_append (List.replicate (run + 1) quote) (first :: rest)
  have hother : (first :: rest).head? ≠ some quote := fun hsame => hfirst (Option.some.inj hsame)
  have hahead : ahead (· != quote) (first :: rest) = some ((), first :: rest) :=
    ahead_of_true (bne_iff_ne.mpr hfirst)
  obtain rfl | rfl : run = 0 ∨ run = 1 := by omega
  · have hmore := exactly_quotes_eq_none (show 1 < 2 by decide) hother
    refine (orElse_of_none (bind_of_none hmore _)).trans ((bind_of_some hread _).trans ?_)
    rw [bind_of_some hahead]
    rfl
  · refine orElse_of_some ((bind_of_some hread _).trans ?_)
    rw [bind_of_some hahead]
    rfl

theorem innerQuotes_eq_none {run : Nat} (rest : List Char) :
    innerQuotes quote (List.replicate (run + 3) quote ++ rest) = none := by
  have hahead : ∀ count, ahead (· != quote) (List.replicate (count + 1) quote ++ rest) = none := by
    refine fun count => ahead_of_false fun first hfirst => ?_
    obtain rfl := Option.some.inj hfirst
    exact bne_self_eq_false _
  have htwo : exactly [quote, quote] (List.replicate (run + 3) quote ++ rest) =
      some ((), List.replicate (run + 1) quote ++ rest) := exactly_append [quote, quote] _
  have hone : exactly [quote] (List.replicate (run + 3) quote ++ rest) =
      some ((), List.replicate (run + 2) quote ++ rest) := exactly_append [quote] _
  rw [innerQuotes, orElse_of_none ((bind_of_some htwo _).trans (bind_of_none (hahead run) _)),
    bind_of_some hone, bind_of_none (hahead (run + 1))]

theorem ReadsQuoted.stop (htriple : TripleQuoted quote test other) {run : Nat} (hrun : run ≤ 2)
    (hrest : rest.head? ≠ some quote) :
    ReadsQuoted quote test other (List.replicate (run + 3) quote ++ rest)
      (List.replicate run quote) rest := by
  refine ⟨[], _, _, .stop ?_ (htriple.closing hrun hrest), closingQuotes_append hrun hrest, rfl⟩
  exact fun _ hfirst => Option.some.inj hfirst ▸ htriple.test_quote

theorem ReadsQuoted.line (htriple : TripleQuoted quote test other)
    (hrest : ReadsQuoted quote test other input text rest) :
    ReadsQuoted quote test other ('\n' :: input) ('\n' :: text) rest := by
  obtain ⟨front, back, left, hpieces, hclose, rfl⟩ := hrest
  refine ⟨['\n'] ++ front, back, left, .piece ?_ htriple.line (Nat.lt_succ_self _) hpieces, hclose,
    rfl⟩
  exact fun _ hfirst => Option.some.inj hfirst ▸ htriple.test_newline

theorem ReadsQuoted.plain {first : Char} (hfirst : test first = true)
    (hrest : ReadsQuoted quote test other input text rest) :
    ReadsQuoted quote test other (first :: input) (first :: text) rest := by
  obtain ⟨front, back, left, hpieces, hclose, rfl⟩ := hrest
  exact ⟨first :: front, back, left, .plain hfirst hpieces, hclose, rfl⟩

theorem ReadsQuoted.quotes (htriple : TripleQuoted quote test other) {run : Nat} (hrun : run ≤ 2)
    {first : Char} (hfirst : first ≠ quote)
    (hrest : ReadsQuoted quote test other (first :: input) text rest) :
    ReadsQuoted quote test other (List.replicate run quote ++ first :: input)
      (List.replicate run quote ++ text) rest := by
  cases run with
  | zero => exact hrest
  | succ run =>
      obtain ⟨front, back, left, hpieces, hclose, rfl⟩ := hrest
      have hread : other (List.replicate (run + 1) quote ++ first :: input) =
          some (List.replicate (run + 1) quote, first :: input) :=
        htriple.quotes (Nat.le_of_succ_le_succ hrun) hfirst
      refine ⟨List.replicate (run + 1) quote ++ front, back, left, .piece ?_ hread ?_ hpieces,
        hclose, List.append_assoc _ _ _⟩
      · exact fun _ hhead => Option.some.inj hhead ▸ htriple.test_quote
      · simp

/-! Readers that stand between triple quotes. -/

/-- A line break within a text. -/
def lineBreak : Reader (List Char) := do newline; return ['\n']

theorem newline_line (rest : List Char) : newline ('\n' :: rest) = some ((), rest) :=
  orElse_of_some (symbol_cons rfl rest)

theorem newline_eq_none (hline : input.head? ≠ some '\n') (hreturn : input.head? ≠ some '\r') :
    newline input = none := by
  rw [newline, orElse_of_none (symbol_eq_none rfl hline), symbol_eq_none rfl hreturn]

theorem lineBreak_eq_none (hline : input.head? ≠ some '\n') (hreturn : input.head? ≠ some '\r') :
    lineBreak input = none :=
  bind_of_none (newline_eq_none hline hreturn) _

theorem lineBreak_line (rest : List Char) : lineBreak ('\n' :: rest) = some (['\n'], rest) := by
  rw [lineBreak, bind_of_some (newline_line rest), pure_apply]

/-- Readers are right for triple quotes when quotes and newlines are left to those made for them. -/
theorem tripleQuoted_of_eq (hquote : test quote = false) (hnewline : test '\n' = false)
    (hapart : quote ≠ '\n' ∧ quote ≠ '\r')
    (hother : ∀ input, input.head? = some quote ∨ input.head? = some '\n' →
      other input = (lineBreak <|> innerQuotes quote) input) : TripleQuoted quote test other where
  test_quote := hquote
  test_newline := hnewline
  quotes := by
    intro run hrun first rest hfirst
    have hhead : (List.replicate (run + 1) quote ++ first :: rest).head? = some quote := rfl
    rw [hother _ (.inl hhead), orElse_of_none, innerQuotes_append hrun hfirst]
    apply lineBreak_eq_none <;> (rw [hhead]; simp [hapart])
  closing := by
    intro run hrun rest hrest
    have hhead : (List.replicate (run + 3) quote ++ rest).head? = some quote := rfl
    rw [hother _ (.inl hhead), orElse_of_none, innerQuotes_eq_none rest]
    apply lineBreak_eq_none <;> (rw [hhead]; simp [hapart])
  line := by
    intro rest
    rw [hother _ (.inr rfl), orElse_of_some (lineBreak_line rest)]

theorem blanks_of_other (hinput : ∀ first ∈ input.head?, isBlank first = false) :
    blanks input = some ((), input) := by
  have hrun : run isBlank input = some ([], input) := run_append (List.forall_mem_nil _) hinput
  rw [blanks, bind_of_some hrun, pure_apply]

theorem lineContinuation_eq_none_of_mark {mark : Char} (hmark : mark ∈ escapeMarks)
    (rest : List Char) : lineContinuation ('\\' :: mark :: rest) = none := by
  have hsome : ∀ mark ∈ escapeMarks, isBlank mark = false ∧ mark ≠ '\n' ∧ mark ≠ '\r' := by
    simp [escapeMarks, isBlank]
  obtain ⟨hblank, hline, hreturn⟩ := hsome mark hmark
  have hblanks : blanks (mark :: rest) = some ((), mark :: rest) :=
    blanks_of_other fun _ hfirst => Option.some.inj hfirst ▸ hblank
  rw [lineContinuation, bind_of_some (symbol_cons rfl _), bind_of_some hblanks, bind_of_none]
  apply newline_eq_none <;> simpa

/-- What may stand between triple double quotes apart from plain characters. -/
def multilinePiece : Reader (List Char) :=
  lineContinuation <|> escapedPiece <|> lineBreak <|> innerQuotes '"'

theorem tripleQuoted_basic : TripleQuoted '"' isBasic multilinePiece := by
  refine tripleQuoted_of_eq rfl rfl (by decide) fun input hhead => ?_
  have hother : input.head? ≠ some '\\' := by
    obtain hhead | hhead := hhead <;> simp [hhead]
  have hcontinue : lineContinuation input = none := bind_of_none (symbol_eq_none rfl hother) _
  rw [multilinePiece, orElse_of_none hcontinue, orElse_of_none (escapedPiece_eq_none hother)]

theorem tripleQuoted_literal :
    TripleQuoted '\'' isLiteral (lineBreak <|> innerQuotes '\'') :=
  tripleQuoted_of_eq rfl rfl (by decide) fun _ _ => rfl

theorem ReadsQuoted.escaped (char : Char)
    (hrest : ReadsQuoted '"' isBasic multilinePiece input text rest) :
    ReadsQuoted '"' isBasic multilinePiece (Toml.escaped char ++ input) (char :: text) rest := by
  obtain ⟨front, back, left, hpieces, hclose, rfl⟩ := hrest
  refine ⟨char :: front, back, left, .escaped char ?_ hpieces, hclose, rfl⟩
  intro mark hmark left found hread
  exact (orElse_of_none (lineContinuation_eq_none_of_mark hmark left)).trans (orElse_of_some hread)

theorem replicate_append_cons (run : Nat) (quote : Char) (rest : List Char) :
    List.replicate run quote ++ quote :: rest = List.replicate (run + 1) quote ++ rest := by
  rw [List.replicate_succ', List.append_assoc]
  rfl

/-- A text between triple double quotes is read as it is written. -/
theorem readsQuoted_basic {rest : List Char} (hrest : rest.head? ≠ some '"') (text : List Char)
    {run : Nat} (hrun : run ≤ 2) :
    ReadsQuoted '"' isBasic multilinePiece
      (List.replicate run '"' ++ (Quotation.multilineBasic.escapedText run text ++
        (List.replicate 3 '"' ++ rest)))
      (List.replicate run '"' ++ text) rest := by
  induction text generalizing run with
  | nil =>
      have hstop := ReadsQuoted.stop tripleQuoted_basic hrun hrest
      rw [← List.replicate_append_replicate, List.append_assoc] at hstop
      rw [List.append_nil]
      exact hstop
  | cons char text induction =>
      rw [Quotation.escapedText]
      split
      next hquote =>
        obtain ⟨rfl, hless⟩ := hquote
        rw [List.cons_append, replicate_append_cons, replicate_append_cons]
        exact induction hless
      next hother =>
        split
        next hline =>
          obtain ⟨rfl, -⟩ := hline
          exact .quotes tripleQuoted_basic hrun (by decide)
            (.line tripleQuoted_basic (induction (Nat.zero_le 2)))
        next =>
          have hescaped := (induction (Nat.zero_le 2)).escaped char
          obtain ⟨first, others, hsplit, hfirst, -⟩ := escaped_head char
          rw [hsplit] at hescaped ⊢
          rw [List.append_assoc]
          exact .quotes tripleQuoted_basic hrun hfirst hescaped

/-- A text between triple single quotes is read as it is. -/
theorem readsQuoted_literal {rest : List Char} (hrest : rest.head? ≠ some '\'') {text : List Char}
    (htext : text.all Quotation.multilineLiteral.admits = true) {run : Nat}
    (hruns : longestRun '\'' run text ≤ 2) :
    ReadsQuoted '\'' isLiteral (lineBreak <|> innerQuotes '\'')
      (List.replicate run '\'' ++ (text ++ (List.replicate 3 '\'' ++ rest)))
      (List.replicate run '\'' ++ text) rest := by
  induction text generalizing run with
  | nil =>
      have hstop := ReadsQuoted.stop tripleQuoted_literal hruns hrest
      rw [← List.replicate_append_replicate, List.append_assoc] at hstop
      rw [List.append_nil]
      exact hstop
  | cons char text induction =>
      rw [List.all_cons, Bool.and_eq_true] at htext
      obtain ⟨hchar, htext⟩ := htext
      rw [longestRun] at hruns
      split at hruns
      next hquote =>
        subst hquote
        rw [List.cons_append, replicate_append_cons, replicate_append_cons]
        exact induction htext hruns
      next hother =>
        obtain ⟨hrun, hruns⟩ := Nat.max_le.mp hruns
        have hreads := induction htext hruns
        refine .quotes tripleQuoted_literal hrun hother ?_
        by_cases hline : char = '\n'
        · subst hline
          exact .line tripleQuoted_literal hreads
        · have hplain : isLiteral char = true := by
            simpa [Quotation.admits, Quotation.hasEscapes, isLiteral, hother, hline] using hchar
          exact .plain hplain hreads

theorem multiline_append {piece : Reader (List Char)} {lead : List Char}
    (hitem : (piece <|> lineBreak <|> innerQuotes quote) = (run1 test <|> other))
    (hreads : ReadsQuoted quote test other input text rest)
    (hlead : lead = ['\n'] ∨ lead = [] ∧ newline input = none) :
    multiline quote piece (List.replicate 3 quote ++ (lead ++ input)) = some (text, rest) := by
  obtain ⟨front, back, left, hpieces, hclose, rfl⟩ := hreads
  obtain ⟨pieces, hmany, rfl⟩ := hpieces.many
  have hline : ∃ found, maybe newline (lead ++ input) = some (found, input) := by
    obtain rfl | ⟨rfl, hnone⟩ := hlead
    · exact ⟨_, maybe_of_some (newline_line input)⟩
    · exact ⟨_, maybe_of_none hnone⟩
  obtain ⟨found, hline⟩ := hline
  rw [multiline, bind_of_some (exactly_append _ _), bind_of_some hline, ← lineBreak, hitem,
    bind_of_some hmany, bind_of_some hclose, pure_apply]

end Reader

/-! The quotes that are chosen. -/

theorem le_longestRun (quote : Char) (run : Nat) (text : List Char) :
    run ≤ longestRun quote run text := by
  induction text generalizing run with
  | nil => exact Nat.le_refl run
  | cons first text induction =>
      rw [longestRun]
      split
      · exact Nat.le_of_succ_le (induction (run + 1))
      · exact Nat.le_max_left _ _

theorem not_mem_of_longestRun {quote : Char} {text : List Char}
    (hrun : longestRun quote 0 text ≤ 0) : quote ∉ text := by
  induction text with
  | nil => exact List.not_mem_nil
  | cons first text induction =>
      rw [longestRun] at hrun
      split at hrun
      · exact absurd (Nat.le_trans (le_longestRun quote 1 text) hrun) (by decide)
      next hother =>
        exact List.not_mem_cons_of_ne_of_not_mem (Ne.symm hother)
          (induction (Nat.max_le.mp hrun).2)

theorem Quotation.ofText_spec (text : List Char) :
    (ofText text).hasEscapes = true ∨ (ofText text).suits text = true := by
  rw [ofText]
  split
  next hfound =>
    have hsuits := List.find?_some hfound
    exact .inr hsuits
  next => split <;> exact .inl rfl

theorem Quotation.isLiteral_of_suits {text : List Char} (hsuits : literal.suits text = true) :
    ∀ char ∈ text, Reader.isLiteral char = true := by
  rw [suits, Bool.and_eq_true, decide_eq_true_iff, List.all_eq_true] at hsuits
  intro char hchar
  have hnone : '\'' ∉ text := not_mem_of_longestRun hsuits.2
  have hother : char ≠ '\'' := fun hsame => hnone (hsame ▸ hchar)
  have hadmits := hsuits.1 char hchar
  simpa [admits, hasEscapes, isMultiline, Reader.isLiteral, hother] using hadmits

/-- The newline behind the first three quotes of a text with several lines. -/
def leadOf (text : List Char) : List Char := if '\n' ∈ text then ['\n'] else []

theorem leadOf_cases (text : List Char) :
    leadOf text = ['\n'] ∨ leadOf text = [] ∧ '\n' ∉ text := by
  rw [leadOf]
  split
  next => exact .inl rfl
  next hnone => exact .inr ⟨rfl, hnone⟩

theorem escapedText_head (quotation : Quotation) {text : List Char} (hline : '\n' ∉ text)
    (rest : List Char) : ∃ first others, quotation.escapedText 0 text ++ '"' :: rest =
      first :: others ∧ first ≠ '\n' ∧ first ≠ '\r' := by
  cases text with
  | nil => exact ⟨'"', rest, rfl, by decide⟩
  | cons char text =>
      rw [Quotation.escapedText]
      split
      · exact ⟨'"', _, rfl, by decide⟩
      · split
        next hnewline => exact absurd (hnewline.1 ▸ List.mem_cons_self) hline
        next =>
          obtain ⟨first, others, hescaped, -, hother⟩ := escaped_head char
          exact ⟨first, _, congrArg (· ++ _ ++ _) hescaped, hother⟩

namespace Reader

variable {rest text : List Char}

theorem newline_eq_none_of_head {input : List Char}
    (hhead : ∃ first others, input = first :: others ∧ first ≠ '\n' ∧ first ≠ '\r') :
    newline input = none := by
  obtain ⟨first, others, rfl, hline, hreturn⟩ := hhead
  exact newline_eq_none (fun hsame => hline (Option.some.inj hsame))
    (fun hsame => hreturn (Option.some.inj hsame))

theorem multilineBasic_append (hrest : rest.head? ≠ some '"') (text : List Char) :
    multilineBasic (List.replicate 3 '"' ++ (leadOf text ++
      (Quotation.multilineBasic.escapedText 0 text ++ (List.replicate 3 '"' ++ rest)))) =
        some (text, rest) := by
  have hitem : ((run1 isBasic <|> lineContinuation <|> escapedPiece) <|> lineBreak <|>
      innerQuotes '"') = (run1 isBasic <|> multilinePiece) := by
    rw [orElse_assoc, orElse_assoc]
    rfl
  refine multiline_append hitem (readsQuoted_basic hrest text (Nat.zero_le 2)) ?_
  refine (leadOf_cases text).imp_right fun hnone => ⟨hnone.1, newline_eq_none_of_head ?_⟩
  exact escapedText_head _ hnone.2 _

theorem multilineLiteral_append (hrest : rest.head? ≠ some '\'')
    (hsuits : Quotation.multilineLiteral.suits text = true) :
    multilineLiteral (List.replicate 3 '\'' ++ (leadOf text ++
      (text ++ (List.replicate 3 '\'' ++ rest)))) = some (text, rest) := by
  rw [Quotation.suits, Bool.and_eq_true, decide_eq_true_iff] at hsuits
  refine multiline_append rfl (readsQuoted_literal hrest hsuits.1 hsuits.2) ?_
  refine (leadOf_cases text).imp_right fun hnone => ⟨hnone.1, newline_eq_none_of_head ?_⟩
  cases text with
  | nil => exact ⟨'\'', _, rfl, by decide⟩
  | cons first others =>
      have hadmits := (Bool.and_eq_true_iff.mp (List.all_cons ▸ hsuits.1)).1
      refine ⟨first, _, rfl, ?_, ?_⟩
      · intro hsame
        exact hnone.2 (hsame ▸ List.mem_cons_self)
      · intro hsame
        subst hsame
        cases hadmits

/-- The quotes around a text on one line are no triple quotes. -/
theorem multiline_eq_none {quote : Char} {piece : Reader (List Char)}
    (htext : text.head? ≠ some quote) (hrest : rest.head? ≠ some quote) :
    multiline quote piece (quote :: (text ++ quote :: rest)) = none := by
  refine bind_of_none (exactly_eq_none fun hprefix => ?_) _
  obtain ⟨back, hsplit⟩ := hprefix
  have hbehind : text ++ quote :: rest = quote :: quote :: back := (List.cons.inj hsplit).2.symm
  cases text with
  | nil => exact hrest ((List.cons.inj hbehind).2 ▸ rfl)
  | cons first others => exact htext (congrArg some (List.cons.inj hbehind).1)

theorem multiline_eq_none_of_head {quote : Char} {piece : Reader (List Char)} {input : List Char}
    (hother : input.head? ≠ some quote) : multiline quote piece input = none := by
  refine bind_of_none (exactly_eq_none fun hprefix => hother ?_) _
  obtain ⟨back, rfl⟩ := hprefix
  rfl

/-- Double quotes are not looked for behind a single one. -/
theorem single_orElse (input : List Char) :
    (multilineBasic <|> basicString <|> multilineLiteral <|> literalString) ('\'' :: input) =
      (multilineLiteral <|> literalString) ('\'' :: input) := by
  have hother : ('\'' :: input).head? ≠ some '"' := fun hsame => by cases hsame
  have hmultiline : multilineBasic ('\'' :: input) = none := multiline_eq_none_of_head hother
  have hbasic : basicString ('\'' :: input) = none :=
    bind_of_none (symbol_eq_none rfl hother) _
  rw [orElse_of_none hmultiline, orElse_of_none hbasic]

theorem escapedText_head_ne_quote (text : List Char) :
    (Quotation.basic.escapedText 0 text).head? ≠ some '"' := by
  cases text with
  | nil => nofun
  | cons char text =>
      obtain ⟨first, others, hescaped, hother, -⟩ := escaped_head char
      have hstep : Quotation.basic.escapedText 0 (char :: text) =
          escaped char ++ Quotation.basic.escapedText 0 text := by
        simp [Quotation.escapedText, Quotation.innerLimit, Quotation.isMultiline]
      rw [hstep, hescaped]
      exact fun hsame => hother (Option.some.inj hsame)

/-- A text is read from between quotes that can hold it. -/
theorem string_quotation {quotation : Quotation} {text : List Char}
    (hholds : quotation.hasEscapes = true ∨ quotation.suits text = true)
    (hdouble : rest.head? ≠ some '"') (hsingle : rest.head? ≠ some '\'') :
    (multilineBasic <|> basicString <|> multilineLiteral <|> literalString)
      (quotation.delimiter ++ (quotation.body text ++ (quotation.delimiter ++ rest))) =
        some (text, rest) := by
  cases quotation with
  | basic =>
      have hmultiline : multilineBasic
          ('"' :: (Quotation.basic.escapedText 0 text ++ '"' :: rest)) = none :=
        multiline_eq_none (escapedText_head_ne_quote text) hdouble
      exact (orElse_of_none hmultiline).trans (orElse_of_some (basicString_append text rest))
  | literal =>
      have hliteral := Quotation.isLiteral_of_suits (hholds.resolve_left Bool.false_ne_true)
      have hhead : text.head? ≠ some '\'' := by
        intro hsame
        cases hliteral _ (List.mem_of_mem_head? hsame)
      have hmultiline : multilineLiteral ('\'' :: (text ++ '\'' :: rest)) = none :=
        multiline_eq_none hhead hsingle
      exact (single_orElse _).trans ((orElse_of_none hmultiline).trans
        (literalString_append hliteral rest))
  | multilineBasic =>
      have hsplit : Quotation.multilineBasic.body text =
          leadOf text ++ Quotation.multilineBasic.escapedText 0 text := by
        simp [Quotation.body, Quotation.isMultiline, Quotation.hasEscapes, leadOf]
      rw [hsplit, List.append_assoc]
      exact orElse_of_some (multilineBasic_append hdouble text)
  | multilineLiteral =>
      have hsplit : Quotation.multilineLiteral.body text = leadOf text ++ text := by
        simp [Quotation.body, Quotation.isMultiline, Quotation.hasEscapes, leadOf]
      rw [hsplit, List.append_assoc]
      exact (single_orElse _).trans (orElse_of_some
        (multilineLiteral_append hsingle (hholds.resolve_left Bool.false_ne_true)))

/-- A string is read as it is written, unless there are more quotes behind it. -/
theorem string_append (text : String) (hdouble : rest.head? ≠ some '"')
    (hsingle : rest.head? ≠ some '\'') :
    string ((quoted text).toList ++ rest) = some (text, rest) := by
  have hread := string_quotation (Quotation.ofText_spec text.toList) hdouble hsingle
  rw [quoted, String.toList_ofList, List.append_assoc, List.append_assoc, string,
    map_of_some hread, String.ofList_toList]

end Reader

end Toml

end TiledPlacement
