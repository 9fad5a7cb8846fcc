import Mathlib.Data.List.Basic
import TiledPlacement.Proofs.Toml.Reader
import TiledPlacement.Toml.Document
import TiledPlacement.Toml.Writer

/-!
Numbers are read as they are written. In front of what ends a value, the digits of a whole number
are read as that number and nothing else, and the text of a floating-point number is read as if it
stood alone.
-/

namespace TiledPlacement

namespace Toml

/-- The end of a text, or a character that ends a value. -/
def EndsValue (rest : List Char) : Prop :=
  ∀ first ∈ rest.head?, first = ',' ∨ first = ']' ∨ first = '\n'

theorem EndsValue.ne {rest : List Char} (hrest : EndsValue rest) {char : Char}
    (hchar : char ≠ ',' ∧ char ≠ ']' ∧ char ≠ '\n') : rest.head? ≠ some char := by
  intro hfirst
  obtain ⟨hcomma, hbracket, hnewline⟩ := hchar
  obtain rfl | rfl | rfl := hrest char hfirst
  · exact hcomma rfl
  · exact hbracket rfl
  · exact hnewline rfl

theorem EndsValue.test_eq_false {rest : List Char} (hrest : EndsValue rest) {test : Char → Bool}
    (hcomma : test ',' = false) (hbracket : test ']' = false) (hnewline : test '\n' = false) :
    ∀ first ∈ rest.head?, test first = false := by
  intro first hfirst
  obtain rfl | rfl | rfl := hrest first hfirst
  · exact hcomma
  · exact hbracket
  · exact hnewline

/-- Decimal digits, with no zero in front of others. -/
structure IsWhole (text : List Char) : Prop where
  nonempty : text ≠ []
  digits : ∀ char ∈ text, char.isDigit = true
  leading : text = ['0'] ∨ text.head? ≠ some '0'

theorem digitChar_ne_zero : ∀ digit < 10, digit ≠ 0 → digit.digitChar ≠ '0' := by
  decide

theorem head_toDigits {number : Nat} (hsome : number ≠ 0) :
    (Nat.toDigits 10 number).head? ≠ some '0' := by
  induction number using Nat.strongRecOn with
  | ind number induction =>
      rw [Nat.toDigits_eq_if (by decide)]
      split
      next hsmall => exact fun hzero =>
        digitChar_ne_zero number hsmall hsome (Option.some.inj hzero)
      next =>
        have hfront : number / 10 ≠ 0 := by omega
        rw [List.head?_append_of_ne_nil _ Nat.toDigits_ne_nil]
        exact induction _ (by omega) hfront

theorem isWhole_toDigits (number : Nat) : IsWhole (Nat.toDigits 10 number) where
  nonempty := Nat.toDigits_ne_nil
  digits := fun _ hchar => Nat.isDigit_of_mem_toDigits (by decide) (by decide) hchar
  leading := by
    by_cases hzero : number = 0
    · exact .inl (hzero ▸ rfl)
    · exact .inr (head_toDigits hzero)

theorem number_toDigits (number : Nat) :
    Digits.number 10 (Nat.toDigits 10 number) = number := by
  have hvalue : Digits.number 10 (Nat.toDigits 10 number) =
      Nat.ofDigitChars 10 (Nat.toDigits 10 number) 0 := by
    refine List.foldl_ext _ _ _ fun sum char hchar => ?_
    rw [Digits.value, if_pos ((isWhole_toDigits number).digits char hchar)]
  rw [hvalue, Nat.ofDigitChars_ten_toDigits]

theorem toList_toString (number : Nat) : (toString number).toList = Nat.toDigits 10 number := by
  rw [Nat.toString_eq_ofList_toDigits, String.toList_ofList]

namespace Reader

variable {text behind rest : List Char}

theorem isDigit_false_of_endsValue (hrest : EndsValue rest) :
    ∀ first ∈ rest.head?, first.isDigit = false :=
  hrest.test_eq_false rfl rfl rfl

theorem digits_append (hsome : text ≠ []) (htext : ∀ char ∈ text, char.isDigit = true)
    (hrest : ∀ first ∈ rest.head?, first.isDigit = false ∧ first ≠ '_') :
    digits Char.isDigit (text ++ rest) = some (text, rest) := by
  cases text with
  | nil => exact absurd rfl hsome
  | cons first text =>
      have hitem : ∀ char ∈ text, ∀ rest,
          ((do symbol "_"; Reader.char Char.isDigit : Reader Char) <|> Reader.char Char.isDigit)
            (char :: rest) = some (id char, rest) := by
        intro char hchar rest
        have hdigit := htext char (List.mem_cons_of_mem _ hchar)
        have hother : (char :: rest).head? ≠ some '_' := by
          intro hsame
          obtain rfl := Option.some.inj hsame
          cases hdigit
        rw [orElse_of_none (bind_of_none (symbol_eq_none rfl hother) _), char_of_true hdigit]
        rfl
      have hstop : ((do symbol "_"; char Char.isDigit : Reader Char) <|>
          Reader.char Char.isDigit) rest = none := by
        have hother : rest.head? ≠ some '_' := fun hsame => (hrest _ hsame).2 rfl
        rw [orElse_of_none (bind_of_none (symbol_eq_none rfl hother) _)]
        exact char_of_false fun first hfirst => (hrest first hfirst).1
      rw [digits, List.cons_append, bind_of_some (char_of_true (htext first List.mem_cons_self)),
        bind_of_some (many_of_series (.of_chars hitem hstop)), pure_apply, List.map_id]

theorem decimalDigits_append (htext : IsWhole text)
    (hrest : ∀ first ∈ rest.head?, first.isDigit = false ∧ first ≠ '_') :
    decimalDigits (text ++ rest) = some (text, rest) := by
  obtain rfl | hleading := htext.leading
  · rfl
  · obtain ⟨first, others, rfl⟩ := List.exists_cons_of_ne_nil htext.nonempty
    have hfirst : (first != '0') = true := bne_iff_ne.mpr fun hzero => hleading (hzero ▸ rfl)
    have hahead : ahead (· != '0') (first :: (others ++ rest)) =
        some ((), first :: (others ++ rest)) := ahead_of_true hfirst
    refine orElse_of_some ?_
    rw [List.cons_append, bind_of_some hahead]
    exact digits_append htext.nonempty htext.digits hrest

theorem sign_minus (rest : List Char) : sign ('-' :: rest) = some (true, rest) :=
  rfl

theorem sign_of_other (hminus : rest.head? ≠ some '-') (hplus : rest.head? ≠ some '+') :
    sign rest = some (false, rest) := by
  rw [sign, orElse_of_none (bind_of_none (symbol_eq_none rfl hminus) _),
    orElse_of_none (bind_of_none (symbol_eq_none rfl hplus) _), pure_apply]

/-! Digits are no date and no time unless a mark stands behind them. -/

theorem repeated_eq_some {test : Char → Bool} {count : Nat} {input found : List Char}
    (hread : repeated (char test) count input = some (found, rest)) :
    input = found ++ rest ∧ (∀ char ∈ found, test char = true) ∧ found.length = count := by
  induction count generalizing input found with
  | zero =>
      obtain ⟨rfl, rfl⟩ := Prod.mk.inj (Option.some.inj hread)
      exact ⟨rfl, nofun, rfl⟩
  | succ count induction =>
      cases input with
      | nil => cases hread
      | cons first others =>
          by_cases hfirst : test first = true
          · rw [repeated, bind_of_some (char_of_true hfirst)] at hread
            cases hothers : repeated (char test) count others with
            | none => rw [bind_of_none hothers] at hread; cases hread
            | some pair =>
                rw [bind_of_some hothers] at hread
                obtain ⟨rfl, rfl⟩ := Prod.mk.inj (Option.some.inj hread)
                obtain ⟨hsplit, hall, hlength⟩ := induction hothers
                refine ⟨congrArg (first :: ·) hsplit, ?_, congrArg (· + 1) hlength⟩
                exact List.forall_mem_cons.mpr ⟨hfirst, hall⟩
          · rw [repeated, bind_of_none (if_neg hfirst)] at hread
            cases hread

theorem bounded_eq_some {count least greatest value : Nat} {input : List Char}
    (hread : bounded count least greatest input = some (value, rest)) :
    ∃ found, input = found ++ rest ∧ (∀ char ∈ found, char.isDigit = true) ∧
      found.length = count := by
  cases hfound : repeated (char Char.isDigit) count input with
  | none => rw [bounded, bind_of_none hfound] at hread; cases hread
  | some pair =>
      obtain ⟨found, left⟩ := pair
      rw [bounded, bind_of_some hfound] at hread
      split at hread
      · obtain ⟨-, rfl⟩ := Prod.mk.inj (Option.some.inj hread)
        exact ⟨found, repeated_eq_some hfound⟩
      · cases hread

variable {α : Type} {count least greatest : Nat}

theorem bounded_eq_none (hcount : count ≠ 0)
    (hrest : ∀ first ∈ rest.head?, first.isDigit = false) :
    bounded count least greatest rest = none := by
  refine Option.eq_none_iff_forall_ne_some.mpr fun pair hread => ?_
  obtain ⟨found, rfl, hfound, hlength⟩ := bounded_eq_some hread
  obtain ⟨first, others, rfl⟩ := List.exists_cons_of_length_pos
    (Nat.lt_of_lt_of_eq (Nat.pos_of_ne_zero hcount) hlength.symm)
  cases (hrest first rfl).symm.trans (hfound first List.mem_cons_self)

theorem bounded_mark_eq_none {mark : String} {first : Char}
    (hmark : mark.toList.head? = some first) (hfirst : first.isDigit = false)
    (htext : ∀ char ∈ text, char.isDigit = true)
    (hrest : ∀ first ∈ rest.head?, first.isDigit = false) (hother : rest.head? ≠ some first)
    (next : Nat → Unit → Reader α) :
    (bounded count least greatest >>= fun value => symbol mark >>= next value) (text ++ rest) =
      none := by
  cases hread : bounded count least greatest (text ++ rest) with
  | none => exact bind_of_none hread _
  | some pair =>
      obtain ⟨value, left⟩ := pair
      obtain ⟨found, hsplit, hfound, -⟩ := bounded_eq_some hread
      rw [bind_of_some hread]
      refine bind_of_none (symbol_eq_none hmark fun hleft => hother ?_) _
      have hstop : ∀ char ∈ left.head?, char.isDigit = false := by
        intro char hchar
        obtain rfl := Option.some.inj (hleft.symm.trans hchar)
        exact hfirst
      have hsame := (run_append htext hrest).symm.trans
        ((congrArg (run Char.isDigit) hsplit).trans (run_append hfound hstop))
      rw [(Prod.mk.inj (Option.some.inj hsame)).2, hleft]

theorem moment_digits_eq_none (htext : ∀ char ∈ text, char.isDigit = true)
    (hrest : ∀ first ∈ rest.head?, first.isDigit = false) (hminus : rest.head? ≠ some '-')
    (hcolon : rest.head? ≠ some ':') : moment (text ++ rest) = none := by
  have hdate : date (text ++ rest) = none :=
    bounded_mark_eq_none rfl rfl htext hrest hminus _
  have htime : time (text ++ rest) = none :=
    bounded_mark_eq_none rfl rfl htext hrest hcolon _
  rw [moment, orElse_of_none (bind_of_none hdate _), htime]

theorem moment_eq_none (hrest : ∀ first ∈ rest.head?, first.isDigit = false) :
    moment rest = none := by
  have hdate : date rest = none := bind_of_none (bounded_eq_none (by decide) hrest) _
  have htime : time rest = none := bind_of_none (bounded_eq_none (by decide) hrest) _
  rw [moment, orElse_of_none (bind_of_none hdate _), htime]

/-! Whole numbers. -/

theorem head_append (htext : IsWhole text) (rest : List Char) :
    ∃ first, (text ++ rest).head? = some first ∧ first.isDigit = true := by
  obtain ⟨first, others, rfl⟩ := List.exists_cons_of_ne_nil htext.nonempty
  exact ⟨first, rfl, htext.digits first List.mem_cons_self⟩

theorem head_append_ne (htext : IsWhole text) (rest : List Char) {char : Char}
    (hchar : char.isDigit = false) : (text ++ rest).head? ≠ some char := by
  obtain ⟨first, hfirst, hdigit⟩ := head_append htext rest
  rw [hfirst]
  intro hsame
  obtain rfl := Option.some.inj hsame
  cases hchar.symm.trans hdigit

theorem sign_append (htext : IsWhole text) (rest : List Char) :
    sign (text ++ rest) = some (false, text ++ rest) :=
  sign_of_other (head_append_ne htext rest rfl) (head_append_ne htext rest rfl)

theorem based_eq_none {mark : String} {zero letter : Char} {base : Nat} {test : Char → Bool}
    (hmark : mark.toList = [zero, letter]) (hzero : zero.isDigit = true)
    (hletter : letter.isDigit = false) (htext : ∀ char ∈ text, char.isDigit = true)
    (hrest : ∀ first ∈ rest.head?, first.isDigit = false) (hother : rest.head? ≠ some letter) :
    based mark base test (text ++ rest) = none := by
  refine bind_of_none (exactly_eq_none fun hprefix => hother ?_) _
  obtain ⟨left, hsplit⟩ := hprefix
  rw [hmark] at hsplit
  have hstop : ∀ first ∈ (letter :: left).head?, first.isDigit = false :=
    fun _ hfirst => Option.some.inj hfirst ▸ hletter
  have hmarked : run Char.isDigit ([zero] ++ letter :: left) = some ([zero], letter :: left) :=
    run_append (List.forall_mem_singleton.mpr hzero) hstop
  have hsame := (run_append htext hrest).symm.trans
    ((congrArg (run Char.isDigit) hsplit.symm).trans hmarked)
  rw [(Prod.mk.inj (Option.some.inj hsame)).2]
  rfl

theorem not_digit_of_endsValue (hrest : EndsValue rest) :
    ∀ first ∈ rest.head?, first.isDigit = false ∧ first ≠ '_' := by
  intro first hfirst
  obtain rfl | rfl | rfl := hrest first hfirst <;> exact ⟨rfl, by decide⟩

theorem integer_append {number : Nat} (hnumber : isInteger number = true)
    (hrest : EndsValue rest) :
    integer (Nat.toDigits 10 number ++ rest) = some ((number : Int), rest) := by
  have hwhole := isWhole_toDigits number
  have hdigit := isDigit_false_of_endsValue hrest
  have hhex : based "0x" 16 isHexDigit (Nat.toDigits 10 number ++ rest) = none :=
    based_eq_none rfl rfl rfl hwhole.digits hdigit (hrest.ne (by decide))
  have hoctal : based "0o" 8 (fun digit => decide ('0' ≤ digit) && decide (digit ≤ '7'))
      (Nat.toDigits 10 number ++ rest) = none :=
    based_eq_none rfl rfl rfl hwhole.digits hdigit (hrest.ne (by decide))
  have hbinary : based "0b" 2 (fun digit => digit == '0' || digit == '1')
      (Nat.toDigits 10 number ++ rest) = none :=
    based_eq_none rfl rfl rfl hwhole.digits hdigit (hrest.ne (by decide))
  have hdecimal : (do return signed (← sign) (Digits.number 10 (← decimalDigits)) : Reader Int)
      (Nat.toDigits 10 number ++ rest) = some ((number : Int), rest) := by
    rw [bind_of_some (sign_append hwhole rest),
      bind_of_some (decimalDigits_append hwhole (not_digit_of_endsValue hrest)), pure_apply,
      number_toDigits]
    rfl
  have hvalue := (orElse_of_none hhex).trans ((orElse_of_none hoctal).trans
    ((orElse_of_none hbinary).trans hdecimal))
  rw [integer, bind_of_some hvalue, if_pos hnumber, pure_apply]

/-! Floating-point numbers. -/

theorem special_eq_none {negative : Bool} {input : List Char} (htext : IsWhole text)
    (hsign : sign input = some (negative, text ++ rest)) : special input = none := by
  have hinf : symbol "inf" (text ++ rest) = none :=
    symbol_eq_none rfl (head_append_ne htext rest rfl)
  have hnan : symbol "nan" (text ++ rest) = none :=
    symbol_eq_none rfl (head_append_ne htext rest rfl)
  rw [special, bind_of_some hsign, orElse_of_none (bind_of_none hinf _), bind_of_none hnan]

/-- Digits without a point are no floating-point number. -/
theorem real_whole_eq_none (htext : IsWhole text) (hrest : EndsValue rest) :
    real (text ++ rest) = none := by
  have hexponent : exponent rest = none :=
    bind_of_none (char_of_false (hrest.test_eq_false rfl rfl rfl)) _
  have hfraction : fraction rest = none :=
    bind_of_none (symbol_eq_none rfl (hrest.ne (by decide))) _
  have hdecimal : decimal (text ++ rest) = none := by
    rw [decimal, bind_of_some (sign_append htext rest),
      bind_of_some (decimalDigits_append htext (not_digit_of_endsValue hrest))]
    refine bind_of_none ?_ _
    rw [orElse_of_none (bind_of_none hexponent _), bind_of_none hfraction]
  rw [real, orElse_of_none hdecimal, special_eq_none htext (sign_append htext rest)]

/-- Digits around a point, with a minus sign in front of them or none. -/
def pointed (negative : Bool) (whole behind : List Char) : List Char :=
  (if negative then ['-'] else []) ++ (whole ++ '.' :: behind)

theorem sign_pointed {negative : Bool} {whole : List Char} (hwhole : IsWhole whole)
    (behind rest : List Char) : sign (pointed negative whole behind ++ rest) =
      some (negative, whole ++ '.' :: (behind ++ rest)) := by
  have hsplit : pointed negative whole behind ++ rest =
      (if negative then ['-'] else []) ++ (whole ++ '.' :: (behind ++ rest)) := by
    simp [pointed]
  rw [hsplit]
  cases negative with
  | false => exact sign_append hwhole _
  | true => exact sign_minus _

theorem decimal_pointed {negative : Bool} {whole : List Char} (hwhole : IsWhole whole)
    (hsome : behind ≠ []) (hbehind : ∀ char ∈ behind, char.isDigit = true)
    (hrest : EndsValue rest) : decimal (pointed negative whole behind ++ rest) =
      let value : Decimal := ⟨negative, Digits.number 10 (whole ++ behind), 0 - behind.length⟩
      if value.toFloat.isInf && !negative then none else some (.finite value, rest) := by
  have hpoint : ∀ first ∈ ('.' :: (behind ++ rest)).head?, first.isDigit = false ∧ first ≠ '_' := by
    intro first hfirst
    obtain rfl := Option.some.inj hfirst
    exact ⟨rfl, by decide⟩
  have hfraction : fraction ('.' :: (behind ++ rest)) = some (behind, rest) :=
    digits_append hsome hbehind (not_digit_of_endsValue hrest)
  have hexponent : exponent rest = none :=
    bind_of_none (char_of_false (hrest.test_eq_false rfl rfl rfl)) _
  have hnone : exponent ('.' :: (behind ++ rest)) = none := rfl
  have hend : (do return (← fraction, (← maybe exponent).getD 0) : Reader (List Char × Int))
      ('.' :: (behind ++ rest)) = some ((behind, 0), rest) := by
    rw [bind_of_some hfraction, bind_of_some (maybe_of_none hexponent), pure_apply]
    rfl
  rw [decimal, bind_of_some (sign_pointed hwhole behind rest),
    bind_of_some (decimalDigits_append hwhole hpoint),
    bind_of_some ((orElse_of_none (bind_of_none hnone _)).trans hend)]
  dsimp only
  split <;> rfl

end Reader

theorem toList_padded (places number : Nat) : (Digits.padded places number).toList =
    List.replicate (places - (toString number).length) '0' ++ Nat.toDigits 10 number := by
  rw [Digits.padded, String.toList_append, String.toList_ofList, toList_toString]

theorem padded_ne_nil (places number : Nat) : (Digits.padded places number).toList ≠ [] := by
  rw [toList_padded]
  exact List.append_ne_nil_of_right_ne_nil _ Nat.toDigits_ne_nil

theorem isDigit_of_mem_padded {places number : Nat} :
    ∀ char ∈ (Digits.padded places number).toList, char.isDigit = true := by
  intro char hchar
  rw [toList_padded] at hchar
  obtain hzero | hdigit := List.mem_append.mp hchar
  · exact List.eq_of_mem_replicate hzero ▸ rfl
  · exact (isWhole_toDigits number).digits char hdigit

theorem realText_finite (decimal : Decimal) :
    ∃ whole behind, (realText (.finite decimal)).toList =
        Reader.pointed decimal.negative (Nat.toDigits 10 whole) behind ∧
      behind ≠ [] ∧ ∀ char ∈ behind, char.isDigit = true := by
  have hsign : decimal.sign.toList = if decimal.negative then ['-'] else [] := by
    rw [Decimal.sign]
    split <;> rfl
  rw [realText]
  split
  next hwhole =>
    refine ⟨decimal.digits * Nat.pow 10 decimal.exponent.toNat, ['0'], ?_, nofun, ?_⟩
    · rw [Decimal.text, if_pos hwhole, String.toList_append, String.toList_append, hsign,
        toList_toString, List.append_assoc]
      rfl
    · exact List.forall_mem_singleton.mpr rfl
  next hpart =>
    let unit := Nat.pow 10 decimal.places
    refine ⟨decimal.digits / unit, _, ?_, padded_ne_nil decimal.places (decimal.digits % unit),
      isDigit_of_mem_padded⟩
    rw [Decimal.text, if_neg hpart]
    simp only [String.toList_append, hsign, toList_toString, List.append_assoc]
    rfl

namespace Reader

theorem real_pointed (negative : Bool) {whole : List Char} (hwhole : IsWhole whole)
    (hsome : behind ≠ []) (hbehind : ∀ char ∈ behind, char.isDigit = true) :
    ∃ found : Option Numeral, ∀ rest, EndsValue rest →
      real (pointed negative whole behind ++ rest) = found.map fun value => (value, rest) := by
  let value : Decimal := ⟨negative, Digits.number 10 (whole ++ behind), 0 - behind.length⟩
  refine ⟨if value.toFloat.isInf && !negative then none else some (.finite value), ?_⟩
  intro rest hrest
  have hdecimal : decimal (pointed negative whole behind ++ rest) = _ :=
    decimal_pointed hwhole hsome hbehind hrest
  have hspecial : special (pointed negative whole behind ++ rest) = none :=
    special_eq_none hwhole (sign_pointed hwhole behind rest)
  dsimp only at hdecimal
  split at hdecimal
  next hinfinite =>
    rw [real, orElse_of_none hdecimal, hspecial, if_pos hinfinite]
    rfl
  next hfinite =>
    rw [real, orElse_of_some hdecimal, if_neg hfinite]
    rfl

/-- What a text is read as does not depend on what stands behind it. -/
theorem real_append {numeral value : Numeral} {rest : List Char}
    (hread : real (realText numeral).toList = some (value, [])) (hrest : EndsValue rest) :
    real ((realText numeral).toList ++ rest) = some (value, rest) := by
  have hend : EndsValue [] := nofun
  cases numeral with
  | finite decimal =>
      obtain ⟨whole, behind, htext, hsome, hbehind⟩ := realText_finite decimal
      obtain ⟨found, hfound⟩ :=
        real_pointed decimal.negative (isWhole_toDigits whole) hsome hbehind
      rw [htext, ← List.append_nil (pointed _ _ _), hfound [] hend] at hread
      rw [htext, hfound rest hrest]
      cases found with
      | none => cases hread
      | some numeral => cases hread; rfl
  | infinite negative => cases negative <;> (cases hread; rfl)
  | notANumber => cases hread; rfl

end Reader

end Toml

end TiledPlacement
