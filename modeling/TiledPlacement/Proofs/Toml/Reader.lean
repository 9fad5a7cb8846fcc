import TiledPlacement.Toml.Reader

/-!
What readers make of an input. A reader that begins others hands on what it leaves; of two
alternatives the second counts where the first fails. A repetition takes a series of items, each
from what the one before has left, until an item fails.
-/

namespace TiledPlacement

namespace Toml

namespace Reader

variable {α β : Type} {input rest last : List Char}

/-! One reader after another. -/

theorem bind_of_some {reader : Reader α} {value : α} (hread : reader input = some (value, rest))
    (next : α → Reader β) : (reader >>= next) input = next value rest := by
  change (reader input).bind (fun found => next found.1 found.2) = _
  rw [hread, Option.bind_some]

theorem bind_of_none {reader : Reader α} (hread : reader input = none) (next : α → Reader β) :
    (reader >>= next) input = none := by
  change (reader input).bind (fun found => next found.1 found.2) = _
  rw [hread, Option.bind_none]

theorem pure_apply (value : α) (input : List Char) :
    (pure value : Reader α) input = some (value, input) :=
  rfl

theorem map_of_some {reader : Reader α} {value : α} (hread : reader input = some (value, rest))
    (image : α → β) : (image <$> reader) input = some (image value, rest) := by
  change (reader input).bind (fun found => some (image found.1, found.2)) = _
  rw [hread, Option.bind_some]

theorem map_of_none {reader : Reader α} (hread : reader input = none) (image : α → β) :
    (image <$> reader) input = none := by
  change (reader input).bind (fun found => some (image found.1, found.2)) = _
  rw [hread, Option.bind_none]

theorem orElse_of_some {first second : Reader α} {found : α × List Char}
    (hread : first input = some found) : (first <|> second) input = some found := by
  change (first input <|> second input) = _
  rw [hread]
  rfl

theorem orElse_of_none {first second : Reader α} (hread : first input = none) :
    (first <|> second) input = second input := by
  change (first input <|> second input) = _
  rw [hread]
  rfl

theorem maybe_of_some {reader : Reader α} {value : α} (hread : reader input = some (value, rest)) :
    maybe reader input = some (some value, rest) :=
  orElse_of_some (map_of_some hread some)

theorem maybe_of_none {reader : Reader α} (hread : reader input = none) :
    maybe reader input = some (none, input) :=
  orElse_of_none (map_of_none hread some)

/-! Characters. -/

theorem char_of_true {test : Char → Bool} {first : Char} (htest : test first = true) :
    char test (first :: rest) = some (first, rest) :=
  if_pos htest

theorem head_cons {test : Char → Bool} {first : Char} (hfirst : test first = false)
    (rest : List Char) : ∀ next ∈ (first :: rest).head?, test next = false :=
  fun _ hnext => Option.some.inj hnext ▸ hfirst

theorem char_of_false {test : Char → Bool} (htest : ∀ first ∈ input.head?, test first = false) :
    char test input = none := by
  cases input with
  | nil => rfl
  | cons first rest => exact if_neg (Bool.not_eq_true _ ▸ htest first rfl)

theorem exactly_append (text rest : List Char) : exactly text (text ++ rest) = some ((), rest) := by
  induction text with
  | nil => rfl
  | cons first text induction =>
      have hfirst : char (· == first) (first :: (text ++ rest)) = some (first, text ++ rest) :=
        char_of_true (beq_self_eq_true first)
      rw [List.cons_append, exactly, bind_of_some hfirst, induction]

theorem exactly_eq_none {text : List Char} (hother : ¬text <+: input) :
    exactly text input = none := by
  induction text generalizing input with
  | nil => exact absurd List.nil_prefix hother
  | cons expected text induction =>
      rw [exactly]
      cases input with
      | nil => exact bind_of_none rfl _
      | cons first rest =>
          by_cases hsame : first = expected
          · subst hsame
            have hfirst : char (· == first) (first :: rest) = some (first, rest) :=
              char_of_true (beq_self_eq_true first)
            rw [bind_of_some hfirst]
            exact induction fun hrest => hother (List.cons_prefix_cons.mpr ⟨rfl, hrest⟩)
          · refine bind_of_none (char_of_false fun found hfound => ?_) _
            obtain rfl := Option.some.inj hfound
            exact beq_false_of_ne hsame

theorem symbol_append {text : String} {front : List Char} (hfront : text.toList = front)
    (rest : List Char) : symbol text (front ++ rest) = some ((), rest) :=
  hfront ▸ exactly_append _ rest

theorem symbol_cons {text : String} {first : Char} (htext : text.toList = [first])
    (rest : List Char) : symbol text (first :: rest) = some ((), rest) :=
  symbol_append htext rest

/-- A symbol is not read where another character comes first. -/
theorem symbol_eq_none {text : String} {first : Char} (htext : text.toList.head? = some first)
    (hother : input.head? ≠ some first) : symbol text input = none := by
  refine exactly_eq_none fun hprefix => hother ?_
  obtain ⟨back, rfl⟩ := hprefix
  rw [List.head?_append, htext]
  rfl

theorem symbol_cons_eq_none {text : String} {first expected : Char}
    (htext : text.toList.head? = some expected) (hother : first ≠ expected) :
    symbol text (first :: rest) = none :=
  symbol_eq_none htext fun hsame => hother (Option.some.inj hsame)

theorem run_append {test : Char → Bool} {text : List Char}
    (htext : ∀ char ∈ text, test char = true) (hrest : ∀ first ∈ rest.head?, test first = false) :
    run test (text ++ rest) = some (text, rest) := by
  have hends : rest.takeWhile test = [] ∧ rest.dropWhile test = rest := by
    cases rest with
    | nil => exact ⟨rfl, rfl⟩
    | cons first rest =>
        have hfirst := hrest first rfl
        exact ⟨by simp [hfirst], by simp [hfirst]⟩
  rw [run, List.takeWhile_append_of_pos htext, List.dropWhile_append_of_pos htext, hends.1,
    hends.2, List.append_nil]

theorem run1_append {test : Char → Bool} {text : List Char} (hsome : text ≠ [])
    (htext : ∀ char ∈ text, test char = true) (hrest : ∀ first ∈ rest.head?, test first = false) :
    run1 test (text ++ rest) = some (text, rest) := by
  cases text with
  | nil => exact absurd rfl hsome
  | cons first text =>
      have hothers : ∀ char ∈ text, test char = true := fun char hchar =>
        htext char (List.mem_cons_of_mem _ hchar)
      rw [run1, List.cons_append, bind_of_some (char_of_true (htext first List.mem_cons_self)),
        bind_of_some (run_append hothers hrest), pure_apply]

theorem run1_cons {test : Char → Bool} {first : Char} (hfirst : test first = true)
    (rest : List Char) :
    run1 test (first :: rest) = some (first :: rest.takeWhile test, rest.dropWhile test) := by
  rw [run1, bind_of_some (char_of_true hfirst)]
  rfl

theorem run1_eq_none {test : Char → Bool} (htest : ∀ first ∈ input.head?, test first = false) :
    run1 test input = none :=
  bind_of_none (char_of_false htest) _

theorem ahead_of_true {test : Char → Bool} {first : Char} (hfirst : test first = true) :
    ahead test (first :: rest) = some ((), first :: rest) :=
  if_pos hfirst

theorem ahead_of_false {test : Char → Bool} (htest : ∀ first ∈ input.head?, test first = false) :
    ahead test input = none := by
  refine if_neg ?_
  rw [Option.any_eq_true]
  intro hany
  obtain ⟨first, hfirst, htrue⟩ := hany
  rw [htest first hfirst] at htrue
  cases htrue

/-! Repetition. -/

/-- Items read one after the other, each of them some text, and no further one. -/
inductive Series (item : Reader α) : List Char → List α → List Char → Prop
  | stop {input : List Char} (hnone : item input = none) : Series item input [] input
  | next {input rest last : List Char} {value : α} {values : List α}
      (hread : item input = some (value, rest)) (hless : rest.length < input.length)
      (hrest : Series item rest values last) : Series item input (value :: values) last

theorem manyWithin_of_series {item : Reader α} {values : List α}
    (hseries : Series item input values last) {limit : List Char}
    (hlimit : input.length ≤ limit.length) : manyWithin item limit input = (values, last) := by
  induction hseries generalizing limit with
  | @stop input hnone =>
      cases limit with
      | nil => rfl
      | cons first limit => rw [manyWithin, hnone]
  | @next input rest last value values hread hless _ induction =>
      cases limit with
      | nil => exact absurd (Nat.lt_of_lt_of_le hless hlimit) (Nat.not_lt_zero _)
      | cons first limit =>
          have hshorter : rest.length ≤ limit.length :=
            Nat.le_of_lt_succ (Nat.lt_of_lt_of_le hless hlimit)
          rw [manyWithin, hread]
          dsimp only
          rw [induction hshorter]

theorem many_of_series {item : Reader α} {values : List α}
    (hseries : Series item input values last) : many item input = some (values, last) :=
  congrArg some (manyWithin_of_series hseries (Nat.le_refl _))

theorem Series.of_chars {item : Reader α} {image : Char → α} {text : List Char}
    (htext : ∀ char ∈ text, ∀ rest, item (char :: rest) = some (image char, rest))
    (hrest : item rest = none) : Series item (text ++ rest) (text.map image) rest := by
  induction text with
  | nil => exact .stop hrest
  | cons first text induction =>
      refine .next (htext first List.mem_cons_self _) (Nat.lt_succ_self _) (induction ?_)
      exact fun char hchar => htext char (List.mem_cons_of_mem _ hchar)

end Reader

end Toml

end TiledPlacement
