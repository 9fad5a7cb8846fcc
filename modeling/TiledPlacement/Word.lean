/-!
Machine words. Extents, positions and sizes are computed in words of 64 bits. A result that does
not fit loses its upper bits without notice; one that fits is exact. Sums and products may be
reduced once at the end, since arithmetic in words is arithmetic modulo the number of words.
-/

namespace TiledPlacement

/-- How many words there are: two to the power of 64. -/
def wordCount : Nat := 18446744073709551616

/-- What a word keeps of a number. -/
def word (number : Nat) : Nat := number % wordCount

theorem word_of_lt {number : Nat} (hfits : number < wordCount) : word number = number :=
  Nat.mod_eq_of_lt hfits

theorem word_lt (number : Nat) : word number < wordCount :=
  Nat.mod_lt number (by decide)

theorem word_le (number : Nat) : word number ≤ number := Nat.mod_le number wordCount

@[simp] theorem word_zero : word 0 = 0 := rfl

theorem word_mul_word (left right : Nat) : word (left * word right) = word (left * right) :=
  Nat.mul_mod_mod left right wordCount

theorem word_word_mul (left right : Nat) : word (word left * right) = word (left * right) :=
  Nat.mod_mul_mod left right wordCount

theorem word_add_word (left right : Nat) : word (left + word right) = word (left + right) :=
  Nat.add_mod_mod left right wordCount

theorem word_word_add (left right : Nat) : word (word left + right) = word (left + right) :=
  Nat.mod_add_mod left wordCount right

end TiledPlacement
