/-!
Numbers written with one radix per digit, the last digit varying fastest. Digits are appended to a
number from the first on and taken off it from the last on; the two are inverse to each other on
digits below their radices.
-/

namespace TiledPlacement

namespace MixedRadix

/-- How many numbers the radices can write. -/
def volume : List Nat → Nat
  | [] => 1
  | radix :: rest => radix * volume rest

/-- Every digit is below its radix, and there are as many digits as radices. -/
def fits : List Nat → List Nat → Bool
  | [], [] => true
  | radix :: rest, digit :: digits => decide (digit < radix) && fits rest digits
  | _, _ => false

def append : Nat → List Nat → List Nat → Nat
  | number, radix :: rest, digit :: digits => append (number * radix + digit) rest digits
  | number, _, _ => number

def encode (radices digits : List Nat) : Nat := append 0 radices digits

section Division

variable {F : Type → Type} [Monad F]

/-- The digits of a number, and what is left of it when they have been taken off. -/
def takeDigits (divide : Nat → Nat → F (Nat × Nat)) : List Nat → Nat → F (List Nat × Nat)
  | [], number => pure ([], number)
  | radix :: rest, number => do
      let (digits, left) ← takeDigits divide rest number
      let (quotient, digit) ← divide left radix
      return (digit :: digits, quotient)

end Division

def divide (number radix : Nat) : Id (Nat × Nat) := pure (number / radix, number % radix)

/-- Division that refuses to divide by zero. -/
def divide? (number radix : Nat) : Option (Nat × Nat) :=
  if radix = 0 then none else some (number / radix, number % radix)

def decode (radices : List Nat) (number : Nat) : List Nat :=
  (Id.run (takeDigits divide radices number)).1

theorem length_of_fits {radices digits : List Nat} (hfits : fits radices digits = true) :
    digits.length = radices.length := by
  induction radices generalizing digits with
  | nil => cases digits <;> simp_all [fits]
  | cons radix rest induction =>
      cases digits with
      | nil => simp [fits] at hfits
      | cons digit digits =>
          simp only [fits, Bool.and_eq_true] at hfits
          simp only [List.length_cons, induction hfits.2]

theorem append_eq {radices digits : List Nat} (hlength : digits.length = radices.length)
    (number : Nat) :
    append number radices digits = number * volume radices + encode radices digits := by
  induction radices generalizing digits number with
  | nil => simp only [append, encode, volume, Nat.mul_one, Nat.add_zero]
  | cons radix rest induction =>
      cases digits with
      | nil => cases hlength
      | cons digit digits =>
          have hrest := induction (Nat.succ.inj hlength)
          have hdigit : encode (radix :: rest) (digit :: digits) =
              digit * volume rest + encode rest digits := by
            rw [encode, append, hrest, Nat.zero_mul, Nat.zero_add]
          rw [append, hrest, hdigit, volume, Nat.add_mul, Nat.mul_assoc, Nat.add_assoc]

theorem encode_cons {rest digits : List Nat} (hlength : digits.length = rest.length)
    (radix digit : Nat) :
    encode (radix :: rest) (digit :: digits) = digit * volume rest + encode rest digits := by
  rw [encode, append, append_eq hlength, Nat.zero_mul, Nat.zero_add]

theorem left_takeDigits (radices : List Nat) (number : Nat) :
    (Id.run (takeDigits divide radices number)).2 = number / volume radices := by
  induction radices with
  | nil => exact (Nat.div_one number).symm
  | cons radix rest induction =>
      change (Id.run (takeDigits divide rest number)).2 / radix = _
      rw [induction, Nat.div_div_eq_div_mul, volume, Nat.mul_comm]

theorem decode_cons (radix : Nat) (rest : List Nat) (number : Nat) :
    decode (radix :: rest) number = number / volume rest % radix :: decode rest number := by
  change (Id.run (takeDigits divide rest number)).2 % radix :: decode rest number = _
  rw [left_takeDigits]

/-- What lies beyond the radices does not show in the digits. -/
theorem decode_mod (radices : List Nat) (number : Nat) :
    decode radices (number % volume radices) = decode radices number := by
  induction radices generalizing number with
  | nil => rfl
  | cons radix rest induction =>
      rw [decode_cons, decode_cons, volume, Nat.mod_mul_left_div_self, Nat.mod_mod,
        ← induction (number % (radix * volume rest)), Nat.mod_mul_left_mod, induction]

theorem decode_cons_of_lt {radix : Nat} {rest : List Nat} {number : Nat}
    (hbound : number < volume (radix :: rest)) :
    decode (radix :: rest) number =
      number / volume rest :: decode rest (number % volume rest) := by
  have hdigit : number / volume rest < radix :=
    Nat.div_lt_of_lt_mul (Nat.mul_comm radix (volume rest) ▸ hbound)
  rw [decode_cons, decode_mod, Nat.mod_eq_of_lt hdigit]

theorem encode_lt_volume {radices digits : List Nat}
    (hfits : fits radices digits = true) :
    encode radices digits < volume radices := by
  induction radices generalizing digits with
  | nil => cases digits <;> exact Nat.one_pos
  | cons radix rest induction =>
      cases digits with
      | nil => simp [fits] at hfits
      | cons digit digits =>
          simp only [fits, Bool.and_eq_true, decide_eq_true_eq] at hfits
          have hrest := induction hfits.2
          have hdigit := Nat.mul_le_mul_right (volume rest) (Nat.succ_le_of_lt hfits.1)
          rw [encode_cons (length_of_fits hfits.2), volume]
          rw [Nat.succ_mul] at hdigit
          omega

theorem decode_encode {radices digits : List Nat}
    (hfits : fits radices digits = true) :
    decode radices (encode radices digits) = digits := by
  induction radices generalizing digits with
  | nil =>
      cases digits with
      | nil => rfl
      | cons => cases hfits
  | cons radix rest induction =>
      cases digits with
      | nil => simp [fits] at hfits
      | cons digit digits =>
          have hwhole := encode_lt_volume hfits
          simp only [fits, Bool.and_eq_true, decide_eq_true_eq] at hfits
          have hbound := encode_lt_volume hfits.2
          have hpositive : 0 < volume rest := by omega
          rw [decode_cons_of_lt hwhole, encode_cons (length_of_fits hfits.2),
            Nat.mul_comm digit, Nat.mul_add_div hpositive, Nat.div_eq_of_lt hbound,
            Nat.add_zero, Nat.mul_add_mod, Nat.mod_eq_of_lt hbound, induction hfits.2]

theorem pos_of_lt_mul {radix volume number : Nat} (hbound : number < radix * volume) :
    0 < volume := by
  rcases Nat.eq_zero_or_pos volume with rfl | hpositive
  · exact absurd hbound (Nat.not_lt_zero number)
  · exact hpositive

theorem fits_decode {radices : List Nat} {number : Nat}
    (hbound : number < volume radices) :
    fits radices (decode radices number) = true := by
  induction radices generalizing number with
  | nil => rfl
  | cons radix rest induction =>
      have hpositive : 0 < volume rest := pos_of_lt_mul hbound
      rw [decode_cons_of_lt hbound]
      simp only [fits, Bool.and_eq_true, decide_eq_true_eq]
      refine ⟨?_, induction (Nat.mod_lt number hpositive)⟩
      rw [Nat.div_lt_iff_lt_mul hpositive]
      exact hbound

theorem encode_decode {radices : List Nat} {number : Nat}
    (hbound : number < volume radices) :
    encode radices (decode radices number) = number := by
  induction radices generalizing number with
  | nil => exact (Nat.lt_one_iff.mp hbound).symm
  | cons radix rest induction =>
      have hmod := Nat.mod_lt number (pos_of_lt_mul hbound)
      rw [decode_cons_of_lt hbound, encode_cons (length_of_fits (fits_decode hmod)),
        induction hmod, Nat.mul_comm]
      exact Nat.div_add_mod number (volume rest)

/-- As long as no radix is zero, digits are taken off without dividing by zero. -/
theorem takeDigits_divide? {radices : List Nat} (hpositive : 0 < volume radices) (number : Nat) :
    takeDigits divide? radices number = some (decode radices number, number / volume radices) := by
  induction radices with
  | nil => rw [takeDigits, volume, Nat.div_one]; rfl
  | cons radix rest induction =>
      have hradix : radix ≠ 0 := fun hzero => by simp [volume, hzero] at hpositive
      have hrest : 0 < volume rest := Nat.pos_of_mul_pos_left hpositive
      rw [takeDigits, induction hrest, decode_cons, volume, Nat.mul_comm radix,
        ← Nat.div_div_eq_div_mul]
      change (divide? (number / volume rest) radix).bind _ = _
      rw [divide?, if_neg hradix]
      rfl

end MixedRadix

end TiledPlacement
