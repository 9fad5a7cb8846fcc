/-!
Numbers and their texts. A decimal is an integer times a power of ten, a floating-point number an
integer times a power of two.
-/

namespace TiledPlacement

namespace Digits

def value (digit : Char) : Nat :=
  if digit.isDigit then digit.toNat - '0'.toNat
  else if digit.isLower then digit.toNat - 'a'.toNat + 10
  else digit.toNat - 'A'.toNat + 10

/-- The number that digits write, most significant first. -/
def number (base : Nat) (digits : List Char) : Nat :=
  digits.foldl (fun number digit => base * number + value digit) 0

def count (number : Nat) : Nat :=
  if number = 0 then 0 else count (number / 10) + 1
termination_by number
decreasing_by exact Nat.div_lt_self (Nat.pos_of_ne_zero (by assumption)) (by decide)

/-- The last `places` decimal digits of a number. -/
def padded (places number : Nat) : String :=
  let text := toString number
  String.ofList (List.replicate (places - text.length) '0') ++ text

end Digits

structure Decimal where
  negative : Bool
  digits : Nat
  exponent : Int
  deriving DecidableEq, Repr

namespace Decimal

def sign (decimal : Decimal) : String := if decimal.negative then "-" else ""

def places (decimal : Decimal) : Nat := (-decimal.exponent).toNat

def isWhole (decimal : Decimal) : Bool := decide (decimal.places = 0)

/-- Positional text, with a point only before digits. -/
def text (decimal : Decimal) : String :=
  if decimal.isWhole then
    decimal.sign ++ toString (decimal.digits * Nat.pow 10 decimal.exponent.toNat)
  else
    let unit := Nat.pow 10 decimal.places
    decimal.sign ++ toString (decimal.digits / unit) ++ "." ++
      Digits.padded decimal.places (decimal.digits % unit)

/-- The nearest floating-point number. Beyond a magnitude of `10 ^ 400` either way every number is
infinite or zero. -/
def toFloat (decimal : Decimal) : Float :=
  let magnitude : Int := Digits.count decimal.digits + decimal.exponent
  let size : Float :=
    if decimal.digits = 0 ∨ magnitude < -400 then 0.0
    else if 400 < magnitude then 1.0 / 0.0
    else Float.ofScientific decimal.digits (decimal.exponent < 0) decimal.exponent.natAbs
  if decimal.negative then -size else size

end Decimal

/-- What a floating-point number can be. -/
inductive Numeral
  | finite (decimal : Decimal)
  | infinite (negative : Bool)
  | notANumber
  deriving DecidableEq, Repr

namespace Numeral

def text : Numeral → String
  | .finite decimal => decimal.text
  | .infinite true => "-inf"
  | .infinite false => "inf"
  | .notANumber => "NaN"

def toFloat : Numeral → Float
  | .finite decimal => decimal.toFloat
  | .infinite true => -1.0 / 0.0
  | .infinite false => 1.0 / 0.0
  | .notANumber => 0.0 / 0.0

end Numeral

/-!
Floating-point numbers of 64 bits as an integer times a power of two, and their text with a fixed
number of digits behind the point.
-/

/-- A finite floating-point number: its sign and `mantissa * 2 ^ exponent`. -/
structure Binary where
  negative : Bool
  mantissa : Nat
  exponent : Int
  deriving DecidableEq, Repr

namespace Binary

def leastExponent : Int := -1074

/-- Mantissas of normal numbers start here. -/
def hiddenBit : Nat := Nat.pow 2 52

def ofBits (bits : Nat) : Binary :=
  let exponentBits := bits / Nat.pow 2 52 % Nat.pow 2 11
  let mantissaBits := bits % Nat.pow 2 52
  { negative := decide (bits / Nat.pow 2 63 = 1)
    mantissa := if exponentBits = 0 then mantissaBits else hiddenBit + mantissaBits
    exponent := leastExponent + (exponentBits - 1 : Nat) }

def numerator (binary : Binary) : Nat := binary.mantissa * Nat.pow 2 binary.exponent.toNat

def denominator (binary : Binary) : Nat := Nat.pow 2 (-binary.exponent).toNat

/-- A quotient rounded to the nearest integer, a half to the even one. -/
def roundedDiv (numerator denominator : Nat) : Nat :=
  let quotient := numerator / denominator
  let rest := 2 * (numerator % denominator)
  if rest < denominator then quotient
  else if denominator < rest then quotient + 1
  else quotient + quotient % 2

/-- The exact value rounded to `places` digits behind the point, at least one. -/
def fixedText (binary : Binary) (places : Nat) : String :=
  let unit := Nat.pow 10 places
  let rounded := roundedDiv (binary.numerator * unit) binary.denominator
  (if binary.negative then "-" else "") ++ toString (rounded / unit) ++ "." ++
    Digits.padded places (rounded % unit)

end Binary

/-- Text of a floating-point number with a fixed number of digits behind the point. -/
def fixedText (value : Float) (places : Nat) : String :=
  if value.isNaN then "NaN"
  else if value.isInf then (if value < 0.0 then "-inf" else "inf")
  else (Binary.ofBits value.toBits.toNat).fixedText places

/-!
The shortest decimal that reads back as a given floating-point number. On the grid of decimals with
one digit, then two, and so on, the two neighbours of the number are tried; of two that read back
the nearer is taken.
-/

namespace Binary

/-- How often the number is divided by ten until it is below one. -/
def magnitude (binary : Binary) : Int :=
  let numerator := binary.numerator
  let denominator := binary.denominator
  if denominator ≤ numerator then
    (Digits.count (numerator / denominator) : Int)
  else
    1 - (Digits.count ((denominator - 1) / numerator) : Int)

/-- Distance down to the reals that round to the number, in quarters of its last place. -/
def below (binary : Binary) : Nat :=
  if binary.mantissa = hiddenBit ∧ leastExponent < binary.exponent then 1 else 2

/-- The multiple of `10 ^ grid` that reads back as the number, if one of its two neighbours on that
grid does. With `size = 4 * mantissa` all is scaled so that a quarter of a last place is `quarter`
and a step of the grid is `step`. -/
def onGrid? (binary : Binary) (grid : Int) : Option Nat :=
  let size := 4 * binary.mantissa
  let quarter := Nat.pow 2 (binary.exponent - 2).toNat * Nat.pow 10 (-grid).toNat
  let step := Nat.pow 10 grid.toNat * Nat.pow 2 (2 - binary.exponent).toNat
  let readsBack := fun (candidate : Nat) =>
    if binary.mantissa % 2 = 0 then
      decide ((size - binary.below) * quarter ≤ candidate * step) &&
        decide (candidate * step ≤ (size + 2) * quarter)
    else
      decide ((size - binary.below) * quarter < candidate * step) &&
        decide (candidate * step < (size + 2) * quarter)
  let lower := size * quarter / step
  let upper := lower + 1
  match readsBack lower, readsBack upper with
  | true, true =>
      some (if size * quarter - lower * step < upper * step - size * quarter then lower else upper)
  | true, false => some lower
  | false, true => some upper
  | false, false => none

/-- The shortest decimal that reads back as the number. Seventeen digits always do. The neighbour
above may have one digit more than its grid, and is then a power of ten. -/
def shortest (binary : Binary) : Decimal :=
  if binary.mantissa = 0 then
    ⟨binary.negative, 0, 0⟩
  else
    let found := (List.range' 1 17).findSome? fun (length : Nat) =>
      let grid := binary.magnitude - length
      (binary.onGrid? grid).map fun digits =>
        if digits = Nat.pow 10 length then (1, binary.magnitude) else (digits, grid)
    let (digits, grid) := found.getD (0, 0)
    ⟨binary.negative, digits, grid⟩

end Binary

def Numeral.ofFloat (value : Float) : Numeral :=
  if value.isNaN then .notANumber
  else if value.isInf then .infinite (value < 0.0)
  else .finite (Binary.ofBits value.toBits.toNat).shortest

end TiledPlacement
