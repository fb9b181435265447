/-!
# Decimal digits and numerals

A numeral is a number as it is written: a sign, a whole part, the digits after
the point and an optional power of ten.  The value of a numeral is a fraction of
natural numbers, so it can be rounded to any format afterwards.

Main definitions:

- `Digits.ofNat` and `Digits.toNat` pass between a natural number and its
  decimal digits, most significant first.
- `Numeral` is the written form, `Numeral.chars` its text.
- `Decimal` is a digit string with the power of ten of its first digit, and
  `Decimal.positional`, `Decimal.scientific` are its two written forms.
-/

namespace Shading

/-- Decimal digits, most significant first. -/
abbrev Digits := List (Fin 10)

namespace Digits

/-- The digits of a natural number; zero has one digit. -/
def ofNat (n : Nat) : Digits :=
  if n < 10 then [Fin.ofNat 10 n] else ofNat (n / 10) ++ [Fin.ofNat 10 n]
termination_by n
decreasing_by omega

/-- The number that the digits spell. -/
def toNat (digits : Digits) : Nat :=
  digits.foldl (fun value digit => 10 * value + digit.val) 0

/-- The character of one digit. -/
def char (digit : Fin 10) : Char :=
  Char.ofNat ('0'.toNat + digit.val)

/-- The digit that a character stands for. -/
def ofChar? (c : Char) : Option (Fin 10) :=
  if '0' ≤ c ∧ c ≤ '9' then some (Fin.ofNat 10 (c.toNat - '0'.toNat)) else none

/-- The digits as text. -/
def chars (digits : Digits) : List Char :=
  digits.map char

/-- The digits without the zeros at the end. -/
def trimZeros (digits : Digits) : Digits :=
  (digits.reverse.dropWhile (· == 0)).reverse

end Digits

/-! ## Numerals -/

/-- A number as it is written.  No digits after the point means that there is no
point, and no exponent that no power of ten is written. -/
structure Numeral where
  negative : Bool
  whole : Nat
  fraction : Digits
  exponent : Option Int
  deriving Repr, DecidableEq

namespace Numeral

/-- The text of an exponent, with a plus sign only on request. -/
def exponentChars (plus : Bool) (e : Int) : List Char :=
  (if e < 0 then ['-'] else if plus then ['+'] else []) ++ (Digits.ofNat e.natAbs).chars

/-- The text of a numeral. -/
def chars (plus : Bool) (n : Numeral) : List Char :=
  (if n.negative then ['-'] else []) ++ (Digits.ofNat n.whole).chars
    ++ (if n.fraction.isEmpty then [] else '.' :: n.fraction.chars)
    ++ (match n.exponent with
        | none => []
        | some e => 'e' :: exponentChars plus e)

/-- A whole number as a numeral. -/
def ofInt (n : Int) : Numeral where
  negative := decide (n < 0)
  whole := n.natAbs
  fraction := []
  exponent := none

/-- The digits of the numeral read as one whole number. -/
def significand (n : Numeral) : Nat :=
  n.whole * Nat.pow 10 n.fraction.length + n.fraction.toNat

/-- The power of ten by which the significand is scaled. -/
def power (n : Numeral) : Int :=
  n.exponent.getD 0 - n.fraction.length

/-- The whole number written without a point and an exponent.  A negative zero is
no whole number. -/
def int? (n : Numeral) : Option Int :=
  if n.fraction.isEmpty && n.exponent.isNone && !(n.negative && n.whole == 0) then
    some (if n.negative then -(n.whole : Int) else n.whole)
  else none

end Numeral

/-! ## Digit strings with a power of ten -/

/-- The number `d₀.d₁d₂… * 10 ^ exponent` of a digit string `d₀d₁d₂…`. -/
structure Decimal where
  digits : Digits
  exponent : Int
  deriving Repr, DecidableEq

namespace Decimal

/-- The decimal written without an exponent, with at least one digit after the
point. -/
def positional (negative : Bool) (d : Decimal) : Numeral :=
  if d.exponent < 0 then
    ⟨negative, 0, List.replicate (d.exponent.natAbs - 1) 0 ++ d.digits, none⟩
  else
    let point := d.exponent.natAbs + 1
    let whole := d.digits.take point ++ List.replicate (point - d.digits.length) 0
    let fraction := d.digits.drop point
    ⟨negative, Digits.toNat whole, if fraction.isEmpty then [0] else fraction, none⟩

/-- The decimal written with one digit before the point. -/
def scientific (negative : Bool) (d : Decimal) : Numeral :=
  ⟨negative, Digits.toNat (d.digits.take 1), d.digits.drop 1, some d.exponent⟩

end Decimal

end Shading
