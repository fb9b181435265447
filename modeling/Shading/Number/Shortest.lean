import Shading.Number.Binary
import Shading.Number.Decimal

/-!
# The shortest decimal of a binary number

The written form of a finite number is the shortest decimal that reads back as
the number, and among the decimals of that length the one nearest to it.  The
search walks through the decimal grids of one, two, three and more digits and
tests the two neighbours of the number on each grid.

Main definitions:

- `RoundingInterval.of` is the set of fractions that round to a magnitude.
- `shortestDecimal` is the shortest decimal in that set.
- `FloatStyle` fixes how a decimal is laid out as a numeral.
-/

namespace Shading

/-- Which of two equally near decimals is taken. -/
inductive Tie
  | even
  | up
  deriving Repr, DecidableEq

/-- The fractions between two bounds over a common denominator, around a middle;
`closed` says whether the bounds belong to the set. -/
structure RoundingInterval where
  low : Nat
  middle : Nat
  high : Nat
  denominator : Nat
  closed : Bool
  deriving Repr, DecidableEq

namespace RoundingInterval

/-- The fractions that round to a magnitude.  The gap below a power of two is half
as wide as the gap above it, and an even significand owns its bounds. -/
def of (format : BinaryFormat) (m : Magnitude) : RoundingInterval :=
  let unit := Nat.pow 2 m.shift
  let below := if m.significand = format.hidden ∧ 0 < m.shift then unit else 2 * unit
  { low := 4 * m.significand * unit - below
    middle := 4 * m.significand * unit
    high := 4 * m.significand * unit + 2 * unit
    denominator := 4 * Nat.pow 2 format.scale
    closed := m.significand % 2 == 0 }

/-- Multiplies every fraction by the same factor `num / den`. -/
def rescale (r : RoundingInterval) (num den : Nat) : RoundingInterval :=
  { r with
    low := r.low * num
    middle := r.middle * num
    high := r.high * num
    denominator := r.denominator * den }

/-- Whether a whole number lies in the interval. -/
def holds (r : RoundingInterval) (n : Nat) : Bool :=
  let scaled := n * r.denominator
  if r.closed then decide (r.low ≤ scaled ∧ scaled ≤ r.high)
  else decide (r.low < scaled ∧ scaled < r.high)

/-- The whole number of the interval that is nearest to its middle, if one of the
two neighbours of the middle lies in it. -/
def nearest? (tie : Tie) (r : RoundingInterval) : Option Nat :=
  let below := r.middle / r.denominator
  let above := below + 1
  match r.holds below, r.holds above with
  | false, false => none
  | true, false => some below
  | false, true => some above
  | true, true =>
    let down := r.middle - below * r.denominator
    let up := above * r.denominator - r.middle
    if down < up then some below
    else if up < down then some above
    else match tie with
      | .up => some above
      | .even => some (if below % 2 = 0 then below else above)

end RoundingInterval

/-- The number of decimal digits, none for zero. -/
def digitCount (n : Nat) : Nat :=
  if n = 0 then 0 else (Digits.ofNat n).length

/-- The power of ten of the first digit of a positive fraction. -/
def leadingPower (num den : Nat) : Int :=
  if den ≤ num then (digitCount (num / den) : Int) - 1 else -(digitCount ((den - 1) / num) : Int)

/-- The interval measured in units of `10 ^ power`. -/
def RoundingInterval.inUnits (r : RoundingInterval) (power : Int) : RoundingInterval :=
  if power < 0 then r.rescale (Nat.pow 10 power.natAbs) 1 else r.rescale 1 (Nat.pow 10 power.natAbs)

/-- Searches the grids of `count`, `count + 1`, … digits, at most `grids` of them,
for the first one that meets the interval. -/
def shortestOn (tie : Tie) (r : RoundingInterval) (leading : Int) : (grids count : Nat) → Nat × Int
  | 0, count => (r.middle / r.denominator, leading - count)
  | grids + 1, count =>
    let power := leading - count + 1
    match (r.inUnits power).nearest? tie with
    | some n => (n, power)
    | none => shortestOn tie r leading grids (count + 1)

/-- The shortest decimal that rounds to a positive magnitude, the nearest one of
its length.  Seventeen digits always suffice. -/
def shortestDecimal (format : BinaryFormat) (tie : Tie) (m : Magnitude) : Decimal :=
  let r := RoundingInterval.of format m
  let (n, power) := shortestOn tie r (leadingPower r.middle r.denominator) 17 1
  let digits := Digits.ofNat n
  ⟨digits.trimZeros, power + digits.length - 1⟩

/-! ## Layout of a number -/

/-- How numbers are laid out: the powers of ten of the first digit between which no
exponent is written, and which of two equally near decimals is taken. -/
structure FloatStyle where
  least : Int
  greatest : Int
  tie : Tie
  deriving Repr, DecidableEq

/-- The numeral of a signed magnitude. -/
def FloatStyle.numeral (style : FloatStyle) (format : BinaryFormat) (negative : Bool)
    (m : Magnitude) : Numeral :=
  if m.significand = 0 then ⟨negative, 0, Digits.ofNat 0, none⟩
  else
    let d := shortestDecimal format style.tie m
    if style.least ≤ d.exponent ∧ d.exponent ≤ style.greatest then d.positional negative
    else d.scientific negative

/-! ## Reading a numeral -/

/-- Beyond this power of ten of the first digit every number of either format is
infinite, and below its negative every number is zero. -/
def powerLimit : Int := 400

/-- The bits of the magnitude nearest to the value of a numeral. -/
def Numeral.magnitudeBits (format : BinaryFormat) (n : Numeral) : Nat :=
  let size : Int := n.power + digitCount n.significand
  if n.significand = 0 ∨ size < -powerLimit then 0
  else if powerLimit < size then format.infinity
  else if n.power < 0 then format.nearest n.significand (Nat.pow 10 n.power.natAbs)
  else format.nearest (n.significand * Nat.pow 10 n.power.natAbs) 1

/-- The 64-bit number nearest to a numeral, if it is finite. -/
def Numeral.float? (n : Numeral) : Option Float :=
  let bits := n.magnitudeBits BinaryFormat.double
  if bits < BinaryFormat.double.infinity then some (Float.ofMagnitudeBits n.negative bits)
  else none

/-- The 32-bit number of a numeral.  Whole numbers of 64 bits are rounded at once,
all others by way of the 64-bit format; a value out of the 32-bit range becomes
infinite. -/
def Numeral.float32? (n : Numeral) : Option Float32 :=
  match n.int? with
  | some i =>
    if -9223372036854775808 ≤ i ∧ i ≤ 18446744073709551615 then
      some (Float32.ofMagnitudeBits n.negative (n.magnitudeBits BinaryFormat.single))
    else n.float?.map Float.narrow
  | none => n.float?.map Float.narrow

end Shading
