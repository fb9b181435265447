/-!
# Binary floating-point formats

A finite magnitude of a binary format is a significand times a power of two over
a fixed scale, so all of its arithmetic stays in the natural numbers.  The module
reads a magnitude off its bit pattern and rounds an arbitrary fraction to the
nearest bit pattern, ties to the even significand.

Main definitions:

- `BinaryFormat.decode` and `BinaryFormat.encode` pass between bit patterns and
  magnitudes.
- `BinaryFormat.nearest` rounds a fraction to a format; a fraction above the
  greatest finite number goes to infinity.
- `Float32.parts?` and `Float.parts?` split a finite number into its sign and its
  magnitude, and `Float32.widen`, `Float.narrow` convert between the two formats.
-/

namespace Shading

/-- A binary format, given by its number of significant bits (the hidden bit
included), the scale of its least positive number `1 / 2 ^ scale`, and the bit
pattern of infinity. -/
structure BinaryFormat where
  precision : Nat
  scale : Nat
  infinity : Nat
  deriving Repr, DecidableEq

/-- The number `significand * 2 ^ shift / 2 ^ scale` of a format. -/
structure Magnitude where
  significand : Nat
  shift : Nat
  deriving Repr, DecidableEq

/-- The numerator of a magnitude over the denominator `2 ^ scale`. -/
def Magnitude.numerator (m : Magnitude) : Nat :=
  m.significand * Nat.pow 2 m.shift

namespace BinaryFormat

/-- The 32-bit format. -/
def single : BinaryFormat where
  precision := 24
  scale := 149
  infinity := 0x7f800000

/-- The 64-bit format. -/
def double : BinaryFormat where
  precision := 53
  scale := 1074
  infinity := 0x7ff0000000000000

/-- The least significand that carries the hidden bit. -/
def hidden (format : BinaryFormat) : Nat :=
  Nat.pow 2 (format.precision - 1)

/-- The magnitude of a bit pattern below infinity. -/
def decode (format : BinaryFormat) (bits : Nat) : Magnitude :=
  if bits < format.hidden then ⟨bits, 0⟩
  else ⟨bits % format.hidden + format.hidden, bits / format.hidden - 1⟩

/-- The bit pattern of a magnitude.  A significand of one bit too many carries
into the shift by itself. -/
def encode (format : BinaryFormat) (m : Magnitude) : Nat :=
  m.shift * format.hidden + m.significand

/-- The fraction rounded to the nearest integer, a half to the even one. -/
def roundDiv (num den : Nat) : Nat :=
  let quotient := num / den
  let rest := 2 * (num % den)
  if rest < den ∨ rest = den ∧ quotient % 2 = 0 then quotient else quotient + 1

/-- The bit pattern nearest to `num / den`. -/
def nearest (format : BinaryFormat) (num den : Nat) : Nat :=
  let scaled := num * Nat.pow 2 format.scale
  let shift := (scaled / den).log2 + 1 - format.precision
  min format.infinity (format.encode ⟨roundDiv scaled (den * Nat.pow 2 shift), shift⟩)

end BinaryFormat

/-! ## Numbers of the two formats -/

/-- The 32-bit number with the given sign and bits of its magnitude. -/
def Float32.ofMagnitudeBits (negative : Bool) (bits : Nat) : Float32 :=
  Float32.ofBits (UInt32.ofNat (if negative then bits + Nat.pow 2 31 else bits))

/-- The 64-bit number with the given sign and bits of its magnitude. -/
def Float.ofMagnitudeBits (negative : Bool) (bits : Nat) : Float :=
  Float.ofBits (UInt64.ofNat (if negative then bits + Nat.pow 2 63 else bits))

/-- Sign and magnitude of a finite number, and nothing for the others. -/
def Float32.parts? (x : Float32) : Option (Bool × Magnitude) :=
  let bits := x.toBits.toNat
  let magnitude := bits % Nat.pow 2 31
  if magnitude < BinaryFormat.single.infinity then
    some (decide (Nat.pow 2 31 ≤ bits), BinaryFormat.single.decode magnitude)
  else none

/-- Sign and magnitude of a finite number, and nothing for the others. -/
def Float.parts? (x : Float) : Option (Bool × Magnitude) :=
  let bits := x.toBits.toNat
  let magnitude := bits % Nat.pow 2 63
  if magnitude < BinaryFormat.double.infinity then
    some (decide (Nat.pow 2 63 ≤ bits), BinaryFormat.double.decode magnitude)
  else none

/-- The 64-bit number of the same value. -/
def Float32.widen (x : Float32) : Float :=
  match Float32.parts? x with
  | some (negative, m) =>
    Float.ofMagnitudeBits negative
      (BinaryFormat.double.nearest m.numerator (Nat.pow 2 BinaryFormat.single.scale))
  | none =>
    if x.isNaN then Float.ofMagnitudeBits false (BinaryFormat.double.infinity + Nat.pow 2 51)
    else Float.ofMagnitudeBits (decide (Nat.pow 2 31 ≤ x.toBits.toNat)) BinaryFormat.double.infinity

/-- The nearest 32-bit number; a value out of range becomes infinite. -/
def Float.narrow (x : Float) : Float32 :=
  match Float.parts? x with
  | some (negative, m) =>
    Float32.ofMagnitudeBits negative
      (BinaryFormat.single.nearest m.numerator (Nat.pow 2 BinaryFormat.double.scale))
  | none =>
    if x.isNaN then Float32.ofMagnitudeBits false (BinaryFormat.single.infinity + Nat.pow 2 22)
    else
      Float32.ofMagnitudeBits (decide (Nat.pow 2 63 ≤ x.toBits.toNat)) BinaryFormat.single.infinity

/-- Whether a number is neither infinite nor undefined. -/
def Float32.finite (x : Float32) : Bool :=
  (Float32.parts? x).isSome

/-- Whether a number is neither infinite nor undefined. -/
def Float.finite (x : Float) : Bool :=
  (Float.parts? x).isSome

end Shading
