import Mathlib
import Shading.Json.Record
import Shading.Proofs.Number.Shortest

/-!
# Finite numbers and their texts

A finite number is given by its sign and its magnitude.  Widening a number to 64 bits keeps
both exactly, so a number is determined by its text in either format.

Main definitions:

- `Magnitude.Finite` says that a magnitude belongs to a finite number of a format.

Main results:

- `Float.parts?_eq_some_iff` and its kin: sign and magnitude determine the bits.
- `Float32.parts?_widen`: widening keeps sign and magnitude.
- `Json.ofFloat_inj`, `Json.ofFloat32_inj` and `Json.ofWidened_inj`: a finite number is
  determined by its text.
-/

namespace Shading

variable {negative : Bool} {m : Magnitude} {x y : Float32}

open Float.Model
open Float.Model.UnpackedFloat (unpackExponent)

/-- The magnitude of a finite number. -/
structure Magnitude.Finite (format : BinaryFormat) (m : Magnitude) : Prop where
  canonical : m.Canonical format
  lt : format.encode m < format.infinity

theorem BinaryFormat.decode_finite {format : BinaryFormat} {bits : Nat}
    (h : bits < format.infinity) : (format.decode bits).Finite format :=
  ⟨decode_canonical bits, by rwa [encode_decode]⟩

/-! ## Numbers of 64 bits -/

/-- Bits whose exponent is not the greatest one are valid. -/
theorem valid_of_exponent_lt {spec : Format} {b : BitVec spec.numBits}
    (h : b.toNat / 2 ^ spec.mantissaBitsWithoutImplicit % 2 ^ spec.exponentBits + 1
      < 2 ^ spec.exponentBits) : spec.Valid b := by
  refine ⟨fun hexponent => absurd (congrArg BitVec.toNat hexponent) ?_⟩
  have hwidth : spec.mantissaBitsWithoutImplicit + spec.exponentBits - 1
      - spec.mantissaBitsWithoutImplicit + 1 = spec.exponentBits := by
    have he := spec.he
    omega
  rw [BitVec.neg_one_eq_allOnes, BitVec.toNat_allOnes, unpackExponent, BitVec.toNat_cast,
    BitVec.extractLsb_toNat, Nat.shiftRight_eq_div_pow, hwidth]
  omega

/-- Valid bits are the bits of the number that is read off them. -/
theorem toBits_ofBits_of_valid {w : UInt64} (h : Format.binary64.Valid w.toBitVec) :
    (Float.ofBits w).toBits = w := by
  unfold Float.ofBits Float.Model.ofBits Float.Model.pack Float.toBits
  simp only [UnpackedFloat.pack_unpack_of_valid h]

namespace Float

/-- The bits of a finite number are those of its magnitude behind the sign. -/
theorem toBits_of_parts? {x : Float} (h : parts? x = some (negative, m)) :
    m.Finite .double ∧ x.toBits.toNat
      = if negative then BinaryFormat.double.encode m + 2 ^ 63
        else BinaryFormat.double.encode m := by
  have hlt : x.toBits.toNat < 2 ^ 64 := x.toBits.toNat_lt
  unfold parts? at h
  dsimp only at h
  split at h
  · rename_i hfinite
    simp only [Option.some.injEq, Prod.mk.injEq] at h
    obtain ⟨rfl, rfl⟩ := h
    refine ⟨BinaryFormat.decode_finite hfinite, ?_⟩
    rw [BinaryFormat.encode_decode]
    simp only [Nat.pow_eq, decide_eq_true_eq]
    split <;> omega
  · cases h

theorem eq_of_parts? {x y : Float} {parts : Bool × Magnitude} (hx : parts? x = some parts)
    (hy : parts? y = some parts) : x = y := by
  obtain ⟨negative, m⟩ := parts
  have hbits : x.toBits = y.toBits := by
    apply UInt64.toNat_inj.mp
    rw [(toBits_of_parts? hx).2, (toBits_of_parts? hy).2]
  rw [← Float.ofBits_toBits x, hbits, Float.ofBits_toBits]

theorem parts?_ofMagnitudeBits (negative : Bool) {bits : Nat}
    (h : bits < BinaryFormat.double.infinity) :
    parts? (ofMagnitudeBits negative bits) = some (negative, BinaryFormat.double.decode bits) := by
  have hinfinity : BinaryFormat.double.infinity = 2047 * 2 ^ 52 := by decide
  have hword : (UInt64.ofNat (if negative then bits + Nat.pow 2 63 else bits)).toNat
      = if negative then bits + 2 ^ 63 else bits := by
    rw [UInt64.toNat_ofNat', Nat.pow_eq]
    cases negative <;> simp only [Bool.false_eq_true, if_true, if_false] <;> omega
  unfold ofMagnitudeBits
  generalize UInt64.ofNat (if negative then bits + Nat.pow 2 63 else bits) = word at hword
  have hvalid : Format.binary64.Valid word.toBitVec := by
    apply valid_of_exponent_lt
    rw [UInt64.toNat_toBitVec, hword]
    change _ / 2 ^ 52 % 2 ^ 11 + 1 < 2 ^ 11
    cases negative <;> simp only [Bool.false_eq_true, if_true, if_false] <;> omega
  unfold parts?
  rw [toBits_ofBits_of_valid hvalid, hword]
  have hmagnitude : (if negative then bits + 2 ^ 63 else bits) % Nat.pow 2 63 = bits := by
    rw [Nat.pow_eq]
    cases negative <;> simp only [Bool.false_eq_true, if_true, if_false] <;> omega
  have hsign : decide (Nat.pow 2 63 ≤ if negative then bits + 2 ^ 63 else bits) = negative := by
    rw [Nat.pow_eq]
    cases negative <;> simp only [Bool.false_eq_true, if_true, if_false, decide_eq_true_eq,
      decide_eq_false_iff_not] <;> omega
  dsimp only
  rw [hmagnitude, if_pos h, hsign]

end Float

/-! ## Numbers of 32 bits -/

namespace Float32

/-- The bits of a finite number are those of its magnitude behind the sign. -/
theorem toBits_of_parts? (h : parts? x = some (negative, m)) :
    m.Finite .single ∧ x.toBits.toNat
      = if negative then BinaryFormat.single.encode m + 2 ^ 31
        else BinaryFormat.single.encode m := by
  have hlt : x.toBits.toNat < 2 ^ 32 := x.toBits.toNat_lt
  unfold parts? at h
  dsimp only at h
  split at h
  · rename_i hfinite
    simp only [Option.some.injEq, Prod.mk.injEq] at h
    obtain ⟨rfl, rfl⟩ := h
    refine ⟨BinaryFormat.decode_finite hfinite, ?_⟩
    rw [BinaryFormat.encode_decode]
    simp only [Nat.pow_eq, decide_eq_true_eq]
    split <;> omega
  · cases h

theorem eq_of_parts? {parts : Bool × Magnitude} (hx : parts? x = some parts)
    (hy : parts? y = some parts) : x = y := by
  obtain ⟨negative, m⟩ := parts
  have hbits : x.toBits = y.toBits := by
    apply UInt32.toNat_inj.mp
    rw [(toBits_of_parts? hx).2, (toBits_of_parts? hy).2]
  rw [← Float32.ofBits_toBits x, hbits, Float32.ofBits_toBits]

end Float32

/-! ## Widening -/

namespace Magnitude

theorem value_eq_numerator (format : BinaryFormat) (m : Magnitude) :
    m.value format = (m.numerator : ℚ) / (2 ^ format.scale : Nat) := by
  unfold value ulp numerator
  rw [Nat.pow_eq]
  push_cast
  rw [mul_div_assoc]

/-- The value of a finite number rounds to the number. -/
theorem Finite.nearest {format : BinaryFormat} {m : Magnitude} (hm : m.Finite format)
    (hprecision : 0 < format.precision) {num den : Nat} (hden : 0 < den)
    (h : (num : ℚ) / den = m.value format) : format.nearest num den = format.encode m := by
  by_cases hsig : m.significand = 0
  · have hshift : m.shift = 0 := by
      by_contra hshift
      have hle := hm.canonical.normal (Nat.pos_of_ne_zero hshift)
      have hpos := format.hidden_pos
      omega
    obtain rfl : num = 0 := by
      have hcast : (den : ℚ) ≠ 0 := by exact_mod_cast hden.ne'
      unfold value at h
      rw [hsig, Nat.cast_zero, zero_mul, div_eq_zero_iff] at h
      exact_mod_cast h.resolve_right hcast
    have hzero : 0 + 1 - format.precision = 0 := by omega
    unfold BinaryFormat.nearest BinaryFormat.encode BinaryFormat.roundDiv
    simp [hsig, hshift, hzero, hden]
  · refine BinaryFormat.nearest_of_holds hprecision hm.canonical hm.lt hden ?_
    rw [h]
    exact value_holds (Nat.pos_of_ne_zero hsig)

/-- Numbers of one format with the same value have the same magnitude. -/
theorem Finite.eq_of_numerator {format : BinaryFormat} {m' : Magnitude} (hm : m.Finite format)
    (hm' : m'.Finite format) (hprecision : 0 < format.precision) (h : m.numerator = m'.numerator) :
    m = m' := by
  have hden : 0 < 2 ^ format.scale := Nat.two_pow_pos _
  have hbits := hm.nearest hprecision hden (m.value_eq_numerator format).symm
  have hbits' := hm'.nearest hprecision hden (m'.value_eq_numerator format).symm
  rw [h, hbits'] at hbits
  rw [← BinaryFormat.decode_encode hm.canonical, ← hbits,
    BinaryFormat.decode_encode hm'.canonical]

/-- How much finer the scale of numbers of 64 bits is than that of 32 bits. -/
def wideningFactor : Nat :=
  2 ^ (BinaryFormat.double.scale - BinaryFormat.single.scale)

theorem wideningFactor_pos : 0 < wideningFactor := by
  unfold wideningFactor
  positivity

/-- Every number of 32 bits is one of 64 bits. -/
theorem Finite.exists_widened (hm : m.Finite .single) :
    ∃ m' : Magnitude, m'.Finite .double ∧ m'.numerator = m.numerator * wideningFactor := by
  obtain ⟨sig, shift⟩ := m
  by_cases hzero : sig = 0
  · refine ⟨⟨0, 0⟩, ⟨⟨by decide, by decide⟩, by decide⟩, ?_⟩
    unfold numerator
    simp only [hzero, Nat.zero_mul]
  · have hsig : sig < 2 ^ 24 := hm.canonical.lt
    have hshift : shift < 255 := by
      have hlt : shift * 2 ^ 23 + sig < 255 * 2 ^ 23 := hm.lt
      omega
    have hlog := (Nat.log2_lt hzero).mpr hsig
    have hlow : 2 ^ 52 ≤ sig * 2 ^ (52 - sig.log2) := by
      calc 2 ^ 52 = 2 ^ sig.log2 * 2 ^ (52 - sig.log2) := by
            rw [← Nat.pow_add]
            congr 1
            omega
        _ ≤ sig * 2 ^ (52 - sig.log2) := Nat.mul_le_mul_right _ (Nat.log2_self_le hzero)
    have hhigh : sig * 2 ^ (52 - sig.log2) < 2 * 2 ^ 52 := by
      calc sig * 2 ^ (52 - sig.log2) < 2 ^ (sig.log2 + 1) * 2 ^ (52 - sig.log2) :=
            Nat.mul_lt_mul_of_pos_right Nat.lt_log2_self (Nat.two_pow_pos _)
        _ = 2 * 2 ^ 52 := by
            rw [← Nat.pow_add, ← Nat.pow_succ']
            congr 1
            omega
    refine ⟨⟨sig * 2 ^ (52 - sig.log2), shift + 925 - (52 - sig.log2)⟩,
      ⟨⟨hhigh, fun _ => hlow⟩, ?_⟩, ?_⟩
    · change (shift + 925 - (52 - sig.log2)) * 2 ^ 52 + sig * 2 ^ (52 - sig.log2) < 2047 * 2 ^ 52
      omega
    · unfold numerator wideningFactor
      simp only [Nat.pow_eq]
      rw [Nat.mul_assoc, Nat.mul_assoc, ← Nat.pow_add, ← Nat.pow_add]
      congr 2
      change 52 - sig.log2 + (shift + 925 - (52 - sig.log2)) = shift + 925
      omega

end Magnitude

/-- Widening keeps the sign and the value. -/
theorem Float32.parts?_widen (h : parts? x = some (negative, m)) :
    ∃ m', Float.parts? (widen x) = some (negative, m') ∧
      m'.numerator = m.numerator * Magnitude.wideningFactor := by
  obtain ⟨m', hm', hnumerator⟩ := (toBits_of_parts? h).1.exists_widened
  have hnearest : BinaryFormat.double.nearest m.numerator (Nat.pow 2 BinaryFormat.single.scale)
      = BinaryFormat.double.encode m' := by
    refine hm'.nearest (by decide) (Nat.two_pow_pos _) ?_
    rw [Magnitude.value_eq_numerator, hnumerator]
    have hscale : 2 ^ BinaryFormat.double.scale
        = Nat.pow 2 BinaryFormat.single.scale * Magnitude.wideningFactor := by
      unfold Magnitude.wideningFactor
      rw [Nat.pow_eq, ← Nat.pow_add]
      congr 1
    rw [hscale, Nat.cast_mul, Nat.cast_mul,
      mul_div_mul_right _ _ (Nat.cast_ne_zero.mpr Magnitude.wideningFactor_pos.ne')]
  refine ⟨m', ?_, hnumerator⟩
  unfold widen
  rw [h]
  dsimp only
  rw [hnearest, Float.parts?_ofMagnitudeBits negative hm'.lt,
    BinaryFormat.decode_encode hm'.canonical]

/-! ## Texts -/

namespace Json

/-- A finite number of 64 bits is determined by its text. -/
theorem ofFloat_inj {x y : Float} (hx : Float.finite x) (hy : Float.finite y)
    (h : ofFloat x = ofFloat y) : x = y := by
  obtain ⟨⟨negative, m⟩, hparts⟩ := Option.isSome_iff_exists.mp hx
  obtain ⟨⟨negative', m'⟩, hparts'⟩ := Option.isSome_iff_exists.mp hy
  obtain ⟨hm, -⟩ := Float.toBits_of_parts? hparts
  obtain ⟨hm', -⟩ := Float.toBits_of_parts? hparts'
  unfold ofFloat at h
  rw [hparts, hparts'] at h
  obtain ⟨rfl, rfl⟩ := FloatStyle.numeral_inj BinaryFormat.double_readable hm.canonical hm.lt
    hm'.canonical hm'.lt (Json.number.inj h)
  exact Float.eq_of_parts? hparts hparts'

/-- A finite number of 32 bits is determined by its text. -/
theorem ofFloat32_inj (hx : Float32.finite x) (hy : Float32.finite y)
    (h : ofFloat32 x = ofFloat32 y) : x = y := by
  obtain ⟨⟨negative, m⟩, hparts⟩ := Option.isSome_iff_exists.mp hx
  obtain ⟨⟨negative', m'⟩, hparts'⟩ := Option.isSome_iff_exists.mp hy
  obtain ⟨hm, -⟩ := Float32.toBits_of_parts? hparts
  obtain ⟨hm', -⟩ := Float32.toBits_of_parts? hparts'
  unfold ofFloat32 at h
  rw [hparts, hparts'] at h
  obtain ⟨rfl, rfl⟩ := FloatStyle.numeral_inj BinaryFormat.single_readable hm.canonical hm.lt
    hm'.canonical hm'.lt (Json.number.inj h)
  exact Float32.eq_of_parts? hparts hparts'

/-- A finite number of 32 bits is determined by its text with the digits of 64 bits. -/
theorem ofWidened_inj (hx : Float32.finite x) (hy : Float32.finite y)
    (h : ofWidened x = ofWidened y) : x = y := by
  obtain ⟨⟨negative, m⟩, hparts⟩ := Option.isSome_iff_exists.mp hx
  obtain ⟨⟨negative', m'⟩, hparts'⟩ := Option.isSome_iff_exists.mp hy
  obtain ⟨wide, hwide, hnumerator⟩ := Float32.parts?_widen hparts
  obtain ⟨wide', hwide', hnumerator'⟩ := Float32.parts?_widen hparts'
  have hfloat :=
    ofFloat_inj (by rw [Float.finite, hwide]; rfl) (by rw [Float.finite, hwide']; rfl) h
  rw [hfloat, hwide', Option.some.injEq, Prod.mk.injEq] at hwide
  obtain ⟨rfl, rfl⟩ := hwide
  rw [hnumerator] at hnumerator'
  have hm := (Float32.toBits_of_parts? hparts).1
  have hm' := (Float32.toBits_of_parts? hparts').1
  obtain rfl := hm.eq_of_numerator hm' (by decide)
    (Nat.eq_of_mul_eq_mul_right Magnitude.wideningFactor_pos hnumerator')
  exact Float32.eq_of_parts? hparts hparts'

end Json

end Shading
