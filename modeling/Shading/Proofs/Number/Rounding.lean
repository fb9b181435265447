import Mathlib.Algebra.Order.Field.Rat
import Mathlib.Data.Nat.Log
import Mathlib.Data.Rat.Cast.Order
import Mathlib.Tactic.Linarith
import Mathlib.Tactic.Ring
import Shading.Number.Shortest

/-!
# Rounding to a binary format

The fractions of `RoundingInterval.of` are the ones that round to a magnitude.

Main definitions:

- `Magnitude.Canonical` says that a magnitude is the one of a bit pattern.
- `RoundingInterval.Holds` says that a fraction lies in an interval.

Main results:

- `BinaryFormat.encode_decode`: a bit pattern is the one of its magnitude.
- `BinaryFormat.nearest_of_holds`: a fraction in the interval of a magnitude rounds to it.
-/

namespace Shading

/-! ## Magnitudes and bit patterns -/

/-- The magnitude of a bit pattern: its significand carries the hidden bit, or it is too
small for that. -/
structure Magnitude.Canonical (format : BinaryFormat) (m : Magnitude) : Prop where
  lt : m.significand < 2 * format.hidden
  normal : 0 < m.shift → format.hidden ≤ m.significand

namespace BinaryFormat

variable {format : BinaryFormat}

theorem hidden_pos (format : BinaryFormat) : 0 < format.hidden :=
  Nat.two_pow_pos _

theorem decode_canonical (bits : Nat) : (format.decode bits).Canonical format := by
  have hpos := format.hidden_pos
  unfold decode
  split
  · rename_i hlt
    exact ⟨by dsimp only; omega, fun h => absurd h (Nat.lt_irrefl 0)⟩
  · have hmod := Nat.mod_lt bits hpos
    exact ⟨by dsimp only; omega, fun _ => by dsimp only; omega⟩

/-- A bit pattern is the one of its magnitude. -/
theorem encode_decode (bits : Nat) : format.encode (format.decode bits) = bits := by
  have hpos := format.hidden_pos
  unfold encode decode
  split
  · simp
  · rename_i hle
    have hquotient : 1 ≤ bits / format.hidden := (Nat.one_le_div_iff hpos).mpr (by omega)
    have hdivision := Nat.div_add_mod bits format.hidden
    obtain ⟨k, hk⟩ := Nat.exists_eq_add_of_le hquotient
    rw [hk] at hdivision ⊢
    rw [Nat.mul_add, Nat.mul_one, Nat.mul_comm] at hdivision
    simp only [Nat.add_sub_cancel_left]
    omega

/-- A magnitude of a bit pattern is the one that the pattern stands for. -/
theorem decode_encode {m : Magnitude} (h : m.Canonical format) :
    format.decode (format.encode m) = m := by
  obtain ⟨sig, shift⟩ := m
  obtain ⟨hlt, hnormal⟩ := h
  dsimp only at hlt hnormal
  have hpos := format.hidden_pos
  unfold encode decode
  dsimp only
  by_cases hsig : sig < format.hidden
  · obtain rfl : shift = 0 := by
      by_contra hshift
      exact absurd (hnormal (Nat.pos_of_ne_zero hshift)) (by omega)
    rw [Nat.zero_mul, Nat.zero_add, if_pos hsig]
  · have hsplit : shift * format.hidden + sig
        = format.hidden * (shift + 1) + (sig - format.hidden) := by
      rw [Nat.mul_add, Nat.mul_comm, Nat.mul_one]
      omega
    have hle : format.hidden ≤ format.hidden * (shift + 1) := Nat.le_mul_of_pos_right _ (by omega)
    rw [hsplit, if_neg (by omega), Nat.mul_add_mod, Nat.mul_add_div hpos,
      Nat.mod_eq_of_lt (by omega), Nat.div_eq_of_lt (by omega)]
    congr 1
    omega

end BinaryFormat

/-! ## Intervals -/

/-- A fraction lies in the interval. -/
def RoundingInterval.Holds (r : RoundingInterval) (x : ℚ) : Prop :=
  if r.closed then r.low ≤ x * r.denominator ∧ x * r.denominator ≤ r.high
  else r.low < x * r.denominator ∧ x * r.denominator < r.high

theorem RoundingInterval.holds_iff {r : RoundingInterval} {n : Nat} :
    r.holds n = true ↔ r.Holds n := by
  unfold holds Holds
  split
  · rw [decide_eq_true_iff]
    norm_cast
  · rw [decide_eq_true_iff]
    norm_cast

/-- A fraction that rounds to a magnitude, measured in units of the last place: it is off
by half a unit at most, by less if the significand is odd, and by a quarter of a unit below
a power of two. -/
structure Magnitude.Near (format : BinaryFormat) (m : Magnitude) (scaled unit : Nat) :
    Prop where
  low : 4 * m.significand * unit ≤ 4 * scaled + 2 * unit
  high : 4 * scaled ≤ 4 * m.significand * unit + 2 * unit
  odd : m.significand % 2 = 1 →
    4 * m.significand * unit < 4 * scaled + 2 * unit ∧
      4 * scaled < 4 * m.significand * unit + 2 * unit
  power : m.significand = format.hidden → 0 < m.shift →
    4 * m.significand * unit ≤ 4 * scaled + unit

theorem Magnitude.near_of_holds {format : BinaryFormat} {m : Magnitude} {num den : Nat}
    (hden : 0 < den) (h : (RoundingInterval.of format m).Holds ((num : ℚ) / den)) :
    m.Near format (num * 2 ^ format.scale) (2 ^ m.shift * den) := by
  obtain ⟨sig, shift⟩ := m
  have hcast : (0 : ℚ) < den := by exact_mod_cast hden
  -- The interval bounds the scaled fraction once denominators are cleared.
  have hclear : ∀ bound : Nat,
      ((bound : ℚ) ≤ (num : ℚ) / den * (4 * 2 ^ format.scale : Nat) ↔
        bound * den ≤ 4 * (num * 2 ^ format.scale)) ∧
      ((num : ℚ) / den * (4 * 2 ^ format.scale : Nat) ≤ bound ↔
        4 * (num * 2 ^ format.scale) ≤ bound * den) := by
    intro bound
    have hfactor : (num : ℚ) / den * (4 * 2 ^ format.scale : Nat)
        = (4 * (num * 2 ^ format.scale) : Nat) / den := by
      push_cast
      ring
    rw [hfactor, le_div_iff₀ hcast, div_le_iff₀ hcast]
    norm_cast
  unfold RoundingInterval.of RoundingInterval.Holds at h
  dsimp only at h ⊢
  simp only [Nat.pow_eq] at h
  generalize hbelow : (if sig = format.hidden ∧ 0 < shift then 2 ^ shift else 2 * 2 ^ shift)
    = below at h
  have hpower : sig = format.hidden → 0 < shift → below = 2 ^ shift := by
    intro hsig hshift
    rw [← hbelow, if_pos ⟨hsig, hshift⟩]
  have hle : below ≤ 2 * 2 ^ shift := by
    rw [← hbelow]
    split <;> omega
  have hdistribute : (4 * sig * 2 ^ shift - below) * den
      = 4 * sig * (2 ^ shift * den) - below * den := by
    rw [Nat.sub_mul, Nat.mul_assoc]
  have hhigh : (4 * sig * 2 ^ shift + 2 * 2 ^ shift) * den
      = 4 * sig * (2 ^ shift * den) + 2 * (2 ^ shift * den) := by
    ring
  have hbound : below * den ≤ 2 * (2 ^ shift * den) := by
    rw [← Nat.mul_assoc]
    exact Nat.mul_le_mul_right _ hle
  split at h
  · rename_i hclosed
    rw [(hclear _).1, (hclear _).2, hdistribute, hhigh] at h
    have heven : sig % 2 = 0 := by simpa using hclosed
    refine ⟨by dsimp only; omega, by dsimp only; omega, fun hodd => ?_, fun hsig hshift => ?_⟩
    · dsimp only at hodd
      omega
    · rw [hpower hsig hshift] at h
      dsimp only
      omega
  · rw [← not_le, ← not_le, (hclear _).1, (hclear _).2, hdistribute, hhigh] at h
    refine ⟨by dsimp only; omega, by dsimp only; omega, fun _ => ?_, fun hsig hshift => ?_⟩
    · dsimp only
      omega
    · rw [hpower hsig hshift] at h
      dsimp only
      omega

/-! ## Rounding -/

namespace BinaryFormat

/-- A quotient that is off by half at most, and by less if the result is odd, is rounded to
the result. -/
theorem roundDiv_eq {num den n : Nat} (hden : 0 < den) (hlow : 2 * (n * den) ≤ 2 * num + den)
    (hhigh : 2 * num ≤ 2 * (n * den) + den)
    (hodd : n % 2 = 1 → 2 * (n * den) < 2 * num + den ∧ 2 * num < 2 * (n * den) + den) :
    roundDiv num den = n := by
  have hdivision := Nat.div_add_mod num den
  have hrest := Nat.mod_lt num hden
  unfold roundDiv
  dsimp only
  generalize num / den = quotient at hdivision ⊢
  generalize num % den = rest at hdivision hrest ⊢
  subst hdivision
  rw [Nat.mul_comm den quotient] at hlow hhigh hodd
  have hle : quotient ≤ n := by
    by_contra hlt
    have hmul := Nat.mul_le_mul_right den (show n + 1 ≤ quotient by omega)
    rw [Nat.add_mul, Nat.one_mul] at hmul
    omega
  have hge : n ≤ quotient + 1 := by
    by_contra hlt
    have hmul := Nat.mul_le_mul_right den (show quotient + 2 ≤ n by omega)
    rw [Nat.add_mul] at hmul
    omega
  rcases Nat.eq_or_lt_of_le hle with rfl | hlt
  · rw [if_pos (by omega)]
  · obtain rfl : n = quotient + 1 := by omega
    rw [Nat.add_mul, Nat.one_mul] at hlow hhigh hodd
    rw [if_neg (by omega)]

variable {format : BinaryFormat}

theorem two_mul_hidden (hprecision : 0 < format.precision) :
    2 * format.hidden = 2 ^ format.precision := by
  unfold hidden
  rw [Nat.pow_eq, ← Nat.pow_succ']
  congr 1
  omega

/-- The shift that rounding chooses, between powers of two. -/
theorem log2_shift {q shift : Nat} (hprecision : 0 < format.precision)
    (hlow : 0 < shift → 2 ^ (shift - 1) * (2 * format.hidden) ≤ q)
    (hhigh : q < 2 ^ shift * (2 * format.hidden)) : q.log2 + 1 - format.precision = shift := by
  rw [two_mul_hidden hprecision, ← Nat.pow_add] at hlow hhigh
  by_cases hq : q = 0
  · have hshift : ¬ 0 < shift := by
      intro hshift
      have hpow := Nat.two_pow_pos (shift - 1 + format.precision)
      have hle := hlow hshift
      omega
    rw [hq, Nat.log2_zero]
    omega
  · have hlt := (Nat.log2_lt hq).mpr hhigh
    by_cases hshift : 0 < shift
    · have hle := (Nat.le_log2 hq).mpr (hlow hshift)
      omega
    · omega

/-- The bit pattern of a fraction near a magnitude. -/
theorem encode_roundDiv {m : Magnitude} {scaled den : Nat} (hprecision : 0 < format.precision)
    (hm : m.Canonical format) (hden : 0 < den) (hnear : m.Near format scaled (2 ^ m.shift * den)) :
    let shift := (scaled / den).log2 + 1 - format.precision
    format.encode ⟨roundDiv scaled (den * 2 ^ shift), shift⟩ = format.encode m := by
  obtain ⟨sig, shift⟩ := m
  obtain ⟨hlt, hnormal⟩ := hm
  obtain ⟨hlow, hhigh, hodd, hpower⟩ := hnear
  dsimp only at hlt hnormal hlow hhigh hodd hpower ⊢
  have hpos := format.hidden_pos
  have hunit : 0 < 2 ^ shift * den := Nat.mul_pos (Nat.two_pow_pos shift) hden
  have hmul : ∀ k : Nat, k * (2 ^ shift * den) = 2 ^ shift * k * den := fun k => by ring
  have hsmall : scaled < 2 * format.hidden * (2 ^ shift * den) := by
    have hle := Nat.mul_le_mul_right (2 ^ shift * den)
      (show 4 * sig + 4 ≤ 4 * (2 * format.hidden) by omega)
    rw [Nat.add_mul, Nat.mul_assoc 4 (2 * format.hidden)] at hle
    omega
  have hquotient : scaled / den < 2 ^ shift * (2 * format.hidden) := by
    rw [Nat.div_lt_iff_lt_mul hden, ← hmul]
    exact hsmall
  by_cases hcase : 0 < shift → format.hidden * (2 ^ shift * den) ≤ scaled
  · -- The fraction has the scale of the magnitude.
    have hshift : (scaled / den).log2 + 1 - format.precision = shift := by
      refine log2_shift hprecision (fun hshift => ?_) hquotient
      rw [Nat.le_div_iff_mul_le hden]
      have htwo : 2 ^ (shift - 1) * (2 * format.hidden) = 2 ^ shift * format.hidden := by
        rw [← Nat.mul_assoc, ← Nat.pow_succ]
        congr 2
        omega
      rw [htwo, ← hmul]
      exact hcase hshift
    rw [hshift, Nat.mul_comm den]
    congr 2
    refine roundDiv_eq hunit ?_ ?_ ?_
    · rw [Nat.mul_assoc] at hlow
      omega
    · rw [Nat.mul_assoc] at hhigh
      omega
    · intro h
      rw [Nat.mul_assoc] at hodd
      have := hodd h
      omega
  · -- The fraction lies below a power of two, where units are half as large.
    obtain ⟨hshift, hbelow⟩ : 0 < shift ∧ scaled < format.hidden * (2 ^ shift * den) := by
      rw [Classical.not_imp] at hcase
      omega
    obtain rfl : sig = format.hidden := by
      refine Nat.le_antisymm ?_ (hnormal hshift)
      by_contra hgt
      have hle := Nat.mul_le_mul_right (2 ^ shift * den)
        (show 4 * format.hidden + 4 ≤ 4 * sig by omega)
      rw [Nat.add_mul, Nat.mul_assoc 4 format.hidden] at hle
      omega
    have hlow := hpower rfl hshift
    obtain ⟨half, rfl⟩ := Nat.exists_eq_add_of_le' hshift
    have hdouble : 2 ^ (half + 1) * den = 2 * (2 ^ half * den) := by ring
    have hunit : 0 < 2 ^ half * den := Nat.mul_pos (Nat.two_pow_pos half) hden
    rw [hdouble] at hlow hbelow
    have hfour : 4 * format.hidden * (2 * (2 ^ half * den))
        = 4 * (2 * format.hidden * (2 ^ half * den)) := by
      ring
    have htwo : format.hidden * (2 * (2 ^ half * den))
        = 2 * format.hidden * (2 ^ half * den) := by
      ring
    rw [hfour] at hlow
    rw [htwo] at hbelow
    have hone : 1 ≤ format.hidden := hpos
    have hk : (scaled / den).log2 + 1 - format.precision = half := by
      refine log2_shift hprecision (fun hhalf => ?_) ?_
      · rw [Nat.le_div_iff_mul_le hden]
        have hless : 2 ^ (half - 1) * (2 * format.hidden) * den
            = format.hidden * (2 ^ half * den) := by
          have hpow : 2 ^ half = 2 ^ (half - 1) * 2 := by
            rw [← Nat.pow_succ]
            congr 1
            omega
          rw [hpow]
          ring
        have hmore := Nat.mul_le_mul_right (2 ^ half * den) hone
        have hsplit : 2 * format.hidden * (2 ^ half * den)
            = 2 * (format.hidden * (2 ^ half * den)) :=
          Nat.mul_assoc _ _ _
        rw [hless]
        omega
      · rw [Nat.div_lt_iff_lt_mul hden]
        calc scaled < 2 * format.hidden * (2 ^ half * den) := hbelow
          _ = 2 ^ half * (2 * format.hidden) * den := by ring
    have hround : roundDiv scaled (den * 2 ^ half) = 2 * format.hidden := by
      rw [Nat.mul_comm den]
      refine roundDiv_eq hunit (by omega) (by omega) (fun h => ?_)
      omega
    rw [hk, hround]
    unfold encode
    dsimp only
    ring

/-- A fraction in the interval of a magnitude rounds to the magnitude. -/
theorem nearest_of_holds {m : Magnitude} {num den : Nat} (hprecision : 0 < format.precision)
    (hm : m.Canonical format) (hfinite : format.encode m < format.infinity) (hden : 0 < den)
    (h : (RoundingInterval.of format m).Holds ((num : ℚ) / den)) :
    format.nearest num den = format.encode m := by
  have hnear := Magnitude.near_of_holds hden h
  unfold nearest
  simp only [Nat.pow_eq]
  rw [encode_roundDiv hprecision hm hden hnear]
  omega

end BinaryFormat

end Shading
