import Mathlib.Data.Nat.Cast.Order.Field
import Mathlib.Tactic.FieldSimp
import Mathlib.Tactic.Positivity
import Shading.Proofs.Number.Digits
import Shading.Proofs.Number.Rounding

/-!
# Written numbers read back

A number is written with the fewest digits that tell it from its neighbours, at most
seventeen.  The numeral lies in the interval of the fractions that round to the number, so
rounding it gives the number back, and different numbers are written differently.

Main definitions:

- `BinaryFormat.Readable` collects what is needed of a format.
- `Magnitude.value` and `Magnitude.ulp` are the value of a magnitude and of its last place.

Main results:

- `shortestDecimal_holds`: the shortest decimal rounds to its magnitude.
- `FloatStyle.magnitudeBits_numeral`: a written number reads back.
- `FloatStyle.numeral_inj`: different numbers are written differently.
-/

namespace Shading

/-- Seventeen digits tell the numbers of a format apart, and its numbers lie between the
powers of ten at which reading gives up. -/
structure BinaryFormat.Readable (format : BinaryFormat) : Prop where
  precision : 2 ≤ format.precision
  digits : 2 ^ format.precision ≤ 10 ^ 16
  scale : format.scale ≤ 1074
  infinity : format.infinity ≤ (format.scale + 1025) * format.hidden

theorem BinaryFormat.single_readable : single.Readable where
  precision := by decide
  digits := by decide
  scale := by decide
  infinity := by decide

theorem BinaryFormat.double_readable : double.Readable where
  precision := by decide
  digits := by decide
  scale := by decide
  infinity := by decide

/-! ## The interval of a magnitude -/

namespace Magnitude

/-- The value of a unit in the last place. -/
def ulp (format : BinaryFormat) (m : Magnitude) : ℚ :=
  2 ^ m.shift / 2 ^ format.scale

/-- The value of a magnitude. -/
def value (format : BinaryFormat) (m : Magnitude) : ℚ :=
  m.significand * m.ulp format

/-- How far the interval reaches below the magnitude. -/
def gap (format : BinaryFormat) (m : Magnitude) : ℚ :=
  if m.significand = format.hidden ∧ 0 < m.shift then m.ulp format / 4 else m.ulp format / 2

variable {format : BinaryFormat} {m : Magnitude}

theorem ulp_pos (format : BinaryFormat) (m : Magnitude) : 0 < m.ulp format := by
  unfold ulp
  positivity

theorem gap_le (format : BinaryFormat) (m : Magnitude) : m.gap format ≤ m.ulp format / 2 := by
  have hpos := m.ulp_pos format
  unfold gap
  split
  · linarith
  · rfl

theorem gap_pos (format : BinaryFormat) (m : Magnitude) : 0 < m.gap format := by
  have hpos := m.ulp_pos format
  unfold gap
  split <;> linarith

/-- The interval of a magnitude in fractions: an even significand owns the bounds. -/
theorem holds_iff (hsig : 0 < m.significand) {x : ℚ} :
    (RoundingInterval.of format m).Holds x ↔
      if m.significand % 2 = 0 then
        m.value format - m.gap format ≤ x ∧ x ≤ m.value format + m.ulp format / 2
      else m.value format - m.gap format < x ∧ x < m.value format + m.ulp format / 2 := by
  obtain ⟨sig, shift⟩ := m
  dsimp only at hsig
  have hden : (0 : ℚ) < 4 * 2 ^ format.scale := by positivity
  have hscale : (2 : ℚ) ^ format.scale ≠ 0 := by positivity
  have hbelow : (if sig = format.hidden ∧ 0 < shift then 2 ^ shift else 2 * 2 ^ shift : Nat)
      ≤ 4 * sig * 2 ^ shift := by
    have hle := Nat.mul_le_mul_right (2 ^ shift) (show 4 ≤ 4 * sig by omega)
    split <;> omega
  have hlow : ((4 * sig * 2 ^ shift
        - (if sig = format.hidden ∧ 0 < shift then 2 ^ shift else 2 * 2 ^ shift) : Nat) : ℚ)
      = (value format ⟨sig, shift⟩ - gap format ⟨sig, shift⟩) * (4 * 2 ^ format.scale) := by
    rw [Nat.cast_sub hbelow]
    unfold value gap ulp
    dsimp only
    split
    · push_cast
      field_simp
    · push_cast
      field_simp
      ring
  have hhigh : ((4 * sig * 2 ^ shift + 2 * 2 ^ shift : Nat) : ℚ)
      = (value format ⟨sig, shift⟩ + ulp format ⟨sig, shift⟩ / 2) * (4 * 2 ^ format.scale) := by
    unfold value ulp
    push_cast
    field_simp
    ring
  unfold RoundingInterval.of RoundingInterval.Holds
  simp only [Nat.pow_eq, hlow, hhigh, beq_iff_eq]
  push_cast
  rw [mul_le_mul_iff_left₀ hden, mul_le_mul_iff_left₀ hden, mul_lt_mul_iff_left₀ hden,
    mul_lt_mul_iff_left₀ hden]

/-- A fraction nearer than the bounds lies in the interval. -/
theorem holds_of_lt (hsig : 0 < m.significand) {x : ℚ} (hlow : m.value format - m.gap format < x)
    (hhigh : x < m.value format + m.ulp format / 2) : (RoundingInterval.of format m).Holds x := by
  rw [holds_iff hsig]
  split
  · exact ⟨hlow.le, hhigh.le⟩
  · exact ⟨hlow, hhigh⟩

theorem bounds_of_holds (hsig : 0 < m.significand) {x : ℚ}
    (h : (RoundingInterval.of format m).Holds x) :
    m.value format - m.gap format ≤ x ∧ x ≤ m.value format + m.ulp format / 2 := by
  rw [holds_iff hsig] at h
  split at h
  · exact h
  · exact ⟨h.1.le, h.2.le⟩

theorem value_holds (hsig : 0 < m.significand) :
    (RoundingInterval.of format m).Holds (m.value format) := by
  have hulp := m.ulp_pos format
  have hgap := m.gap_pos format
  exact holds_of_lt hsig (by linarith) (by linarith)

theorem middle_div_denominator (format : BinaryFormat) (m : Magnitude) :
    ((RoundingInterval.of format m).middle : ℚ) / (RoundingInterval.of format m).denominator
      = m.value format := by
  unfold RoundingInterval.of value ulp
  simp only [Nat.pow_eq]
  push_cast
  field_simp

end Magnitude

/-! ## Decimal grids -/

namespace RoundingInterval

variable {r : RoundingInterval} {tie : Tie}

/-- Changing the unit changes the fractions, not the interval. -/
theorem holds_inUnits {power : Int} {x : ℚ} :
    (r.inUnits power).Holds x ↔ r.Holds (x * (10 : ℚ) ^ power) := by
  have hpow : (0 : ℚ) < (10 : ℚ) ^ power.natAbs := by positivity
  unfold inUnits
  by_cases hneg : power < 0
  · have hinv : (10 : ℚ) ^ power = ((10 : ℚ) ^ power.natAbs)⁻¹ := by
      rw [← zpow_natCast, ← zpow_neg]
      congr 1
      omega
    have hcross : ∀ a : ℚ, (a * (10 : ℚ) ^ power.natAbs ≤ x * r.denominator ↔
          a ≤ x * (10 : ℚ) ^ power * r.denominator) ∧
        (x * r.denominator ≤ a * (10 : ℚ) ^ power.natAbs ↔
          x * (10 : ℚ) ^ power * r.denominator ≤ a) := by
      intro a
      have hmove : x * (10 : ℚ) ^ power * r.denominator
          = x * r.denominator / (10 : ℚ) ^ power.natAbs := by
        rw [hinv]
        ring
      rw [hmove, le_div_iff₀ hpow, div_le_iff₀ hpow]
      exact ⟨Iff.rfl, Iff.rfl⟩
    rw [if_pos hneg]
    unfold rescale Holds
    simp only [Nat.pow_eq, Nat.mul_one]
    push_cast
    simp only [← not_le, (hcross _).1, (hcross _).2]
  · have hcast : (10 : ℚ) ^ power = (10 : ℚ) ^ power.natAbs := by
      rw [← zpow_natCast]
      congr 1
      omega
    have hmove : x * (10 : ℚ) ^ power * r.denominator
        = x * (r.denominator * (10 : ℚ) ^ power.natAbs) := by
      rw [hcast]
      ring
    rw [if_neg hneg]
    unfold rescale Holds
    simp only [Nat.pow_eq, Nat.mul_one, hmove]
    push_cast
    exact Iff.rfl

theorem middle_inUnits (power : Int) :
    ((r.inUnits power).middle : ℚ) / (r.inUnits power).denominator
      = (r.middle : ℚ) / r.denominator / (10 : ℚ) ^ power := by
  unfold inUnits
  split
  · rename_i hneg
    have hinv : (10 : ℚ) ^ power = ((10 : ℚ) ^ power.natAbs)⁻¹ := by
      rw [← zpow_natCast, ← zpow_neg]
      congr 1
      omega
    unfold rescale
    simp only [Nat.pow_eq, Nat.mul_one, hinv]
    push_cast
    rw [div_inv_eq_mul]
    ring
  · rename_i hneg
    have hcast : (10 : ℚ) ^ power = (10 : ℚ) ^ power.natAbs := by
      rw [← zpow_natCast]
      congr 1
      omega
    unfold rescale
    simp only [Nat.pow_eq, Nat.mul_one, hcast]
    push_cast
    rw [div_div]

theorem denominator_inUnits_pos (h : 0 < r.denominator) (power : Int) :
    0 < (r.inUnits power).denominator := by
  have hpow : 0 < Nat.pow 10 power.natAbs := Nat.pow_pos (by decide)
  unfold inUnits rescale
  split
  · exact Nat.mul_pos h Nat.one_pos
  · exact Nat.mul_pos h hpow

theorem holds_of_nearest? {n : Nat} (h : r.nearest? tie = some n) : r.Holds n := by
  rw [← holds_iff]
  unfold nearest? at h
  dsimp only at h
  split at h
  · cases h
  · rename_i hbelow _
    cases h
    exact hbelow
  · rename_i _ habove
    cases h
    exact habove
  · rename_i hbelow habove
    split at h
    · cases h
      exact hbelow
    · split at h
      · cases h
        exact habove
      · cases tie with
        | up =>
          cases h
          exact habove
        | even =>
          cases h
          split
          · exact hbelow
          · exact habove

theorem nearest?_isSome (h : r.Holds (r.middle / r.denominator : Nat) ∨
    r.Holds (r.middle / r.denominator + 1 : Nat)) : (r.nearest? tie).isSome := by
  simp only [← holds_iff] at h
  unfold nearest?
  dsimp only
  split
  · rename_i hbelow habove
    rw [hbelow, habove] at h
    rcases h with h | h <;> cases h
  · rfl
  · rfl
  · split
    · rfl
    · split
      · rfl
      · cases tie <;> rfl

/-- The search ends on a grid that meets the interval, if there is one. -/
theorem shortestOn_holds {leading : Int} {grids count j : Nat} (hj : j < grids)
    (h : ((r.inUnits (leading - (count + j : Nat) + 1)).nearest? tie).isSome) :
    r.Holds ((shortestOn tie r leading grids count).1
      * (10 : ℚ) ^ (shortestOn tie r leading grids count).2) := by
  induction grids generalizing count j with
  | zero => exact absurd hj (Nat.not_lt_zero j)
  | succ grids ih =>
    unfold shortestOn
    dsimp only
    split
    · rename_i n hn
      exact holds_inUnits.mp (holds_of_nearest? hn)
    · rename_i hnone
      cases j with
      | zero =>
        rw [Nat.add_zero, hnone] at h
        cases h
      | succ j =>
        refine ih (Nat.lt_of_succ_lt_succ hj) ?_
        rwa [Nat.add_right_comm]

end RoundingInterval

/-- A fraction is at least the power of ten of its first digit. -/
theorem pow_leadingPower_le {num den : Nat} (hnum : 0 < num) (hden : 0 < den) :
    (10 : ℚ) ^ leadingPower num den ≤ (num : ℚ) / den := by
  have hcast : (0 : ℚ) < den := by exact_mod_cast hden
  unfold leadingPower
  split
  · rename_i hle
    have hpos : 0 < num / den := Nat.div_pos hle hden
    have hcount := digitCount_pos hpos
    have hexponent : (digitCount (num / den) : Int) - 1
        = ((digitCount (num / den) - 1 : Nat) : Int) := by
      omega
    rw [hexponent, zpow_natCast]
    calc (10 : ℚ) ^ (digitCount (num / den) - 1) ≤ (num / den : Nat) := by
          exact_mod_cast pow_digitCount_le hpos
      _ ≤ (num : ℚ) / den := Nat.cast_div_le
  · rename_i hlt
    have hsmall := lt_pow_digitCount ((den - 1) / num)
    rw [Nat.div_lt_iff_lt_mul hnum] at hsmall
    have hle : den ≤ 10 ^ digitCount ((den - 1) / num) * num := by omega
    rw [zpow_neg, zpow_natCast, inv_le_iff_one_le_mul₀ (by positivity), mul_comm, ← mul_div_assoc,
      le_div_iff₀ hcast, one_mul]
    exact_mod_cast hle

/-- On the grid of seventeen digits one of the two neighbours of a number rounds to it: the
grid is finer than the numbers of the format. -/
theorem nearest?_seventeen {format : BinaryFormat} (hformat : format.Readable) {m : Magnitude}
    (hm : m.Canonical format) (hsig : 0 < m.significand) {leading : Int} (tie : Tie)
    (hleading : (10 : ℚ) ^ leading ≤ m.value format) :
    (((RoundingInterval.of format m).inUnits (leading - 16)).nearest? tie).isSome := by
  apply RoundingInterval.nearest?_isSome
  simp only [RoundingInterval.holds_inUnits]
  have hdenominator : 0 < (RoundingInterval.of format m).denominator := by
    unfold RoundingInterval.of
    simp only [Nat.pow_eq]
    positivity
  have hpos := RoundingInterval.denominator_inUnits_pos hdenominator (leading - 16)
  have hmiddle := RoundingInterval.middle_inUnits
    (r := RoundingInterval.of format m) (leading - 16)
  rw [Magnitude.middle_div_denominator] at hmiddle
  generalize (RoundingInterval.of format m).inUnits (leading - 16) = r at hpos hmiddle ⊢
  have hstep : (0 : ℚ) < (10 : ℚ) ^ (leading - 16) := by positivity
  generalize hs : (10 : ℚ) ^ (leading - 16) = step at hstep hmiddle ⊢
  have hcast : (0 : ℚ) < r.denominator := by exact_mod_cast hpos
  -- The number lies between its neighbours on the grid.
  have hbelow : ((r.middle / r.denominator : Nat) : ℚ) * step ≤ m.value format := by
    have hle : ((r.middle / r.denominator : Nat) : ℚ) ≤ (r.middle : ℚ) / r.denominator :=
      Nat.cast_div_le
    rwa [hmiddle, le_div_iff₀ hstep] at hle
  have habove : m.value format < ((r.middle / r.denominator + 1 : Nat) : ℚ) * step := by
    have hlt : (r.middle : ℚ) / r.denominator < (r.middle / r.denominator + 1 : Nat) := by
      rw [div_lt_iff₀ hcast]
      have hnat : r.middle < (r.middle / r.denominator + 1) * r.denominator := by
        rw [Nat.mul_comm]
        exact Nat.lt_mul_div_succ r.middle hpos
      exact_mod_cast hnat
    rwa [hmiddle, div_lt_iff₀ hstep] at hlt
  push_cast at habove ⊢
  generalize ((r.middle / r.denominator : Nat) : ℚ) = below at hbelow habove ⊢
  -- A step is smaller than a unit in the last place.
  have hulp := m.ulp_pos format
  have hsteps : (10 : ℚ) ^ 16 * step ≤ m.value format := by
    rw [← hs, ← zpow_natCast, ← zpow_add₀ (by norm_num)]
    convert hleading using 2
    norm_num
  have hdigits : ((2 * format.hidden : Nat) : ℚ) ≤ (10 : ℚ) ^ 16 := by
    rw [BinaryFormat.two_mul_hidden (by have := hformat.precision; omega)]
    exact_mod_cast hformat.digits
  push_cast at hdigits
  by_cases hpower : m.significand = format.hidden ∧ 0 < m.shift
  · right
    have heven : m.significand % 2 = 0 := by
      have hprecision := hformat.precision
      rw [hpower.1]
      unfold BinaryFormat.hidden
      obtain ⟨k, hk⟩ : ∃ k, format.precision - 1 = k + 1 := ⟨format.precision - 2, by omega⟩
      rw [hk, Nat.pow_eq, Nat.pow_succ]
      omega
    have hhalf : 2 * step ≤ m.ulp format := by
      have hvalue : m.value format = format.hidden * m.ulp format := by
        unfold Magnitude.value
        rw [hpower.1]
      rw [hvalue] at hsteps
      nlinarith
    have hgap := m.gap_pos format
    rw [Magnitude.holds_iff hsig, if_pos heven]
    constructor <;> linarith
  · have hsmall : step < m.ulp format := by
      have hlt : (m.significand : ℚ) < 2 * format.hidden := by exact_mod_cast hm.lt
      unfold Magnitude.value at hsteps
      nlinarith
    have hgap : m.gap format = m.ulp format / 2 := by
      unfold Magnitude.gap
      rw [if_neg hpower]
    by_cases hnear : m.value format - below * step ≤ step / 2
    · left
      exact Magnitude.holds_of_lt hsig (by linarith) (by linarith)
    · right
      exact Magnitude.holds_of_lt hsig (by linarith) (by linarith)

/-! ## The shortest decimal -/

section

variable {format : BinaryFormat} {m : Magnitude}

/-- The shortest decimal rounds to its magnitude. -/
theorem shortestDecimal_holds (hformat : format.Readable) (hm : m.Canonical format)
    (hsig : 0 < m.significand) (tie : Tie) :
    (RoundingInterval.of format m).Holds (shortestDecimal format tie m).value := by
  have hmiddle : 0 < (RoundingInterval.of format m).middle := by
    unfold RoundingInterval.of
    simp only [Nat.pow_eq]
    positivity
  have hdenominator : 0 < (RoundingInterval.of format m).denominator := by
    unfold RoundingInterval.of
    simp only [Nat.pow_eq]
    positivity
  have hleading := pow_leadingPower_le hmiddle hdenominator
  rw [Magnitude.middle_div_denominator] at hleading
  unfold shortestDecimal
  dsimp only
  generalize leadingPower (RoundingInterval.of format m).middle
    (RoundingInterval.of format m).denominator = leading at hleading ⊢
  have hseventeen := nearest?_seventeen hformat hm hsig tie hleading
  have hpower : leading - 16 = leading - (1 + 16 : Nat) + 1 := by omega
  rw [hpower] at hseventeen
  have hfound := RoundingInterval.shortestOn_holds (show 16 < 17 by decide) hseventeen
  generalize shortestOn tie (RoundingInterval.of format m) leading 17 1 = found at hfound ⊢
  obtain ⟨n, power⟩ := found
  have hvalue : Decimal.value ⟨(Digits.ofNat n).trimZeros, power + (Digits.ofNat n).length - 1⟩
      = n * (10 : ℚ) ^ power := by
    obtain ⟨k, hk⟩ := Digits.exists_trimZeros (Digits.ofNat n)
    rw [← Decimal.value_append_zeros _ _ k, ← hk]
    unfold Decimal.value
    rw [Digits.toNat_ofNat]
    congr 2
    ring
  rw [hvalue]
  exact hfound

theorem value_numeral (hformat : format.Readable) (hm : m.Canonical format)
    (hsig : 0 < m.significand) (style : FloatStyle) (negative : Bool) :
    (style.numeral format negative m).value = (shortestDecimal format style.tie m).value := by
  have hholds := shortestDecimal_holds hformat hm hsig style.tie
  have hdigits : (shortestDecimal format style.tie m).digits ≠ [] := by
    intro hnil
    have hzero : (shortestDecimal format style.tie m).value = 0 := by
      unfold Decimal.value
      rw [hnil]
      simp
    have hlow := (Magnitude.bounds_of_holds hsig hholds).1
    have hgap := m.gap_le format
    have hulp := m.ulp_pos format
    have hone : (1 : ℚ) ≤ m.significand := by exact_mod_cast hsig
    rw [hzero] at hlow
    unfold Magnitude.value at hlow
    nlinarith
  unfold FloatStyle.numeral
  rw [if_neg (by omega)]
  dsimp only
  split
  · exact Decimal.positional_value negative _
  · exact Decimal.scientific_value negative hdigits

/-- What rounds to a number of the format is neither too small nor too large to be read. -/
theorem range_of_holds (hformat : format.Readable) (hm : m.Canonical format)
    (hfinite : format.encode m < format.infinity) (hsig : 0 < m.significand) {x : ℚ}
    (h : (RoundingInterval.of format m).Holds x) :
    (10 : ℚ) ^ (-401 : Int) < x ∧ x < (10 : ℚ) ^ (400 : Int) := by
  obtain ⟨hlow, hhigh⟩ := Magnitude.bounds_of_holds hsig h
  have hgap := m.gap_le format
  have hulp := m.ulp_pos format
  have hone : (1 : ℚ) ≤ m.significand := by exact_mod_cast hsig
  unfold Magnitude.value at hlow hhigh
  constructor
  · have hleast : (1 : ℚ) / 2 ^ 1074 ≤ m.ulp format := by
      unfold Magnitude.ulp
      gcongr
      · exact one_le_pow₀ (by norm_num)
      · norm_num
      · exact hformat.scale
    have hsmall : (10 : ℚ) ^ (-401 : Int) < 1 / 2 ^ 1074 / 2 := by
      have hnat : 2 ^ 1075 < 10 ^ 401 := by decide +kernel
      have hcast : (2 : ℚ) ^ 1075 < (10 : ℚ) ^ 401 := by exact_mod_cast hnat
      rw [div_div, ← pow_succ, one_div, zpow_neg, zpow_ofNat]
      exact inv_strictAnti₀ (by positivity) hcast
    have hhalf : m.ulp format / 2 ≤ x := by
      have hmul := mul_le_mul_of_nonneg_right hone hulp.le
      linarith
    calc (10 : ℚ) ^ (-401 : Int) < 1 / 2 ^ 1074 / 2 := hsmall
      _ ≤ m.ulp format / 2 := by gcongr
      _ ≤ x := hhalf
  · have hshift : m.shift ≤ format.scale + 1025 := by
      have hle : m.shift * format.hidden ≤ (format.scale + 1025) * format.hidden := by
        have hinfinity := hformat.infinity
        unfold BinaryFormat.encode at hfinite
        omega
      exact Nat.le_of_mul_le_mul_right hle format.hidden_pos
    have hgreatest : m.ulp format ≤ 2 ^ 1025 := by
      unfold Magnitude.ulp
      rw [div_le_iff₀ (by positivity), ← pow_add, Nat.add_comm]
      exact pow_le_pow_right₀ (by norm_num) hshift
    have hlt : (m.significand : ℚ) + 1 ≤ 10 ^ 16 := by
      have hnat : m.significand + 1 ≤ 10 ^ 16 := by
        have htwo := @BinaryFormat.two_mul_hidden format
          (by have := hformat.precision; omega)
        have hdigits := hformat.digits
        have hlt := hm.lt
        omega
      exact_mod_cast hnat
    have hbound : (10 : ℚ) ^ 16 * 2 ^ 1025 < (10 : ℚ) ^ (400 : Int) := by
      have hnat : 10 ^ 16 * 2 ^ 1025 < 10 ^ 400 := by decide +kernel
      rw [zpow_ofNat]
      exact_mod_cast hnat
    calc x ≤ m.significand * m.ulp format + m.ulp format / 2 := hhigh
      _ ≤ (m.significand + 1) * m.ulp format := by linarith
      _ ≤ 10 ^ 16 * 2 ^ 1025 := by gcongr
      _ < (10 : ℚ) ^ (400 : Int) := hbound

/-- A numeral of such a value reads as the number. -/
theorem Numeral.magnitudeBits_of_holds (hformat : format.Readable) (hm : m.Canonical format)
    (hfinite : format.encode m < format.infinity) (hsig : 0 < m.significand) {n : Numeral}
    (h : (RoundingInterval.of format m).Holds n.value) :
    n.magnitudeBits format = format.encode m := by
  have hprecision : 0 < format.precision := by
    have := hformat.precision
    omega
  have hten : (1 : ℚ) < 10 := by norm_num
  obtain ⟨hsmall, hlarge⟩ := range_of_holds hformat hm hfinite hsig h
  have hpos : 0 < n.significand := by
    rw [Nat.pos_iff_ne_zero]
    intro hzero
    have hpower : (0 : ℚ) < (10 : ℚ) ^ (-401 : Int) := by positivity
    unfold Numeral.value at hsmall
    rw [hzero, Nat.cast_zero, zero_mul] at hsmall
    exact absurd hsmall (not_lt.mpr hpower.le)
  obtain ⟨hlow, hhigh⟩ := Numeral.value_bounds hpos
  have hleast : -401 < n.power + digitCount n.significand :=
    (zpow_lt_zpow_iff_right₀ hten).mp (hsmall.trans hhigh)
  have hgreatest : n.power + digitCount n.significand - 1 < 400 :=
    (zpow_lt_zpow_iff_right₀ hten).mp (hlow.trans_lt hlarge)
  unfold magnitudeBits powerLimit
  dsimp only
  rw [if_neg (by omega), if_neg (by omega)]
  unfold Numeral.value at h
  split
  · rename_i hneg
    refine BinaryFormat.nearest_of_holds hprecision hm hfinite (Nat.pow_pos (by decide)) ?_
    convert h using 1
    rw [Nat.pow_eq, Nat.cast_pow, div_eq_mul_inv, Nat.cast_ofNat, ← zpow_natCast, ← zpow_neg]
    congr 2
    omega
  · rename_i hneg
    refine BinaryFormat.nearest_of_holds hprecision hm hfinite Nat.one_pos ?_
    convert h using 1
    rw [Nat.pow_eq, Nat.cast_one, div_one, Nat.cast_mul, Nat.cast_pow, Nat.cast_ofNat,
      ← zpow_natCast]
    congr 2
    omega

/-- A written number reads back. -/
theorem FloatStyle.magnitudeBits_numeral (hformat : format.Readable) (hm : m.Canonical format)
    (hfinite : format.encode m < format.infinity) (style : FloatStyle) (negative : Bool) :
    (style.numeral format negative m).magnitudeBits format = format.encode m := by
  by_cases hsig : m.significand = 0
  · have hshift : m.shift = 0 := by
      by_contra hshift
      have hle := hm.normal (Nat.pos_of_ne_zero hshift)
      have hpos := format.hidden_pos
      omega
    have hzero : (style.numeral format negative m).significand = 0 := by
      unfold numeral Numeral.significand
      rw [if_pos hsig]
      simp
    unfold Numeral.magnitudeBits BinaryFormat.encode
    rw [if_pos (.inl hzero), hsig, hshift, Nat.zero_mul]
  · have hsig : 0 < m.significand := Nat.pos_of_ne_zero hsig
    have hholds := shortestDecimal_holds hformat hm hsig style.tie
    rw [← value_numeral hformat hm hsig style negative] at hholds
    exact Numeral.magnitudeBits_of_holds hformat hm hfinite hsig hholds

/-- The sign of a number is the sign of its numeral. -/
theorem FloatStyle.negative_numeral (style : FloatStyle) (format : BinaryFormat) (negative : Bool)
    (m : Magnitude) : (style.numeral format negative m).negative = negative := by
  unfold numeral
  split
  · rfl
  · dsimp only
    split
    · unfold Decimal.positional
      split <;> rfl
    · rfl

/-- Different numbers are written differently. -/
theorem FloatStyle.numeral_inj (hformat : format.Readable) {style : FloatStyle}
    {negative negative' : Bool} {m' : Magnitude} (hm : m.Canonical format)
    (hfinite : format.encode m < format.infinity) (hm' : m'.Canonical format)
    (hfinite' : format.encode m' < format.infinity)
    (h : style.numeral format negative m = style.numeral format negative' m') :
    negative = negative' ∧ m = m' := by
  have hsign := congrArg Numeral.negative h
  have hbits := congrArg (Numeral.magnitudeBits format) h
  rw [negative_numeral, negative_numeral] at hsign
  rw [magnitudeBits_numeral hformat hm hfinite, magnitudeBits_numeral hformat hm' hfinite']
    at hbits
  refine ⟨hsign, ?_⟩
  rw [← BinaryFormat.decode_encode hm, hbits, BinaryFormat.decode_encode hm']

end

end Shading
