import Mathlib.Algebra.Order.Field.Power
import Mathlib.Data.List.Induction
import Mathlib.Data.List.TakeWhile
import Mathlib.Data.Rat.Cast.Order
import Mathlib.Tactic.Ring
import Shading.Number.Shortest

/-!
# The values of digits and numerals

A numeral spells a fraction.  Where the point stands and whether an exponent is written
makes no difference to it.

Main definitions:

- `Numeral.value` and `Decimal.value` are the fractions that are spelled, signs apart.

Main results:

- `Digits.toNat_ofNat`: the digits of a number spell it.
- `Decimal.positional_value` and `Decimal.scientific_value`: both layouts of a decimal have
  its value.
-/

namespace Shading

open List

namespace Digits

variable {n : Nat}

@[simp]
theorem toNat_nil : toNat [] = 0 :=
  rfl

/-- A last digit counts its units. -/
theorem toNat_concat (ds : Digits) (d : Fin 10) : toNat (ds ++ [d]) = 10 * toNat ds + d.val := by
  unfold toNat
  rw [foldl_append]
  rfl

/-- Digits in front of others count by the power of ten of their place. -/
theorem toNat_append (ds es : Digits) :
    toNat (ds ++ es) = toNat ds * 10 ^ es.length + toNat es := by
  induction es using List.reverseRecOn with
  | nil => simp
  | append_singleton es e ih =>
    rw [← append_assoc, toNat_concat, toNat_concat, ih, length_append,
      length_singleton, Nat.pow_succ]
    ring

theorem toNat_cons (d : Fin 10) (ds : Digits) :
    toNat (d :: ds) = d.val * 10 ^ ds.length + toNat ds := by
  have hsingle : toNat [d] = d.val := by simp [toNat]
  rw [← singleton_append, toNat_append, hsingle]

@[simp]
theorem toNat_replicate_zero (k : Nat) : toNat (List.replicate k 0) = 0 := by
  induction k with
  | zero => rfl
  | succ k ih => simp [replicate_succ, toNat_cons, ih]

/-- Digits spell a number below the power of ten of their count. -/
theorem toNat_lt (ds : Digits) : toNat ds < 10 ^ ds.length := by
  induction ds with
  | nil => simp
  | cons d ds ih =>
    have hd : d.val * 10 ^ ds.length ≤ 9 * 10 ^ ds.length :=
      Nat.mul_le_mul_right _ (by omega)
    rw [toNat_cons, length_cons, Nat.pow_succ]
    omega

theorem ofNat_of_lt (h : n < 10) : ofNat n = [Fin.ofNat 10 n] := by
  rw [ofNat, if_pos h]

theorem ofNat_of_le (h : 10 ≤ n) : ofNat n = ofNat (n / 10) ++ [Fin.ofNat 10 n] := by
  rw [ofNat, if_neg (by omega)]

/-- The digits of a number spell it. -/
@[simp]
theorem toNat_ofNat (n : Nat) : toNat (ofNat n) = n := by
  induction n using Nat.strongRecOn with
  | ind n ih =>
    by_cases h : n < 10
    · rw [ofNat_of_lt h]
      simp [toNat, Nat.mod_eq_of_lt h]
    · rw [ofNat_of_le (by omega), toNat_concat, ih (n / 10) (by omega)]
      simp only [Fin.ofNat]
      omega

theorem ofNat_ne_nil (n : Nat) : ofNat n ≠ [] := by
  rw [ofNat]
  split <;> simp

/-- The first digit of a positive number is not zero. -/
theorem head?_ofNat_ne_zero (h : 0 < n) : (ofNat n).head? ≠ some 0 := by
  induction n using Nat.strongRecOn with
  | ind n ih =>
    by_cases hlt : n < 10
    · rw [ofNat_of_lt hlt]
      intro hzero
      have hval := congrArg Fin.val (Option.some.inj hzero)
      simp only [Fin.ofNat, Nat.mod_eq_of_lt hlt] at hval
      exact absurd hval (by simp; omega)
    · have hrest := ih (n / 10) (by omega) (by omega)
      rw [ofNat_of_le (by omega), head?_append]
      cases hdigits : ofNat (n / 10) with
      | nil => exact absurd hdigits (ofNat_ne_nil _)
      | cons d ds =>
        rw [hdigits] at hrest
        exact hrest

/-- A positive number has as many digits as its size demands. -/
theorem pow_le_of_pos (h : 0 < n) : 10 ^ ((ofNat n).length - 1) ≤ n := by
  induction n using Nat.strongRecOn with
  | ind n ih =>
    by_cases hlt : n < 10
    · rw [ofNat_of_lt hlt]
      simpa using Nat.succ_le_of_lt h
    · have hrest := ih (n / 10) (by omega) (by omega)
      have hlength : 0 < (ofNat (n / 10)).length :=
        length_pos_iff.mpr (ofNat_ne_nil _)
      rw [ofNat_of_le (by omega), length_append, length_singleton,
        Nat.add_sub_cancel]
      calc 10 ^ (ofNat (n / 10)).length
          = 10 ^ ((ofNat (n / 10)).length - 1) * 10 := by
            rw [← Nat.pow_succ]
            congr 1
            omega
        _ ≤ n / 10 * 10 := Nat.mul_le_mul_right _ hrest
        _ ≤ n := Nat.div_mul_le_self n 10

theorem lt_pow_length (n : Nat) : n < 10 ^ (ofNat n).length := by
  have h := toNat_lt (ofNat n)
  rwa [toNat_ofNat] at h

/-- Trimming cuts off zeros only. -/
theorem exists_trimZeros (ds : Digits) : ∃ k, ds = ds.trimZeros ++ List.replicate k 0 := by
  have hsplit := takeWhile_append_dropWhile (p := (· == (0 : Fin 10))) (l := ds.reverse)
  have hzeros : ds.reverse.takeWhile (· == 0)
      = List.replicate (ds.reverse.takeWhile (· == 0)).length 0 := by
    refine eq_replicate_iff.mpr ⟨rfl, ?_⟩
    intro d hd
    simpa using mem_takeWhile_imp hd
  refine ⟨(ds.reverse.takeWhile (· == 0)).length, ?_⟩
  have hreverse := congrArg List.reverse hsplit
  rw [reverse_append, reverse_reverse, hzeros, reverse_replicate] at hreverse
  exact hreverse.symm

end Digits

theorem pow_digitCount_le {n : Nat} (h : 0 < n) : 10 ^ (digitCount n - 1) ≤ n := by
  rw [digitCount, if_neg (by omega)]
  exact Digits.pow_le_of_pos h

theorem digitCount_pos {n : Nat} (h : 0 < n) : 0 < digitCount n := by
  rw [digitCount, if_neg (by omega)]
  exact length_pos_iff.mpr (Digits.ofNat_ne_nil n)

theorem lt_pow_digitCount (n : Nat) : n < 10 ^ digitCount n := by
  unfold digitCount
  split
  · omega
  · exact Digits.lt_pow_length n

/-! ## Values -/

/-- The fraction that a numeral spells, its sign apart. -/
def Numeral.value (n : Numeral) : ℚ :=
  n.significand * (10 : ℚ) ^ n.power

/-- The fraction `d₀.d₁d₂… * 10 ^ exponent`. -/
def Decimal.value (d : Decimal) : ℚ :=
  d.digits.toNat * (10 : ℚ) ^ (d.exponent + 1 - d.digits.length)

namespace Decimal

/-- Zeros at the end of a decimal do not change its value. -/
theorem value_append_zeros (ds : Digits) (e : Int) (k : Nat) :
    value ⟨ds ++ List.replicate k 0, e⟩ = value ⟨ds, e⟩ := by
  have hten : (10 : ℚ) ≠ 0 := by norm_num
  unfold value
  simp only [Digits.toNat_append, Digits.toNat_replicate_zero, length_replicate,
    length_append, Nat.add_zero]
  push_cast
  rw [mul_assoc, ← zpow_natCast, ← zpow_add₀ hten]
  congr 2
  omega

theorem positional_value (negative : Bool) (d : Decimal) :
    (d.positional negative).value = d.value := by
  obtain ⟨ds, e⟩ := d
  unfold positional
  split
  · rename_i he
    dsimp only at he
    unfold Numeral.value Numeral.significand Numeral.power value
    simp only [Digits.toNat_append, Digits.toNat_replicate_zero, Nat.zero_mul, Nat.zero_add,
      length_append, length_replicate, Option.getD_none]
    congr 2
    omega
  · rename_i he
    dsimp only at he
    by_cases hlength : ds.length ≤ e.natAbs + 1
    · -- The digits end before the point: zeros are appended, and one behind the point.
      have hvalue : value ⟨ds, e⟩
          = Digits.toNat (ds ++ List.replicate (e.natAbs + 1 - ds.length) 0) := by
        rw [← value_append_zeros ds e (e.natAbs + 1 - ds.length)]
        unfold value
        have hpower : e + 1 - ((ds ++ List.replicate (e.natAbs + 1 - ds.length) 0).length : Int)
            = 0 := by
          rw [length_append, length_replicate]
          omega
        rw [hpower, zpow_zero, mul_one]
      rw [hvalue]
      unfold Numeral.value Numeral.significand Numeral.power
      simp only [take_of_length_le hlength, drop_eq_nil_of_le hlength,
        isEmpty_nil, if_true, length_singleton, Option.getD_none]
      have hzero : Digits.toNat [0] = 0 := rfl
      rw [hzero]
      push_cast
      norm_num
      ring
    · have hdrop : (ds.drop (e.natAbs + 1)).isEmpty = false := by
        rw [isEmpty_eq_false_iff, ne_eq, drop_eq_nil_iff]
        exact hlength
      have hpad : e.natAbs + 1 - ds.length = 0 := by omega
      unfold Numeral.value Numeral.significand Numeral.power value
      simp only [hdrop, hpad, replicate_zero, append_nil, Option.getD_none,
        Bool.false_eq_true, if_false]
      have hsplit := Digits.toNat_append (ds.take (e.natAbs + 1)) (ds.drop (e.natAbs + 1))
      rw [take_append_drop] at hsplit
      rw [hsplit, length_drop]
      congr 2
      omega

theorem scientific_value (negative : Bool) {d : Decimal} (h : d.digits ≠ []) :
    (d.scientific negative).value = d.value := by
  obtain ⟨ds, e⟩ := d
  have hpos : 0 < ds.length := length_pos_iff.mpr h
  unfold scientific Numeral.value Numeral.significand Numeral.power value
  have hsplit := Digits.toNat_append (ds.take 1) (ds.drop 1)
  rw [take_append_drop] at hsplit
  simp only [hsplit, length_drop, Option.getD_some]
  congr 2
  omega

end Decimal

/-- A numeral that is not zero lies between the powers of ten around its first digit. -/
theorem Numeral.value_bounds {n : Numeral} (h : 0 < n.significand) :
    (10 : ℚ) ^ (n.power + digitCount n.significand - 1) ≤ n.value ∧
      n.value < (10 : ℚ) ^ (n.power + digitCount n.significand) := by
  have hten : (10 : ℚ) ≠ 0 := by norm_num
  have hpower : (0 : ℚ) < (10 : ℚ) ^ n.power := by positivity
  have hcount := digitCount_pos h
  have hlow : (10 : ℚ) ^ (digitCount n.significand - 1 : Nat) ≤ n.significand := by
    exact_mod_cast pow_digitCount_le h
  have hhigh : (n.significand : ℚ) < (10 : ℚ) ^ digitCount n.significand := by
    exact_mod_cast lt_pow_digitCount n.significand
  unfold value
  constructor
  · have hexponent : n.power + digitCount n.significand - 1
        = ((digitCount n.significand - 1 : Nat) : Int) + n.power := by
      omega
    rw [hexponent, zpow_add₀ hten, zpow_natCast]
    exact mul_le_mul_of_nonneg_right hlow hpower.le
  · rw [add_comm, zpow_add₀ hten, zpow_natCast]
    exact mul_lt_mul_of_pos_right hhigh hpower

end Shading
