import UnitCalculator.Proofs.Decimal.Exact

/-!
# Digits and reach of values

How many digits a rational number has, and how far they lie from the units, bounds those of its
products. A number of few digits that lie near enough to the units is one of the working format.
-/

namespace UnitCalculator

open Decimal

/-- A rational number is an integer of at most so many digits times a power of ten that lies no
further from the units than `reach`. -/
def HasExtent (figures reach : Nat) (x : ℚ) : Prop :=
  ∃ z e : ℤ, x = z * 10 ^ e ∧ z.natAbs < pow10 figures ∧ e.natAbs ≤ reach

section

variable {figures figures' reach reach' : Nat} {x y : ℚ}

/-- The digits and the reach of a product are at most those of its factors together. -/
theorem HasExtent.mul (hx : HasExtent figures reach x) (hy : HasExtent figures' reach' y) :
    HasExtent (figures + figures') (reach + reach') (x * y) := by
  obtain ⟨z, e, rfl, hz, he⟩ := hx
  obtain ⟨z', e', rfl, hz', he'⟩ := hy
  refine ⟨z * z', e + e', ?_, ?_, by omega⟩
  · rw [ten_zpow_add, Int.cast_mul]
    ring
  · rw [Int.natAbs_mul, pow10_add]
    exact Nat.mul_lt_mul'' hz hz'

/-- The opposite has the same digits. -/
theorem HasExtent.neg (hx : HasExtent figures reach x) : HasExtent figures reach (-x) := by
  obtain ⟨z, e, rfl, hz, he⟩ := hx
  exact ⟨-z, e, by rw [Int.cast_neg, neg_mul], by rwa [Int.natAbs_neg], he⟩

/-- The magnitude has the same digits. -/
theorem HasExtent.abs (hx : HasExtent figures reach x) : HasExtent figures reach |x| := by
  rcases abs_choice x with h | h
  · rwa [h]
  · rw [h]
    exact hx.neg

/-- A number of few digits near enough to the units is one of the working format. -/
theorem HasExtent.represents (hx : HasExtent figures reach x) (hf : figures ≤ working.digits)
    (hr : figures + reach ≤ working.maxExponent + 1) : working.Represents x := by
  obtain ⟨z, e, rfl, hz, he⟩ := hx
  obtain ⟨-, htop, htiny⟩ := working_bounds
  have hreach : figures + (reach : Int) ≤ working.top + 1 := Int.ofNat_le.mpr hr
  refine ⟨⟨z, e, rfl, hz.trans_le (pow10_le_pow10 hf), by omega⟩, ?_⟩
  have hmagnitude : |(z : ℚ)| < 10 ^ (figures : Int) := by
    rw [← Int.cast_abs, ← Nat.cast_natAbs, zpow_natCast, ← cast_pow10]
    exact_mod_cast hz
  have hpower : (10 : ℚ) ^ e ≤ 10 ^ (reach : Int) := zpow_le_zpow_right₀ (by norm_num) (by omega)
  calc |(z : ℚ) * 10 ^ e| = |(z : ℚ)| * 10 ^ e := by rw [abs_mul, abs_of_pos (ten_zpow_pos e)]
    _ < 10 ^ (figures : Int) * 10 ^ e := mul_lt_mul_of_pos_right hmagnitude (ten_zpow_pos e)
    _ ≤ 10 ^ (figures : Int) * 10 ^ (reach : Int) :=
      mul_le_mul_of_nonneg_left hpower (ten_zpow_pos _).le
    _ = 10 ^ ((figures : Int) + reach) := (ten_zpow_add _ _).symm
    _ ≤ 10 ^ (working.top + 1) := zpow_le_zpow_right₀ (by norm_num) hreach

end

namespace Decimal

/-- A finite number with at most so many digits, zeros at its end not counted, whose leading digit
lies near the units. -/
theorem hasExtent_of_leading {s : Bool} {m t figures near : Nat} {e : Int}
    (hm : m < pow10 figures)
    (hr : m = 0 ∨ (adjusted (.finite s (m * pow10 t) e)).natAbs ≤ near) :
    HasExtent figures (near + figures) (toRat (.finite s (m * pow10 t) e)) := by
  by_cases hzero : m = 0
  · rw [hzero, Nat.zero_mul, toRat_zero]
    exact ⟨0, 0, by simp, pow10_pos figures, Nat.zero_le _⟩
  have hleading := hr.resolve_left hzero
  have hpos := digitCount_pos m
  have hcount : digitCount m ≤ figures := by
    rcases Nat.eq_zero_or_pos figures with hnone | hsome
    · rw [hnone, pow10_zero] at hm
      omega
    · exact (digitCount_le_iff hsome).mpr hm
  rw [adjusted_finite, digitCount_mul_pow10 hzero] at hleading
  rw [toRat_mul_pow10, toRat_eq_signed]
  exact ⟨_, _, rfl, by rwa [natAbs_signed], by omega⟩

end Decimal

end UnitCalculator
