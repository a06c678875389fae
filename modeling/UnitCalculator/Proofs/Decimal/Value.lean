import Mathlib.Algebra.Order.Ring.Rat
import Mathlib.Tactic.FieldSimp
import Mathlib.Tactic.Ring
import UnitCalculator.Proofs.Decimal.Form

/-!
# Values of decimals

A finite decimal stands for a rational number, whatever form it has. Whether it is integral and its
integer part are those of the rational number, and rounding a number that has no more digits than
the format, trailing zeros aside, keeps its value.
-/

namespace UnitCalculator

/-- A power of ten is one among the rationals. -/
theorem cast_pow10 (k : Nat) : (pow10 k : ℚ) = 10 ^ k := by
  rw [pow10, Nat.pow_eq]
  push_cast
  rfl

/-- A power of ten is positive. -/
theorem ten_zpow_pos (e : Int) : (0 : ℚ) < 10 ^ e := zpow_pos (by norm_num) e

/-- The power of ten of a sum among the rationals. -/
theorem ten_zpow_add (a b : Int) : (10 : ℚ) ^ (a + b) = 10 ^ a * 10 ^ b :=
  zpow_add₀ (by norm_num) a b

namespace Decimal

/-- The rational number that a finite decimal stands for; zero for others. -/
def toRat : Decimal → ℚ
  | .finite s c e => (if s then -(c : ℚ) else c) * 10 ^ e
  | _ => 0

variable (s : Bool)

/-- Zeros stand for zero. -/
theorem toRat_zero (e : Int) : toRat (.finite s 0 e) = 0 := by
  cases s <;> simp [toRat]

/-- Trailing zeros can be traded for the exponent. -/
theorem toRat_mul_pow10 (c t : Nat) (e : Int) :
    toRat (.finite s (c * pow10 t) e) = toRat (.finite s c (e + t)) := by
  have hpower : (10 : ℚ) ^ (e + t) = 10 ^ t * 10 ^ e := by
    rw [zpow_add₀ (by norm_num), zpow_natCast, mul_comm]
  rw [toRat, toRat, hpower, Nat.cast_mul, cast_pow10]
  cases s <;> simp only [Bool.false_eq_true, if_true, if_false] <;> ring

/-- The product with a natural number. -/
theorem toRat_mul (c i : Nat) (e : Int) :
    toRat (.finite s (c * i) e) = toRat (.finite s c e) * i := by
  rw [toRat, toRat, Nat.cast_mul]
  cases s <;> simp only [Bool.false_eq_true, if_true, if_false] <;> ring

/-- The value of a number without digits behind the point. -/
theorem toRat_natCast (c k : Nat) :
    toRat (.finite s c k) =
      ((if s then -(c * pow10 k : Nat) else (c * pow10 k : Nat) : ℤ) : ℚ) := by
  rw [toRat, zpow_natCast, ← cast_pow10]
  cases s <;> simp

/-- A number that stands for an integer is integral. -/
theorem integral_of_toRat {c : Nat} {e : Int} {z : ℤ} (h : toRat (.finite s c e) = z) :
    integral c e = true := by
  obtain ⟨m, rfl | rfl⟩ := e.eq_nat_or_neg
  · exact if_pos (Int.natCast_nonneg m)
  · have hscaled : toRat (.finite s c (0 : Nat)) = ((z * pow10 m : ℤ) : ℚ) := by
      have hten : (10 : ℚ) ^ m ≠ 0 := pow_ne_zero m (by decide)
      rw [toRat, zpow_neg, zpow_natCast] at h
      rw [toRat, Int.cast_mul, ← h, Int.cast_natCast, cast_pow10]
      field_simp
      simp
    rw [toRat_natCast, pow10_zero, Nat.mul_one] at hscaled
    have hc : (c : ℤ).natAbs = (z * pow10 m : ℤ).natAbs := by
      rw [← Int.cast_injective hscaled]
      cases s <;> simp
    rw [Int.natAbs_natCast, Int.natAbs_mul, Int.natAbs_natCast] at hc
    exact integral_neg_iff.mpr ⟨z.natAbs, by rw [hc, Nat.mul_comm]⟩

/-- The integer part of an integral number is the integer that it stands for. -/
theorem truncate_of_integral {c : Nat} {e : Int} (h : integral c e = true) :
    ((truncate (.finite s c e) : ℤ) : ℚ) = toRat (.finite s c e) := by
  obtain ⟨m, rfl | rfl⟩ := e.eq_nat_or_neg
  · rw [toRat_natCast, truncate]
    simp only [Int.natCast_nonneg, if_true, Int.toNat_natCast]
  · obtain ⟨z, rfl⟩ := integral_neg_iff.mp h
    have hvalue := toRat_natCast s z 0
    rw [Nat.mul_comm (pow10 m), truncate_mul_pow10, toRat_mul_pow10, Int.add_left_neg]
    rw [pow10_zero, Nat.mul_one] at hvalue
    exact hvalue.symm

end Decimal

namespace Format

open Decimal

variable {format : Format}

/-- Zeros that end a number are dropped exactly. -/
theorem divideRounded_mul_pow10 (tie : Tie) (n places : Nat) :
    divideRounded tie (n * pow10 places) (pow10 places) = n := by
  have hpos := pow10_pos places
  simp only [divideRounded, Nat.mul_mod_left, Nat.mul_div_cancel _ hpos]
  exact if_pos hpos

/-- A number that has no more digits than the format, trailing zeros aside, keeps its value when it
is rounded. -/
theorem exists_round_of_few (s : Bool) {m t : Nat} {e : Int} (hd : digitCount m ≤ format.digits)
    (hl : m ≠ 0 → format.tiny ≤ e + t) (hu : m ≠ 0 → e + t + digitCount m - 1 ≤ format.top) :
    ∃ c x, format.round s (m * pow10 t) e = .ok (.finite s c x) ∧
      toRat (.finite s c x) = toRat (.finite s (m * pow10 t) e) := by
  by_cases hm : m = 0
  · subst hm
    rw [Nat.zero_mul]
    exact ⟨0, _, if_pos rfl, by rw [toRat_zero, toRat_zero]⟩
  have hcount := digitCount_mul_pow10 hm t
  have hleast := hl hm
  have hmost := hu hm
  have hc : m * pow10 t ≠ 0 := Nat.mul_ne_zero hm (pow10_ne_zero t)
  by_cases hfits : max ((digitCount (m * pow10 t) : Int) - format.digits) (format.tiny - e) ≤ 0
  · exact ⟨_, _, round_of_fits hc (by omega) (by omega) (by omega), rfl⟩
  · obtain ⟨places, hplaces⟩ := Int.eq_ofNat_of_zero_le (Int.le_of_not_le hfits)
    obtain ⟨kept, rfl⟩ : ∃ kept, t = kept + places := ⟨t - places, by omega⟩
    have hsplit : m * pow10 (kept + places) = m * pow10 kept * pow10 places := by
      rw [pow10_add, Nat.mul_assoc]
    have hshort := digitCount_mul_pow10 hm kept
    have hk : m * pow10 kept ≠ 0 := Nat.mul_ne_zero hm (pow10_ne_zero kept)
    have hdrop : dropDigits .toEven (m * pow10 (kept + places)) places = m * pow10 kept := by
      rw [dropDigits, if_neg (by omega), hsplit, divideRounded_mul_pow10]
    have hless : m * pow10 kept ≠ pow10 format.digits := by
      intro hten
      have hlong := digitCount_pow10 format.digits
      rw [← hten] at hlong
      omega
    refine ⟨m * pow10 kept, e + places, ?_, ?_⟩
    · rw [round, if_neg hc, hplaces, if_neg (by omega), Int.toNat_natCast, hdrop, if_neg hless,
        if_neg hk, bounded, if_neg (by omega)]
    · rw [hsplit, toRat_mul_pow10 s (m * pow10 kept)]

end Format

end UnitCalculator
