import UnitCalculator.Proofs.Binary.Nearest
import UnitCalculator.Proofs.Decimal.Value

/-!
# Short decimals

A double is short if it is the nearest double of a decimal with at most six significant digits. The
decimal that is nearest to a short double has it as its nearest double too: among larger doubles it
is the given decimal, because decimals lie farther apart than the double from the decimal, and the
smallest doubles all have the same last bit.
-/

namespace UnitCalculator

namespace Binary

/-- A rational number is the nearest double of a decimal with at most six significant digits. -/
def IsShort (x : ℚ) : Prop := ∃ n k : ℤ, |n| < 10 ^ 6 ∧ NearestDouble (n * 10 ^ k) x

/-- Exponent of the sixth significant digit. -/
def lastFigure (x : ℚ) : ℤ := Int.log 10 |x| - 5

variable {x z : ℚ} {n k : ℤ}

/-- The opposite of a short double is short. -/
theorem IsShort.neg (h : IsShort x) : IsShort (-x) := by
  obtain ⟨n, k, hn, hx⟩ := h
  refine ⟨-n, k, by rwa [abs_neg], ?_⟩
  rw [Int.cast_neg, neg_mul]
  exact hx.neg

/-- Whether a double is short does not depend on its sign. -/
theorem isShort_abs : IsShort |x| ↔ IsShort x := by
  rcases abs_choice x with hx | hx
  · rw [hx]
  · rw [hx]
    exact ⟨fun h => neg_neg x ▸ h.neg, IsShort.neg⟩

/-- A short double is the nearest double of itself. -/
theorem IsShort.nearestDouble (h : IsShort x) : NearestDouble x x := by
  obtain ⟨n, k, -, hx⟩ := h
  exact hx.self

/-- Integers with at most six digits are short doubles. -/
theorem isShort_intCast (hn : |n| < 10 ^ 6) : IsShort n := by
  refine ⟨n, 0, hn, ?_⟩
  rw [zpow_zero, mul_one]
  by_cases hzero : n = 0
  · rw [hzero, Int.cast_zero]
    exact .zero
  have hless : |(n : ℚ)| < 2 ^ (20 : ℤ) := by
    have hcast : |(n : ℚ)| < 10 ^ 6 := by exact_mod_cast hn
    exact hcast.trans (by norm_num)
  have hlast : lastBit n ≤ 0 :=
    (lastBit_le (Int.cast_ne_zero.mpr hzero) hless).trans (by decide)
  have hround := mul_zpow_eq two_ne_zero n hlast
  rw [zpow_zero, mul_one, Int.cast_ofNat] at hround
  have htop : (2 : ℚ) ^ 20 < 2 ^ 1024 := pow_lt_pow_right₀ (by norm_num) (by norm_num)
  refine ⟨?_, hless.trans (by exact_mod_cast htop)⟩
  have hself := RoundsTo.of_multiple (two_zpow_pos (lastBit n)) (n * 2 ^ (0 - lastBit n).toNat)
  rwa [← hround] at hself

/-- A short double has a power of two as denominator. -/
theorem IsShort.exists_dyadic (h : IsShort x) : ∃ (m : ℤ) (k : ℕ), x * 2 ^ k = m := by
  obtain ⟨m, hm⟩ := h.nearestDouble.exists_multiple
  refine ⟨m * 2 ^ (lastBit x).toNat, (-lastBit x).toNat, ?_⟩
  have hsplit : lastBit x + (-lastBit x).toNat = (lastBit x).toNat := by omega
  nth_rewrite 1 [hm]
  rw [Int.cast_mul, Int.cast_pow, Int.cast_ofNat, mul_assoc, ← zpow_natCast,
    ← zpow_add₀ (by norm_num), hsplit, zpow_natCast]

/-- The leading digit of a number is not zero. -/
theorem leading_le (hx : 0 < x) : (10 ^ 5 : ℤ) * 10 ^ lastFigure x ≤ x := by
  have hlog := Int.zpow_log_le_self (b := 10) (by decide) hx
  have hsplit : Int.log 10 x = 5 + lastFigure x := by
    rw [lastFigure, abs_of_pos hx]
    omega
  rw [Nat.cast_ofNat, hsplit, ten_zpow_add] at hlog
  exact_mod_cast hlog

/-- A number has six digits up to its sixth significant one. -/
theorem lt_leading (hx : 0 < x) : x < (10 ^ 6 : ℤ) * 10 ^ lastFigure x := by
  have hlog := Int.lt_zpow_succ_log_self (b := 10) (by decide) x
  have hsplit : Int.log 10 x + 1 = 6 + lastFigure x := by
    rw [lastFigure, abs_of_pos hx]
    omega
  rw [Nat.cast_ofNat, hsplit, ten_zpow_add] at hlog
  exact_mod_cast hlog

/-- Six digits at smaller places stay below a power of ten. -/
theorem decimal_lt (hn : |n| < 10 ^ 6) {j : ℤ} (hk : k ≤ j) :
    (n : ℚ) * 10 ^ k < 10 ^ 6 * 10 ^ j := by
  have hless : (n : ℚ) < 10 ^ 6 := by exact_mod_cast lt_of_le_of_lt (le_abs_self n) hn
  calc (n : ℚ) * 10 ^ k < 10 ^ 6 * 10 ^ k := mul_lt_mul_of_pos_right hless (ten_zpow_pos k)
    _ ≤ 10 ^ 6 * 10 ^ j :=
      mul_le_mul_of_nonneg_left (zpow_le_zpow_right₀ (by norm_num) hk) (by norm_num)

/-- A decimal is a multiple of smaller powers of ten. -/
theorem decimal_eq {j : ℤ} (hk : j ≤ k) :
    (n : ℚ) * 10 ^ k = (n * 10 ^ (k - j).toNat : ℤ) * 10 ^ j := by
  have hmultiple := mul_zpow_eq (show (10 : ℤ) ≠ 0 by decide) n hk
  rwa [Int.cast_ofNat] at hmultiple

/-- No decimal with at most six significant digits is nearer than the rounded number. -/
theorem abs_sub_le_of_decimal (hx : 0 < x) (hz : RoundsTo (10 ^ lastFigure x) x z)
    (hn : |n| < 10 ^ 6) : |x - z| ≤ |x - n * 10 ^ k| := by
  have hunit := ten_zpow_pos (lastFigure x)
  by_cases hk : lastFigure x ≤ k
  · rw [decimal_eq hk]
    exact hz.abs_sub_le_of_multiple hunit _
  · have hleast := leading_le hx
    have hless := decimal_lt hn (by omega : k ≤ -1 + lastFigure x)
    rw [ten_zpow_add] at hless
    have hnear := hz.abs_sub_le_of_multiple hunit (10 ^ 5)
    rw [abs_of_nonneg (sub_nonneg.mpr hleast)] at hnear
    refine le_trans hnear (le_trans ?_ (le_abs_self _))
    norm_num at hless ⊢
    linarith

/-- Another decimal with at most six significant digits is at least a tenth of the sixth one away
from the rounded number. -/
theorem le_abs_sub_of_decimal (hx : 0 < x) (hz : RoundsTo (10 ^ lastFigure x) x z)
    (hn : |n| < 10 ^ 6) (hne : n * 10 ^ k ≠ z) :
    10 ^ (-1 + lastFigure x) ≤ |n * 10 ^ k - z| := by
  have hunit := ten_zpow_pos (lastFigure x)
  have hleast := hz.multiple_le hunit (leading_le hx)
  by_cases hk : -1 + lastFigure x ≤ k
  · obtain ⟨m, rfl, -⟩ := hz
    rw [decimal_eq hk, decimal_eq (by omega : -1 + lastFigure x ≤ lastFigure x)] at hne ⊢
    refine RoundsTo.unit_le_abs (ten_zpow_pos _) fun he => hne ?_
    rw [he]
  · have hless := decimal_lt hn (by omega : k ≤ -2 + lastFigure x)
    rw [ten_zpow_add] at hless ⊢
    rw [abs_sub_comm]
    refine le_trans ?_ (le_abs_self _)
    norm_num at hless hleast ⊢
    linarith

namespace NearestDouble

variable {y : ℚ}

/-- A number with a positive nearest double is positive. -/
theorem pos (hx : 0 < x) (h : NearestDouble y x) : 0 < y := by
  by_contra hle
  have hmost := h.roundsTo.le_multiple (k := 0) (two_zpow_pos _)
    (by rw [Int.cast_zero, zero_mul]; exact not_lt.mp hle)
  rw [Int.cast_zero, zero_mul] at hmost
  exact absurd hx (not_lt.mpr hmost)

/-- The last bit is that of the smallest double or much smaller than the number. -/
theorem lastBit_cases (hy : 0 < y) :
    lastBit y = -1074 ∨ (2 : ℚ) ^ lastBit y ≤ 2 ^ (-52 : ℤ) * y := by
  rw [lastBit_of_pos hy]
  rcases le_total (Int.log 2 y - 52) (-1074) with htiny | hlarge
  · exact .inl (max_eq_right htiny)
  · right
    have hlog := Int.zpow_log_le_self (b := 2) (by decide) hy
    rw [Nat.cast_ofNat] at hlog
    rw [max_eq_left hlarge, sub_eq_neg_add, zpow_add₀ (by norm_num)]
    exact mul_le_mul_of_nonneg_left hlog (two_zpow_pos _).le

/-- A number is at most twice as large as its positive nearest double. -/
theorem le_two_mul (hx : 0 < x) (h : NearestDouble y x) : y ≤ 2 * x := by
  have hnear := h.roundsTo.two_mul_abs_le
  have hdistance := le_abs_self (y - x)
  rcases lastBit_cases (h.pos hx) with htiny | hsmall
  · have hleast := h.tiny_le hx.ne'
    rw [abs_of_pos hx] at hleast
    rw [htiny] at hnear
    linarith
  · have hpower : (2 : ℚ) ^ (-52 : ℤ) ≤ 1 / 2 := by norm_num
    have hbit := hsmall.trans (mul_le_mul_of_nonneg_right hpower (h.pos hx).le)
    linarith

/-- Larger doubles have a last bit far below the sixth significant digit. -/
theorem lastBit_lt (hx : 0 < x) (h : NearestDouble y x) (hlarge : 2 ^ (-1050 : ℤ) ≤ x) :
    (2 : ℚ) ^ lastBit y < 10 ^ (-1 + lastFigure x) := by
  have hmost := lt_leading hx
  have hsmall : (2 : ℚ) ^ lastBit y ≤ 2 ^ (-24 : ℤ) * x := by
    rcases lastBit_cases (h.pos hx) with htiny | hsmall
    · rw [htiny, show (-1074 : ℤ) = -24 + -1050 by norm_num, zpow_add₀ (by norm_num)]
      exact mul_le_mul_of_nonneg_left hlarge (two_zpow_pos _).le
    · have hpower : (2 : ℚ) ^ (-52 : ℤ) * 2 ≤ 2 ^ (-24 : ℤ) := by norm_num
      have hdouble := mul_le_mul_of_nonneg_left (h.le_two_mul hx) (two_zpow_pos (-52)).le
      have hbound := mul_le_mul_of_nonneg_right hpower hx.le
      linarith
  rw [ten_zpow_add]
  norm_num at hsmall hmost ⊢
  linarith

/-- Numbers that are near to the smallest doubles have the last bit of the smallest one. -/
theorem lastBit_eq_tiny (hy : 0 < y) (hsmall : y < 2 ^ (-1049 : ℤ)) : lastBit y = -1074 :=
  le_antisymm (lastBit_le hy.ne' (abs_of_pos hy ▸ hsmall)) (le_max_right _ _)

/-- A positive short double is the nearest double of the decimal that is nearest to it among those
with at most six significant digits. -/
theorem of_isShort (hx : 0 < x) (h : IsShort x) (hz : RoundsTo (10 ^ lastFigure x) x z) :
    NearestDouble z x := by
  obtain ⟨n, k, hn, hy⟩ := h
  have hnearer := abs_sub_le_of_decimal (k := k) hx hz hn
  have hhalf := hy.roundsTo.two_mul_abs_le
  rw [abs_sub_comm x (n * 10 ^ k)] at hnearer
  by_cases hlarge : 2 ^ (-1050 : ℤ) ≤ x
  · -- both decimals are nearer to the double than two of them can be to each other
    have hsame : (n : ℚ) * 10 ^ k = z := by
      by_contra hne
      have hapart := le_abs_sub_of_decimal hx hz hn hne
      have htriangle := abs_sub_le ((n : ℚ) * 10 ^ k) x z
      have hbit := hy.lastBit_lt hx hlarge
      linarith
    rw [← hsame]
    exact hy
  · -- here the decimals may differ, but all doubles around have the same last bit
    have hdouble : (2 : ℚ) ^ (-1049 : ℤ) = 2 * 2 ^ (-1050 : ℤ) := by
      rw [← zpow_one_add₀ (by norm_num)]
      norm_num
    have htinyY : lastBit (n * 10 ^ k) = -1074 := by
      have htwice := hy.le_two_mul hx
      exact lastBit_eq_tiny (hy.pos hx) (by linarith)
    have hround := hy.roundsTo
    rw [htinyY] at hround hhalf
    have htinyZ : lastBit z = -1074 := by
      have hleast := hy.tiny_le hx.ne'
      rw [abs_of_pos hx] at hleast
      have hdistance : |x - z| ≤ x / 2 := by linarith
      obtain ⟨hlower, hupper⟩ := abs_le.mp hdistance
      exact lastBit_eq_tiny (by linarith) (by linarith)
    refine ⟨?_, hy.finite⟩
    rw [htinyZ]
    obtain ⟨m, hm, hclose⟩ := hround
    refine ⟨m, hm, ?_⟩
    rw [abs_sub_comm z]
    rcases hclose with hless | ⟨hsame, heven⟩
    · left
      linarith
    · -- in the middle between two doubles it is the even one for both decimals
      rcases lt_or_eq_of_le (show 2 * |x - z| ≤ 2 ^ (-1074 : ℤ) by linarith) with hless | heq
      · exact .inl hless
      · exact .inr ⟨heq, heven⟩

end NearestDouble

end Binary

end UnitCalculator
