import Mathlib.Data.Nat.Factorization.Basic
import UnitCalculator.Decimal.Elementary
import UnitCalculator.Proofs.Decimal.Extent
import UnitCalculator.Proofs.Decimal.Form

/-!
# Natural powers

A power with a natural exponent whose exact value has few digits has a short base and, unless the
base is a power of ten, a small exponent. So it is computed as a product and rounded once, and the
powers before it have no more digits.
-/

namespace UnitCalculator

/-- A natural other than zero is one that does not end in zero, with zeros behind it. -/
theorem exists_trailing_zeros {c : Nat} (hc : c ≠ 0) : ∃ m t, c = m * pow10 t ∧ m % 10 ≠ 0 := by
  obtain ⟨t, m, hm, rfl⟩ := Nat.exists_eq_pow_mul_and_not_dvd hc 10 (by decide)
  exact ⟨m, t, Nat.mul_comm .., fun h => hm (Nat.dvd_of_mod_eq_zero h)⟩

/-- A power does not end in zero if its base does not. -/
theorem pow_mod_ten_ne_zero {c : Nat} (hc : c % 10 ≠ 0) (n : Nat) : c ^ n % 10 ≠ 0 := by
  intro h
  have hten := Nat.dvd_of_mod_eq_zero h
  have htwo : 2 ∣ c := Nat.prime_two.dvd_of_dvd_pow ((by decide : 2 ∣ 10).trans hten)
  have hfive : 5 ∣ c := Nat.prime_five.dvd_of_dvd_pow ((by decide : 5 ∣ 10).trans hten)
  omega

/-- A power with few digits of a base other than one has a small exponent. -/
theorem exponent_lt_of_pow_lt {c n k : Nat} (hc : 2 ≤ c) (h : c ^ n < pow10 k) : n < 4 * k := by
  by_contra hlarge
  -- the fourth power has two digits already
  have hfourth : 10 ≤ c ^ 4 := (by decide : 10 ≤ 2 ^ 4).trans (Nat.pow_le_pow_left hc 4)
  have hleast : pow10 k ≤ c ^ n :=
    calc pow10 k ≤ (c ^ 4) ^ k := Nat.pow_le_pow_left hfourth k
      _ = c ^ (4 * k) := (Nat.pow_mul ..).symm
      _ ≤ c ^ n := Nat.pow_le_pow_right (by omega) (Nat.le_of_not_lt hlarge)
  exact absurd h (Nat.not_lt.mpr hleast)

/-- A power has the digits behind the first one of its base for every factor. -/
theorem digits_mul_lt_of_pow_lt {c n k : Nat} (hc : c ≠ 0) (h : c ^ n < pow10 k) :
    (digitCount c - 1) * n < k := by
  have hbase := pow10_le_of_lt_digitCount hc (Nat.sub_lt (digitCount_pos c) Nat.one_pos)
  have hpower : pow10 ((digitCount c - 1) * n) ≤ c ^ n := by
    rw [pow10, Nat.pow_eq, Nat.pow_mul]
    exact Nat.pow_le_pow_left hbase n
  exact (Nat.pow_lt_pow_iff_right (by decide)).mp (hpower.trans_lt h)

namespace Decimal

section

variable {s : Bool} {c k n : Nat} {e : Int} {figures reach : Nat}

/-- The exponent is odd: then the power has the sign of the base. -/
def isOddPower (n : Nat) : Bool := n % 2 == 1

/-- The value of a natural power. -/
theorem toRat_pow (s : Bool) (c : Nat) (e : Int) (n : Nat) :
    toRat (.finite s c e) ^ n = toRat (.finite (s && isOddPower n) (c ^ n) (e * n)) := by
  have hsigned : signed s c ^ n = signed (s && isOddPower n) (c ^ n) := by
    cases s with
    | false => simp [signed]
    | true =>
      rcases Nat.even_or_odd n with heven | hodd
      · simp [signed, isOddPower, heven.neg_pow, Nat.even_iff.mp heven]
      · simp [signed, isOddPower, hodd.neg_pow, Nat.odd_iff.mp hodd]
  rw [toRat_eq_signed, toRat_eq_signed, mul_pow, ← zpow_natCast (10 ^ e), ← zpow_mul,
    ← hsigned, Int.cast_pow]

/-- The digits and the reach of a natural power bound those of the form that it is taken of. -/
theorem power_bounds (hc : c % 10 ≠ 0) (h : HasExtent figures reach (toRat (.finite s c e) ^ n)) :
    c ^ n < pow10 figures ∧ (e * n).natAbs ≤ reach + figures := by
  obtain ⟨z, f, hvalue, hz, hf⟩ := h
  have hlast := pow_mod_ten_ne_zero hc n
  have hforms : ((c ^ n : Nat) : ℚ) * 10 ^ (e * n) = z.natAbs * 10 ^ f := by
    have habs := congrArg abs hvalue
    rwa [toRat_pow, abs_toRat, abs_mul, abs_of_pos (ten_zpow_pos f), ← Int.cast_abs,
      ← Nat.cast_natAbs] at habs
  rcases Int.le_total f (e * n) with hle | hge
  · have hmore := eq_mul_pow10_of_le hforms.symm hle
    have hself := Nat.le_mul_of_pos_right (c ^ n) (pow10_pos (e * n - f).toNat)
    have hzeros : pow10 (e * n - f).toNat ≤ c ^ n * pow10 (e * n - f).toNat :=
      Nat.le_mul_of_pos_left _ (by omega)
    have hfew : (e * n - f).toNat < figures :=
      (Nat.pow_lt_pow_iff_right (by decide)).mp ((hzeros.trans hmore.ge).trans_lt hz)
    omega
  · have hmore := eq_mul_pow10_of_le hforms hge
    have hnone : (f - e * n).toNat = 0 := by
      by_contra hsome
      obtain ⟨t, ht⟩ := Nat.exists_eq_succ_of_ne_zero hsome
      rw [ht, pow10_succ, Nat.mul_left_comm] at hmore
      omega
    rw [hnone, pow10_zero, Nat.mul_one] at hmore
    omega

/-- The powers before one with few digits have no more of them. -/
theorem hasExtent_pow (h : HasExtent figures reach (toRat (.finite s c e) ^ n)) (hk : 1 ≤ k)
    (hkn : k ≤ n) : HasExtent figures (reach + figures) (toRat (.finite s c e) ^ k) := by
  by_cases hc : c = 0
  · obtain ⟨z, f, -, hz, -⟩ := h
    rw [hc, toRat_zero, zero_pow (by omega)]
    exact ⟨0, 0, by simp, (Nat.zero_le _).trans_lt hz, Nat.zero_le _⟩
  obtain ⟨m, t, rfl, hm⟩ := exists_trailing_zeros hc
  rw [toRat_mul_pow10] at h ⊢
  obtain ⟨hpower, hreach⟩ := power_bounds hm h
  refine ⟨_, _, (toRat_pow s m (e + t) k).trans (toRat_eq_signed ..), ?_, ?_⟩
  · rw [natAbs_signed]
    exact (Nat.pow_le_pow_right (by omega) hkn).trans_lt hpower
  · rw [Int.natAbs_mul, Int.natAbs_natCast] at hreach ⊢
    exact (Nat.mul_le_mul_left _ hkn).trans hreach

/-- The sign of a power with a natural exponent. -/
theorem powerSign_ofNat (s : Bool) (c : Nat) (e : Int) (hn : n ≠ 0) :
    Format.powerSign (.finite s c e) (.ofNat n) = (s && isOddPower n) := by
  obtain ⟨m, u, rfl, hm⟩ := exists_trailing_zeros hn
  rw [Format.powerSign, ofNat, reduced_mul_pow10 false 0 u hm]
  refine congrArg (s && ·) ?_
  cases u with
  | zero => simp [isOddPower, pow10_zero]
  | succ u =>
    have heven : m * pow10 (u + 1) % 2 = 0 := by
      rw [pow10_succ, Nat.mul_left_comm]
      omega
    have hsome : ((0 : Int) + (u + 1 : Nat) == 0) = false := beq_false_of_ne (by omega)
    change ((0 : Int) + (u + 1 : Nat) == 0 && m % 2 == 1) = _
    rw [isOddPower, heven, hsome]
    rfl

end

end Decimal

namespace Format

open Decimal

variable {s : Bool} {c n : Nat} {e : Int}

/-- A power with few digits is computed as a product: the base is a power of ten, or the base and
the exponent are both small. -/
theorem finitePower_ofNat (format : Format) (negative s : Bool) (e : Int) (t : Nat)
    (hc : c % 10 ≠ 0) (hl : 1 ≤ n) (hu : n < pow10 90) (hpower : c ^ n < pow10 100) :
    format.finitePower negative (.finite s (c * pow10 t) e) (.ofNat n) =
      format.round negative (c ^ n) ((e + t) * n) := by
  obtain ⟨m, u, hn, hm⟩ := exists_trailing_zeros (Nat.ne_of_gt hl)
  have hreduced : (ofNat n).reduced = .finite false m (0 + u) := by
    rw [hn, ofNat, reduced_mul_pow10 false 0 u hm]
  have hcount : digitCount m + u = digitCount n := by
    rw [hn, digitCount_mul_pow10 (by omega)]
  have htruncate : (ofNat n).truncate = n := by
    simpa [ofNat, pow10_zero] using truncate_mul_pow10 false n 0
  rw [finitePower, reduced_mul_pow10 s e t hc, hreduced]
  dsimp only
  by_cases hone : c = 1 ∧ e + t = 0
  · obtain ⟨rfl, hzero⟩ := hone
    rw [if_pos (.inr ⟨rfl, hzero⟩), hzero, Nat.one_pow, Int.zero_mul]
  rw [if_neg (not_or.mpr ⟨by omega, hone⟩), htruncate, Int.natAbs_natCast]
  have hproduct : format.productPower negative c (e + t) n =
      format.round negative (c ^ n) ((e + t) * n) := by
    rw [productPower, if_pos (Int.natCast_nonneg n), Int.natAbs_natCast]
    by_cases hbase : c = 1
    · rw [if_pos hbase, hbase, Nat.one_pow]
    · rw [if_neg hbase]
      rfl
  have hintegral : integral m (0 + u) = true := if_pos (by omega)
  refine (if_pos ⟨hintegral, ?_⟩).trans hproduct
  by_cases hbase : c = 1
  · have hdigits : digitCount n ≤ 90 := (digitCount_le_iff (by decide)).mpr hu
    exact .inl ⟨hbase, by omega⟩
  · have hsmall := exponent_lt_of_pow_lt (by omega) hpower
    have hleading := digits_mul_lt_of_pow_lt (by omega) hpower
    have hdigits : digitCount n ≤ 3 :=
      (digitCount_le_iff (by decide)).mpr (hsmall.trans (by decide))
    have hwork : digitCount c * n ≤ productDigits := by
      have hpos := digitCount_pos c
      rw [Nat.sub_mul, Nat.one_mul] at hleading
      rw [productDigits]
      omega
    exact .inr ⟨by omega, hwork⟩

/-- A natural power with few digits near the units is exact. -/
theorem exists_power {reach : Nat} (hl : 1 ≤ n) (hu : n < pow10 90)
    (h : HasExtent 100 reach (toRat (.finite s c e) ^ n))
    (hr : 100 + (reach + 100) ≤ working.maxExponent + 1) :
    ∃ d, working.power (.finite s c e) (.ofNat n) = .ok d ∧
      d.StandsFor (toRat (.finite s c e) ^ n) := by
  have hn : (n == 0) = false := beq_false_of_ne (by omega)
  by_cases hc : c = 0
  · subst hc
    refine ⟨.finite (powerSign (.finite s 0 e) (.ofNat n)) 0 0, ?_, rfl, ?_⟩
    · simp [power, nanResult?, isZero, ofNat, isNegative, hn]
    · rw [toRat_zero, toRat_zero, zero_pow (by omega)]
  obtain ⟨m, t, rfl, hm⟩ := exists_trailing_zeros hc
  have hshifted := h
  rw [toRat_mul_pow10] at hshifted
  obtain ⟨hpower, hreach⟩ := power_bounds hm hshifted
  have hround : working.power (.finite s (m * pow10 t) e) (.ofNat n) =
      working.round (s && isOddPower n) (m ^ n) ((e + t) * n) := by
    have hfinite := finitePower_ofNat working (s && isOddPower n) s e t hm hl hu hpower
    have hbase : isZero (.finite s (m * pow10 t) e) = false := beq_false_of_ne hc
    rw [← hfinite, ← powerSign_ofNat s (m * pow10 t) e (Nat.ne_of_gt hl)]
    simp [power, nanResult?, hbase, ofNat, isNegative, isFinite, integral]
  have hrepresents : working.Represents
      (toRat (.finite (s && isOddPower n) (m ^ n) ((e + t) * n))) := by
    rw [← toRat_pow]
    exact (hasExtent_pow hshifted hl le_rfl).represents (by decide) hr
  rw [hround, toRat_mul_pow10, toRat_pow]
  exact exists_round hrepresents

end Format

end UnitCalculator
