import UnitCalculator.Proofs.Decimal.Rounding

/-!
# Forms of a number

A value has many forms: trailing zeros of the coefficient can be traded for the exponent. Whether a
number is integral, its integer part, and whether it equals one do not depend on the form.
-/

namespace UnitCalculator.Decimal

/-- Trailing zeros are divided out. -/
theorem dropZeros_mul (c : Nat) (e : Int) {t fuel : Nat} (h : t ≤ fuel) :
    dropZeros fuel (c * pow10 t) e = dropZeros (fuel - t) c (e + t) := by
  induction t generalizing fuel e with
  | zero => simp [pow10]
  | succ t ih =>
    obtain ⟨fuel, rfl⟩ := Nat.exists_eq_succ_of_ne_zero (Nat.ne_of_gt (Nat.zero_lt_of_lt h))
    have hten : c * pow10 (t + 1) = c * pow10 t * 10 := by
      rw [pow10_succ, Nat.mul_left_comm, Nat.mul_comm]
    rw [hten, dropZeros, if_pos (Nat.mul_mod_left _ _), Nat.mul_div_cancel _ (by decide),
      ih (e + 1) (Nat.le_of_succ_le_succ h)]
    congr 1
    · omega
    · omega

/-- Nothing is divided out where there is no trailing zero. -/
theorem dropZeros_eq_self {c : Nat} (e : Int) (fuel : Nat) (h : c % 10 ≠ 0) :
    dropZeros fuel c e = (c, e) := by
  cases fuel with
  | zero => rfl
  | succ fuel => rw [dropZeros, if_neg h]

/-- The form of a number with its trailing zeros divided out. -/
theorem reduced_mul_pow10 {c : Nat} (s : Bool) (e : Int) (t : Nat) (h : c % 10 ≠ 0) :
    reduced (.finite s (c * pow10 t) e) = .finite s c (e + t) := by
  have hc : c ≠ 0 := by
    rintro rfl
    exact h rfl
  have hmul : c * pow10 t ≠ 0 := Nat.mul_ne_zero hc (pow10_ne_zero t)
  have hfuel : t ≤ digitCount (c * pow10 t) := by
    rw [digitCount_mul_pow10 hc]
    exact Nat.le_add_left ..
  rw [reduced, if_neg hmul, dropZeros_mul c e hfuel, dropZeros_eq_self _ _ h]

/-- The form of a finite number without trailing zeros is finite. -/
theorem exists_reduced (s : Bool) (c : Nat) (e : Int) :
    ∃ m f, reduced (.finite s c e) = .finite s m f := by
  rw [reduced]
  split
  · exact ⟨_, _, rfl⟩
  · exact ⟨_, _, rfl⟩

/-- A number with digits behind the point is integral if these digits vanish. -/
theorem integral_neg_iff {c m : Nat} : integral c (-(m : Int)) = true ↔ pow10 m ∣ c := by
  rw [integral]
  by_cases hm : m = 0
  · subst hm
    exact iff_of_true (if_pos (by decide)) (Nat.one_dvd c)
  · rw [if_neg (by omega), Int.neg_neg, Int.toNat_natCast]
    by_cases hc : c = 0
    · subst hc
      exact iff_of_true (if_pos rfl) (Nat.dvd_zero _)
    · rw [if_neg hc]
      by_cases hshort : digitCount c < m
      · rw [if_pos hshort]
        have hless := (lt_pow10_digitCount c).trans_le (pow10_le_pow10 hshort.le)
        exact iff_of_false Bool.false_ne_true
          (Nat.not_dvd_of_pos_of_lt (Nat.pos_of_ne_zero hc) hless)
      · rw [if_neg hshort, beq_iff_eq, Nat.dvd_iff_mod_eq_zero]

/-- The integer part of a multiple of a power of ten whose zeros lie behind the point. -/
theorem truncate_mul_pow10 (s : Bool) (z m : Nat) :
    truncate (.finite s (z * pow10 m) (-(m : Int))) = if s then -(z : Int) else z := by
  have hmagnitude : (if (0 : Int) ≤ -(m : Int) then z * pow10 m * pow10 (-(m : Int)).toNat
      else if digitCount (z * pow10 m) < (-(-(m : Int))).toNat then 0
      else z * pow10 m / pow10 (-(-(m : Int))).toNat) = z := by
    by_cases hm : m = 0
    · subst hm
      exact (if_pos (by decide)).trans (by simp [pow10])
    · rw [if_neg (by omega), Int.neg_neg, Int.toNat_natCast,
        Nat.mul_div_cancel _ (pow10_pos m)]
      split
      · next hshort =>
        by_contra hz
        rw [digitCount_mul_pow10 (Ne.symm hz)] at hshort
        omega
      · rfl
  rw [truncate]
  simp only [hmagnitude]

/-- A number that equals one is a power of ten whose zeros lie behind the point. -/
theorem eq_of_isEqual_one {value : Decimal} (h : value.isEqual (.ofNat 1) = .ok true) :
    ∃ t : Nat, value = .finite false (pow10 t) (-(t : Int)) := by
  cases value with
  | finite s c e =>
    have hcompare : compareFinite s c e false 1 0 = .eq := by
      simpa [isEqual, compare?, ofNat] using h
    by_cases hc : c = 0
    · simp [compareFinite, hc] at hcompare
    · cases s with
      | true => simp [compareFinite, hc] at hcompare
      | false =>
        have hmagnitude : compareMagnitude c e 1 0 = .eq := by
          simpa [compareFinite, hc] using hcompare
        have hvalue : c * pow10 (e - 0).toNat = 1 * pow10 (0 - e).toNat := by
          rw [compareMagnitude] at hmagnitude
          split at hmagnitude
          · exact Nat.compare_eq_eq.mp hmagnitude
          · next hne => exact absurd hmagnitude hne
        rw [Nat.one_mul] at hvalue
        rcases Int.le_total e 0 with hle | hge
        · have hzeros : (e - 0).toNat = 0 := by omega
          have hexponent : e = -((0 - e).toNat : Int) := by omega
          rw [hzeros, pow10_zero, Nat.mul_one] at hvalue
          exact ⟨(0 - e).toNat, by rw [← hexponent, ← hvalue]⟩
        · have hzeros : (0 - e).toNat = 0 := by omega
          rw [hzeros, pow10_zero] at hvalue
          cases hplaces : (e - 0).toNat with
          | zero =>
            rw [hplaces, pow10_zero, Nat.mul_one] at hvalue
            exact ⟨0, by rw [hvalue, show e = 0 by omega]; rfl⟩
          | succ places =>
            rw [hplaces, pow10_succ, Nat.mul_left_comm] at hvalue
            omega
  | infinity s => cases s <;> simp [isEqual, compare?, ofNat] at h
  | nan s signaling payload => cases signaling <;> simp [isEqual, compare?, ofNat] at h

end UnitCalculator.Decimal
