import Mathlib.Algebra.Order.Field.Power
import Mathlib.Data.Int.Log
import Mathlib.Data.Rat.Floor
import UnitCalculator.Proofs.Decimal.Shown
import UnitCalculator.Proofs.Decimal.Value

/-!
# Significant figures of a value

Showing a number rounds the rational number that it stands for, halves away from zero. The rounded
number is determined by its value and its number of digits, so the text does not depend on the form
in which a number is given, and the number that is read from the text has the same text again.
-/

namespace UnitCalculator

namespace Decimal

/-- A rational number rounded to significant figures, halves away from zero. -/
def roundSignificant (figures : Nat) (x : ℚ) : ℚ :=
  let unit : ℚ := 10 ^ (Int.log 10 |x| - figures + 1)
  let nearest := ⌊|x| / unit + 1 / 2⌋ * unit
  if x < 0 then -nearest else nearest

section

variable {s : Bool} {c : Nat} {e : Int}

/-- The magnitude that a finite number stands for. -/
theorem abs_toRat (s : Bool) (c : Nat) (e : Int) : |toRat (.finite s c e)| = c * 10 ^ e := by
  rw [toRat, abs_mul, abs_of_pos (ten_zpow_pos e)]
  cases s <;> simp

/-- The sign of a number that is not zero. -/
theorem toRat_neg_iff (hc : c ≠ 0) : toRat (.finite s c e) < 0 ↔ s = true := by
  have hpower := ten_zpow_pos e
  have hpos : (0 : ℚ) < c := Nat.cast_pos.mpr (Nat.pos_of_ne_zero hc)
  rw [toRat]
  cases s with
  | false => exact iff_of_false (not_lt.mpr (mul_pos hpos hpower).le) Bool.false_ne_true
  | true => exact iff_of_true (mul_neg_of_neg_of_pos (neg_neg_of_pos hpos) hpower) rfl

/-- A finite number is zero if it stands for zero. -/
theorem toRat_eq_zero_iff : toRat (.finite s c e) = 0 ↔ c = 0 := by
  rw [← abs_eq_zero, abs_toRat, mul_eq_zero_iff_right (ten_zpow_pos e).ne', Nat.cast_eq_zero]

/-- The exponent of the leading digit is the logarithm of the value. -/
theorem log_toRat (hc : c ≠ 0) : Int.log 10 |toRat (.finite s c e)| = adjusted (.finite s c e) := by
  have hpos : (0 : ℚ) < c * 10 ^ e :=
    mul_pos (Nat.cast_pos.mpr (Nat.pos_of_ne_zero hc)) (ten_zpow_pos e)
  have hten : (10 : ℚ) ≠ 0 := by norm_num
  obtain ⟨fewer, hcount⟩ := Nat.exists_eq_succ_of_ne_zero (Nat.ne_of_gt (digitCount_pos c))
  have hleading : adjusted (.finite s c e) = fewer + e := by
    rw [adjusted_finite, hcount]
    omega
  have hleast : ((10 : Nat) : ℚ) ^ ((fewer : Int) + e) ≤ c * 10 ^ e := by
    rw [Nat.cast_ofNat, zpow_add₀ hten, zpow_natCast, ← cast_pow10]
    gcongr
    exact pow10_le_of_lt_digitCount hc (by omega)
  have hmost : (c : ℚ) * 10 ^ e < ((10 : Nat) : ℚ) ^ ((fewer : Int) + e + 1) := by
    have hsplit : (fewer : Int) + e + 1 = (fewer + 1 : Nat) + e := by omega
    rw [Nat.cast_ofNat, hsplit, zpow_add₀ hten, zpow_natCast, ← cast_pow10]
    gcongr
    have hless := lt_pow10_digitCount c
    rwa [hcount] at hless
  rw [abs_toRat, hleading]
  refine le_antisymm (Int.lt_add_one_iff.mp ?_) ?_
  · exact (Int.lt_zpow_iff_log_lt (by decide) hpos).mp hmost
  · exact (Int.zpow_le_iff_le_log (by decide) hpos).mp hleast

/-- The multiple of a unit is the nearest integer to the quotient, halves up. -/
theorem floor_multiple {x : Int} (h : x ≤ e + digitCount c) :
    ⌊(c * 10 ^ e : ℚ) / 10 ^ x + 1 / 2⌋ = multiple c e x := by
  have hten : (10 : ℚ) ≠ 0 := by norm_num
  rw [mul_div_assoc, ← zpow_sub₀ hten, multiple]
  by_cases hle : x ≤ e
  · have hwhole : (c : ℚ) * 10 ^ (e - x) = (c * pow10 (e - x).toNat : Nat) := by
      rw [Nat.cast_mul, cast_pow10, ← zpow_natCast, Int.toNat_of_nonneg (by omega)]
    have hhalf : ⌊(1 / 2 : ℚ)⌋ = 0 := by norm_num
    rw [if_pos hle, hwhole, Int.floor_natCast_add, hhalf, add_zero]
  · have hplaces : e - x = -((x - e).toNat : Int) := by omega
    have hpos := pow10_pos (x - e).toNat
    have hsum : (c : ℚ) * 10 ^ (e - x) + 1 / 2 =
        ((2 * c + pow10 (x - e).toNat : Nat) : ℚ) / (2 * pow10 (x - e).toNat : Nat) := by
      have hunit : (pow10 (x - e).toNat : ℚ) ≠ 0 := Nat.cast_ne_zero.mpr (Nat.ne_of_gt hpos)
      rw [hplaces, zpow_neg, zpow_natCast, ← cast_pow10]
      push_cast
      field_simp
    rw [if_neg hle, hsum, Rat.floor_natCast_div_natCast, dropDigits_away (by omega),
      Int.natCast_div]

/-- The multiple of the unit of the last figure is the value rounded to significant figures. -/
theorem toRat_multiple {figures : Nat} (hc : c ≠ 0) (hl : 0 < figures) {x : Int}
    (hx : x = adjusted (.finite s c e) - figures + 1) :
    toRat (.finite s (multiple c e x) x) = roundSignificant figures (toRat (.finite s c e)) := by
  have hnear : x ≤ e + digitCount c := by
    rw [hx, adjusted_finite]
    omega
  rw [roundSignificant, log_toRat hc, ← hx, abs_toRat, floor_multiple hnear, toRat,
    Int.cast_natCast]
  simp only [toRat_neg_iff hc]
  cases s with
  | false => rfl
  | true => exact neg_mul _ _

/-- A number of as many digits as there are figures is rounded. -/
theorem roundSignificant_toRat (hc : c ≠ 0) :
    roundSignificant (digitCount c) (toRat (.finite s c e)) = toRat (.finite s c e) := by
  have hunit : e = adjusted (.finite s c e) - digitCount c + 1 := by
    rw [adjusted_finite]
    omega
  have hsame : multiple c e e = c := by
    rw [multiple, if_pos le_rfl, Int.sub_self]
    exact Nat.mul_one c
  rw [← toRat_multiple hc (digitCount_pos c) hunit, hsame]

section

variable {s' : Bool} {c' : Nat} {e' : Int}

/-- The leading digit does not depend on the form of a number. -/
theorem adjusted_eq_of_toRat_eq (hc : c ≠ 0)
    (h : toRat (.finite s c e) = toRat (.finite s' c' e')) :
    c' ≠ 0 ∧ adjusted (.finite s c e) = adjusted (.finite s' c' e') := by
  have hc' : c' ≠ 0 := fun hzero =>
    hc (toRat_eq_zero_iff.mp (h.trans (toRat_eq_zero_iff.mpr hzero)))
  exact ⟨hc', by rw [← log_toRat hc, ← log_toRat hc', h]⟩

/-- Numbers of one value and one number of digits have one form. -/
theorem finite_eq_of_toRat_eq (hc : c ≠ 0) (hd : digitCount c = digitCount c')
    (h : toRat (.finite s c e) = toRat (.finite s' c' e')) :
    finite s c e = .finite s' c' e' := by
  obtain ⟨hc', hleading⟩ := adjusted_eq_of_toRat_eq hc h
  have hsign : s = s' := by
    rw [Bool.eq_iff_iff, ← toRat_neg_iff hc, ← toRat_neg_iff hc', h]
  have hexponent : e = e' := by
    rw [adjusted_finite, adjusted_finite] at hleading
    omega
  subst hsign hexponent
  have hmagnitude := congrArg (|·|) h
  rw [abs_toRat, abs_toRat] at hmagnitude
  rw [Nat.cast_injective (mul_right_cancel₀ (ten_zpow_pos e).ne' hmagnitude)]

end

variable {figures : Nat}

/-- A number whose leading digit is not too far from the units is rounded to the form of the rounded
value that has as many digits as there are figures. -/
theorem exists_rounded_toRat (hc : c ≠ 0) (hl : 0 < figures) (hu : figures ≤ 50)
    (hr : (adjusted (.finite s c e)).natAbs ≤ shownExponent + 1) :
    ∃ m x, rounded (.finite s c e) figures = .ok (.finite s m x) ∧ m ≠ 0 ∧ digitCount m = figures ∧
      toRat (.finite s m x) = roundSignificant figures (toRat (.finite s c e)) ∧
      (adjusted (.finite s m x)).natAbs ≤ (adjusted (.finite s c e)).natAbs + 1 := by
  obtain ⟨m, k, hround, hm, hd, hform, hk⟩ := exists_rounded hc hl hu hr rfl
  refine ⟨m, _, hround, hm, hd, ?_, ?_⟩
  · rw [← toRat_multiple hc hl rfl, hform, toRat_mul_pow10]
  · rw [adjusted_finite s m, hd]
    omega

/-- The form of the rounded value that has as many digits as there are figures is the one that is
shown. -/
theorem display_of_toRat {t : Bool} {m : Nat} {x : Int} {w : Written} (hc : c ≠ 0)
    (hl : 0 < figures) (hu : figures ≤ 50)
    (hr : (adjusted (.finite s c e)).natAbs ≤ shownExponent + 1) (hd : digitCount m = figures)
    (hw : unsignedText m x = w.text)
    (h : toRat (.finite t m x) = roundSignificant figures (toRat (.finite s c e))) :
    display (.finite s c e) figures =
      .ok (String.ofList ((if t then ['-'] else []) ++ w.trim.text)) := by
  obtain ⟨m', x', hround, hm', hd', hvalue, -⟩ := exists_rounded_toRat hc hl hu hr
  rw [finite_eq_of_toRat_eq hm' (hd'.trans hd.symm) (hvalue.trans h.symm)] at hround
  exact display_of_rounded (isZero_finite_eq_false_iff.mpr hc) hround hw

end

/-- A number that is not zero is shown by the text of its value rounded to significant figures. The
text is read as the rounded value, has no zeros at the end of its digits behind the point nor a
point at their end, and is the text of every form of the number and of the number that is read. -/
theorem display_significant_spec {value : Decimal} {figures : Nat} (hv : value.isFinite = true)
    (hz : value.isZero = false) (hr : value.adjusted.natAbs ≤ 999000) (hl : 1 ≤ figures)
    (hu : figures ≤ 50) :
    ∃ text shown, value.display figures = .ok text ∧ read? text.toList = some shown ∧
      shown.isFinite = true ∧ shown.toRat = roundSignificant figures value.toRat ∧
      (∀ last, '.' ∈ text.toList.takeWhile (· ≠ 'E') →
        (text.toList.takeWhile (· ≠ 'E')).getLast? = some last → last ≠ '0' ∧ last ≠ '.') ∧
      (∀ other : Decimal, other.isFinite = true → other.toRat = value.toRat →
        other.display figures = .ok text) ∧
      shown.display figures = .ok text := by
  cases value with
  | finite s c e =>
    have hc := isZero_finite_eq_false_iff.mp hz
    have hfar : shownExponent = 999000 := rfl
    obtain ⟨m, x, -, hm, hd, hvalue, hnear⟩ :=
      exists_rounded_toRat (s := s) hc hl hu (Nat.le_succ_of_le hr)
    obtain ⟨w, hw, htrim, hfits, zeros, hform, hexponent⟩ :=
      exists_trim_fits (s := s) (e := x) hm (hd.le.trans hu) (by omega)
    have hshown : toRat (.finite s w.trim.coefficient w.trim.exponent) = toRat (.finite s m x) := by
      rw [hform, toRat_mul_pow10, hexponent]
    refine ⟨_, .finite s w.trim.coefficient w.trim.exponent,
      display_of_toRat hc hl hu (Nat.le_succ_of_le hr) hd hw hvalue, ?_, rfl, hshown.trans hvalue,
      ?_, ?_, ?_⟩
    · rw [String.toList_ofList]
      exact w.trim.read?_text s hfits.storage.1 hfits.storage.2
    · rw [String.toList_ofList]
      exact fun last => w.last_of_mantissa s
    · intro other hfinite hother
      cases other with
      | finite t d f =>
        obtain ⟨hne, hleading⟩ := adjusted_eq_of_toRat_eq hc hother.symm
        rw [hleading] at hr
        exact display_of_toRat hne hl hu (Nat.le_succ_of_le hr) hd hw (by rw [hvalue, hother])
      | infinity t => cases hfinite
      | nan t signaling payload => cases hfinite
    · -- the number that is read has the value of the rounded number, which is rounded already
      obtain ⟨-, hleading⟩ := adjusted_eq_of_toRat_eq htrim hshown
      refine display_of_toRat htrim hl hu (by rw [hleading]; omega) hd hw ?_
      rw [hshown, ← hd, roundSignificant_toRat hm]
  | infinity s => cases hv
  | nan s signaling payload => cases hv

/-- Rounding to three figures goes up to one, which is shown without its zeros. -/
theorem display_significant_spec_carry :
    let value := finite true 99951 (-5)
    (value.isFinite = true ∧ value.isZero = false ∧ value.adjusted.natAbs ≤ 999000 ∧ 1 ≤ 3 ∧
      3 ≤ 50) ∧
      value.display (3 : Nat) = .ok "-1" ∧ (finite true 9995100 (-7)).display (3 : Nat) = .ok "-1" ∧
      roundSignificant 3 value.toRat = -1 := by
  have hr : (finite true 99951 (-5)).adjusted.natAbs ≤ 999000 := by decide +kernel
  refine ⟨⟨rfl, rfl, hr, by decide, by decide⟩, ?_⟩
  obtain ⟨text, shown, hdisplay, hread, -, hvalue, -, hforms, -⟩ :=
    @display_significant_spec (.finite true 99951 (-5)) 3 rfl rfl hr (by decide) (by decide)
  have htext : (finite true 99951 (-5)).display (3 : Nat) = .ok "-1" := by decide +kernel
  obtain rfl : text = "-1" := Except.ok.inj (hdisplay.symm.trans htext)
  have hone : read? "-1".toList = some (.finite true 1 0) := by decide +kernel
  obtain rfl : shown = .finite true 1 0 := Option.some.inj (hread.symm.trans hone)
  refine ⟨htext, hforms _ rfl ?_, hvalue.symm.trans ?_⟩
  · exact toRat_mul_pow10 true 99951 2 (-7)
  · norm_num [toRat]

end Decimal

end UnitCalculator
