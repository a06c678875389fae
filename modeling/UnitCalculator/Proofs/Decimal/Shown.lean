import UnitCalculator.Proofs.Decimal.Display
import UnitCalculator.Proofs.Decimal.Written

/-!
# Numbers as they are shown

A number is shown with the parts of the rounded number, without the zeros that end its digits behind
the point. The text is read as the rounded number again, in a shorter form that the working format
holds.
-/

namespace UnitCalculator

namespace Decimal

/-- The working format holds a finite number as it is. -/
structure Fits (coefficient : Nat) (exponent : Int) : Prop where
  digits : digitCount coefficient ≤ working.digits
  least : working.tiny ≤ exponent
  greatest : exponent + digitCount coefficient ≤ working.top

namespace Fits

variable {c : Nat} {e : Int}

/-- A number that fits is kept by rounding. -/
theorem round (h : Fits c e) (s : Bool) : working.round s c e = .ok (.finite s c e) := by
  have hpos := digitCount_pos c
  have hmost := h.greatest
  by_cases hc : c = 0
  · have hleast := h.least
    have hclamp : max working.tiny (min working.top e) = e := by omega
    rw [Format.round, if_pos hc, hclamp, hc]
  · exact Format.round_of_fits hc h.digits h.least (by omega)

/-- A number that fits is kept by multiplying it with one. -/
theorem multiply_one (h : Fits c e) (s : Bool) :
    working.multiply (.finite s c e) (.ofNat 1) = .ok (.finite s c e) := by
  rw [ofNat, Format.multiply_finite, Bool.bne_false, Nat.mul_one, Int.add_zero]
  exact h.round s

/-- The opposite of a positive number that fits. -/
theorem negate (h : Fits c e) (hc : c ≠ 0) :
    working.negate (.finite false c e) = .ok (.finite true c e) := by
  rw [Format.negate, if_neg hc]
  exact h.round true

/-- The bounds of storage are wider than those of the working format. -/
theorem storage (h : Fits c e) :
    leastExponent ≤ e ∧ e + digitCount c ≤ greatestExponent := by
  have hleast := h.least
  have hmost := h.greatest
  have htiny : leastExponent ≤ working.tiny := by decide
  have htop : working.top ≤ greatestExponent := by decide
  omega

end Fits

/-- Integers of at most one hundred digits fit. -/
theorem fits_zero {n : Nat} (h : n < pow10 100) : Fits n 0 := by
  have hcount : digitCount n ≤ 100 := (digitCount_le_iff (by decide)).mpr h
  obtain ⟨hdigits, htop, htiny⟩ := working_bounds
  exact ⟨by omega, by omega, by omega⟩

/-- So do the parts of their texts. -/
theorem Written.fits_ofNat {n : Nat} (h : n < pow10 100) :
    Fits (ofNat n).coefficient (ofNat n).exponent := by
  rw [coefficient_ofNat, exponent_ofNat]
  exact fits_zero h

section

variable {s : Bool} {c figures : Nat} {e : Int}

/-- The greatest distance of the leading digit from the units of numbers that are shown. -/
def shownExponent : Nat := 999000

/-- A number whose leading digit is not too far from the units is rounded to a multiple of the unit
of its last figure. -/
theorem roundFigures_of_leading (hc : c ≠ 0) (hl : 0 < figures) (hu : figures ≤ 50)
    (hr : (adjusted (.finite s c e)).natAbs ≤ shownExponent + 2) {x : Int}
    (hx : x = adjusted (.finite s c e) - figures + 1) :
    roundFigures (.finite s c e) (.finite s c e) figures = .ok (.finite s (multiple c e x) x) := by
  have hfar : shownExponent = 999000 := rfl
  obtain ⟨hdigits, htop, -⟩ := working_bounds
  obtain ⟨hleast, -, htiny⟩ := unit_bounds
  exact (roundFigures_eq_ok_iff hc hl (by omega)).mpr
    ⟨.inr ⟨by omega, .inl (by omega)⟩, x, by omega, rfl⟩

/-- A positive number is rounded to a positive one. -/
theorem multiple_ne_zero (hc : c ≠ 0) (hl : 0 < figures) {x : Int}
    (h : digitCount c + (e - x) = figures) : multiple c e x ≠ 0 := by
  obtain ⟨fewer, rfl⟩ := Nat.exists_eq_succ_of_ne_zero (Nat.ne_of_gt hl)
  exact Nat.ne_of_gt ((pow10_pos fewer).trans_le (pow10_le_multiple hc h))

/-- A power of ten at another unit. -/
theorem multiple_pow10 {t k : Nat} {x : Int} (h : t + (e - x) = k) :
    multiple (pow10 t) e x = pow10 k := by
  rw [multiple]
  by_cases hle : x ≤ e
  · have hplaces : k = t + (e - x).toNat := by omega
    rw [if_pos hle, hplaces, pow10_add]
  · have hplaces : t = k + (x - e).toNat := by omega
    have hcount := digitCount_pow10 t
    have hvalue : pow10 t = pow10 k * pow10 (x - e).toNat := by rw [← pow10_add, ← hplaces]
    have hpos := pow10_pos (x - e).toNat
    have hdouble : pow10 k * (2 * pow10 (x - e).toNat) = 2 * (pow10 k * pow10 (x - e).toNat) :=
      Nat.mul_left_comm ..
    rw [if_neg hle, dropDigits_away (by omega), hvalue]
    exact Nat.div_eq_of_lt_le (by omega) (by rw [Nat.add_mul]; omega)

/-- A number whose leading digit is not too far from the units is rounded to a multiple of the unit
of its last figure, written in as many digits as there are figures. -/
theorem exists_rounded (hc : c ≠ 0) (hl : 0 < figures) (hu : figures ≤ 50)
    (hr : (adjusted (.finite s c e)).natAbs ≤ shownExponent + 1) {x : Int}
    (hx : x = adjusted (.finite s c e) - figures + 1) :
    ∃ m k : Nat, rounded (.finite s c e) figures = .ok (.finite s m (x + k)) ∧ m ≠ 0 ∧
      digitCount m = figures ∧ multiple c e x = m * pow10 k ∧ k ≤ 1 := by
  have hfirst := roundFigures_of_leading hc hl hu (Nat.le_succ_of_le hr) hx
  rw [adjusted_finite] at hr hx
  have hunit : digitCount c + (e - x) = figures := by omega
  rcases digitCount_multiple hc hl hunit with ⟨hcount, -⟩ | ⟨hcount, hcarry⟩
  · have hsame : adjusted (.finite s (multiple c e x) x) = adjusted (.finite s c e) := by
      rw [adjusted_finite, adjusted_finite]
      omega
    refine ⟨multiple c e x, 0, bind_eq_ok_iff.mpr ⟨_, hfirst, ?_⟩, multiple_ne_zero hc hl hunit,
      hcount, (Nat.mul_one _).symm, Nat.zero_le 1⟩
    rw [if_pos hsame, Int.natCast_zero, Int.add_zero]
    rfl
  · -- rounding went up to a power of ten, which is rounded once more
    have hten : multiple c e x = pow10 figures :=
      Nat.le_antisymm (multiple_le hunit.le) ((le_multiple_iff hunit).mpr hcarry)
    obtain ⟨fewer, rfl⟩ : ∃ fewer, figures = fewer + 1 := ⟨figures - 1, by omega⟩
    rw [hten] at hfirst hcount ⊢
    have hmoved : adjusted (.finite s (pow10 (fewer + 1)) x) ≠ adjusted (.finite s c e) := by
      rw [adjusted_finite, adjusted_finite]
      omega
    have hagain : multiple (pow10 (fewer + 1)) x (x + 1) = pow10 fewer :=
      multiple_pow10 (by omega)
    refine ⟨pow10 fewer, 1, bind_eq_ok_iff.mpr ⟨_, hfirst, ?_⟩, pow10_ne_zero fewer,
      digitCount_pow10 fewer, (pow10_succ fewer).trans (Nat.mul_comm ..), le_rfl⟩
    rw [if_neg hmoved, ← hagain]
    refine roundFigures_of_leading (pow10_ne_zero _) hl hu ?_ ?_
    · rw [adjusted_finite]
      omega
    · rw [adjusted_finite]
      omega

/-- A number that is rounded is shown without the zeros that end its digits behind the point. -/
theorem display_of_rounded {value : Decimal} {figures : Int} {m : Nat} {x : Int} {w : Written}
    (hv : value.isZero = false) (hr : rounded value figures = .ok (.finite s m x))
    (hw : unsignedText m x = w.text) :
    display value figures = .ok (String.ofList ((if s then ['-'] else []) ++ w.trim.text)) := by
  have hfront : '.' ∉ (if s then ['-'] else []) := by cases s <;> decide
  have htext : (Decimal.text (.finite s m x)).toList = (if s then ['-'] else []) ++ w.text := by
    rw [Decimal.text, String.toList_ofList, hw]
  have hshown : display value figures = .ok (String.ofList
      (trimFraction (splitPower (Decimal.text (.finite s m x)).toList).1 ++
        (splitPower (Decimal.text (.finite s m x)).toList).2)) := by
    rw [display, hv, hr, if_neg Bool.false_ne_true]
    rfl
  rw [hshown, htext, w.splitPower_text s, w.trimFraction_append hfront, List.append_assoc]
  rfl

/-- The parts of a number whose leading digit is not too far from the units are those of a number
that the working format holds when the zeros that end its digits behind the point are left out. -/
theorem exists_trim_fits (hc : c ≠ 0) (hd : digitCount c ≤ 50)
    (hr : (adjusted (.finite s c e)).natAbs ≤ shownExponent + 2) :
    ∃ w : Written, unsignedText c e = w.text ∧ w.trim.coefficient ≠ 0 ∧
      Fits w.trim.coefficient w.trim.exponent ∧
      ∃ zeros : Nat, c = w.trim.coefficient * pow10 zeros ∧ w.trim.exponent = e + zeros := by
  have hleading := adjusted_finite s c e
  obtain ⟨w, hw, rfl, rfl⟩ := Written.exists_unsignedText c e
  obtain ⟨zeros, hvalue, hexponent⟩ := w.exists_trim
  have htrim : w.trim.coefficient ≠ 0 := by
    intro hzero
    rw [hzero, Nat.zero_mul] at hvalue
    exact hc hvalue
  have hcount := digitCount_mul_pow10 htrim zeros
  rw [← hvalue] at hcount
  have hfar : shownExponent = 999000 := rfl
  obtain ⟨hdigits, htop, htiny⟩ := working_bounds
  exact ⟨w, hw, htrim, ⟨by omega, by omega, by omega⟩, zeros, hvalue, hexponent⟩

/-- A number is shown by a text that the working format holds. -/
theorem exists_display_written (hc : c ≠ 0) (hl : 0 < figures) (hu : figures ≤ 50)
    (hr : (adjusted (.finite s c e)).natAbs ≤ shownExponent) :
    ∃ w : Written, display (.finite s c e) figures =
        .ok (String.ofList ((if s then ['-'] else []) ++ w.text)) ∧
      w.coefficient ≠ 0 ∧ Fits w.coefficient w.exponent := by
  obtain ⟨m, k, hround, hm, hcount, -, hk⟩ := exists_rounded hc hl hu (Nat.le_succ_of_le hr) rfl
  have hleading : adjusted (.finite s m (adjusted (.finite s c e) - figures + 1 + k)) =
      adjusted (.finite s c e) + k := by
    rw [adjusted_finite, hcount]
    omega
  obtain ⟨w, hw, htrim, hfits, -⟩ := exists_trim_fits hm (by omega) (by rw [hleading]; omega)
  exact ⟨w.trim, display_of_rounded (isZero_finite_eq_false_iff.mpr hc) hround hw, htrim, hfits⟩

/-- A finite number whose leading digit is not too far from the units, or zero, is shown by a text
that the working format holds. -/
theorem exists_display_fits {value : Decimal} (hv : value.isFinite = true) (hl : 0 < figures)
    (hu : figures ≤ 50) (hr : value.isZero = true ∨ value.adjusted.natAbs ≤ shownExponent) :
    ∃ (negative : Bool) (w : Written), value.display figures =
        .ok (String.ofList ((if negative then ['-'] else []) ++ w.text)) ∧
      (negative = true → w.coefficient ≠ 0) ∧ Fits w.coefficient w.exponent := by
  cases value with
  | finite s c e =>
    by_cases hc : c = 0
    · have hzero : isZero (.finite s c e) = true := by simpa [isZero] using hc
      refine ⟨false, Written.ofNat 0, ?_, fun h => absurd h Bool.false_ne_true,
        Written.fits_ofNat (pow10_pos 100)⟩
      rw [display, if_pos hzero]
      rfl
    · have hleading := hr.resolve_left (by simpa [isZero] using hc)
      obtain ⟨w, hdisplay, hw, hfits⟩ := exists_display_written hc hl hu hleading
      exact ⟨s, w, hdisplay, fun _ => hw, hfits⟩
  | infinity s => cases hv
  | nan s signaling payload => cases hv

/-- The digits of a power of ten. -/
theorem toDigits_pow10 (k : Nat) : Nat.toDigits 10 (pow10 k) = '1' :: List.replicate k '0' := by
  induction k with
  | zero => rfl
  | succ k ih =>
    have hdigits := Nat.toDigits_append_toDigits (d := 0) (by decide : 1 < 10) (pow10_pos k)
      (by decide)
    rw [pow10_succ, ← Nat.add_zero (10 * pow10 k), ← hdigits, ih, Nat.toDigits_zero,
      List.cons_append, ← List.replicate_succ']

/-- One with zeros behind the point. -/
theorem unsignedText_one (k : Nat) : ∃ w : Written,
    unsignedText (pow10 k) (-(k : Int)) = w.text ∧ w.trim.text = ['1'] := by
  have hdigits : ∀ c ∈ ['1'] ++ List.replicate k '0', Text.isLatinDigit c = true := by
    intro c hc
    rcases List.mem_append.mp hc with hc | hc
    · rw [List.mem_singleton.mp hc]
      decide
    · rw [(List.mem_replicate.mp hc).2]
      decide
  refine ⟨⟨['1'], List.replicate k '0', none, by simp, hdigits⟩, ?_, ?_⟩
  · rw [unsignedText, toDigits_pow10]
    cases k with
    | zero => rfl
    | succ k =>
      have hpoint : -((k + 1 : Nat) : Int) + ('1' :: List.replicate (k + 1) '0').length = 1 := by
        rw [List.length_cons, List.length_replicate]
        omega
      rw [hpoint]
      dsimp only
      rw [if_pos (by omega), if_neg (by omega), if_pos (by decide)]
      simp [Written.text, Written.decimalText, powerText]
  · have hzeros : ((List.replicate k '0').reverse.dropWhile (· = '0')).reverse = [] := by simp
    simp only [Written.trim, Written.text, Written.decimalText, hzeros]
    rfl

/-- One is rounded to one with as many figures, in whatever form it is given. -/
theorem rounded_pow10 (t : Nat) {fewer : Nat} (hu : fewer < 50) :
    rounded (.finite false (pow10 t) (-(t : Int))) (fewer + 1 : Nat) =
      .ok (.finite false (pow10 fewer) (-(fewer : Int))) := by
  have hleading : ∀ k : Nat, adjusted (.finite false (pow10 k) (-(k : Int))) = 0 := by
    intro k
    rw [adjusted_finite, digitCount_pow10]
    omega
  have hlast : -(fewer : Int) =
      adjusted (.finite false (pow10 t) (-(t : Int))) - (fewer + 1 : Nat) + 1 := by
    rw [hleading]
    omega
  have hnear : (adjusted (.finite false (pow10 t) (-(t : Int)))).natAbs ≤ shownExponent + 2 := by
    rw [hleading]
    exact Nat.zero_le _
  have hfirst := roundFigures_of_leading (pow10_ne_zero t) (Nat.succ_pos fewer) hu hnear
    hlast
  rw [multiple_pow10 (k := fewer) (by omega)] at hfirst
  refine bind_eq_ok_iff.mpr ⟨_, hfirst, ?_⟩
  rw [if_pos ((hleading fewer).trans (hleading t).symm)]
  rfl

/-- A number that equals one is shown as one, in whatever form it is given. -/
theorem display_of_isEqual_one {value : Decimal} (h : value.isEqual (.ofNat 1) = .ok true)
    (hl : 0 < figures) (hu : figures ≤ 50) : value.display figures = .ok "1" := by
  obtain ⟨t, rfl⟩ := eq_of_isEqual_one h
  obtain ⟨fewer, rfl⟩ := Nat.exists_eq_succ_of_ne_zero (Nat.ne_of_gt hl)
  obtain ⟨w, hw, htrim⟩ := unsignedText_one fewer
  have hzero := isZero_finite_eq_false_iff (s := false) (e := -(t : Int)).mpr (pow10_ne_zero t)
  rw [display_of_rounded hzero (rounded_pow10 t hu) hw, htrim]
  rfl

end

end Decimal

end UnitCalculator
