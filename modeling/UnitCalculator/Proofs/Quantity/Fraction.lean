import UnitCalculator.Proofs.Decimal.Value
import UnitCalculator.Proofs.Quantity.Power

/-!
# Powers with exponents that are written

A number that is written with fewer digits than the working format has is multiplied by a small
denominator without an error. So a dimension can be raised to it exactly if one of its first nine
multiples is an integer, and whichever of them comes first, the power is the number itself.
-/

namespace UnitCalculator

namespace Decimal

/-- A finite number has at most so many significant digits, the zeros that end its coefficient not
counted. -/
def HasFigures (figures : Nat) : Decimal → Prop
  | .finite _ c _ => ∃ m t, c = m * pow10 t ∧ m < pow10 figures
  | _ => False

/-- The greatest distance of the leading digit of a written exponent from the units. -/
def nearUnits : Nat := 1000

variable {value : Decimal}

/-- A number with few digits is finite. -/
theorem HasFigures.exists_eq {figures : Nat} (hn : value.HasFigures figures) :
    ∃ s m t e, value = .finite s (m * pow10 t) e ∧ m < pow10 figures := by
  cases value with
  | finite s c e =>
    obtain ⟨m, t, rfl, hm⟩ := hn
    exact ⟨s, m, t, e, rfl, hm⟩
  | infinity s => exact hn.elim
  | nan s signaling payload => exact hn.elim

/-- The product of a number with few digits and a digit is exact. -/
theorem HasFigures.exists_multiply (hn : value.HasFigures 99)
    (hr : value.adjusted.natAbs ≤ nearUnits) {j : Nat} (hu : j ≤ 9) :
    ∃ s c e, working.multiply value (.ofNat j) = .ok (.finite s c e) ∧
      toRat (.finite s c e) = value.toRat * j := by
  obtain ⟨s, m, t, e, rfl, hm⟩ := hn.exists_eq
  have hnear : nearUnits = 1000 := rfl
  have hten : pow10 100 = 10 * pow10 99 := pow10_succ 99
  have hproduct : m * j ≤ m * 9 := Nat.mul_le_mul_left m hu
  have hcount : digitCount (m * j) ≤ 100 := (digitCount_le_iff (by decide)).mpr (by omega)
  have hshort : digitCount m ≤ 99 := (digitCount_le_iff (by decide)).mpr hm
  have hpos := digitCount_pos m
  have hleading : m * j ≠ 0 → (e + t + digitCount m - 1).natAbs ≤ nearUnits := by
    intro hmj
    rw [adjusted_finite, digitCount_mul_pow10 (Nat.ne_zero_of_mul_ne_zero_left hmj)] at hr
    omega
  obtain ⟨hdigits, htop, htiny⟩ := working_bounds
  obtain ⟨c, f, hround, hvalue⟩ : ∃ c f,
      working.round s (m * j * pow10 t) e = .ok (.finite s c f) ∧
        toRat (.finite s c f) = toRat (.finite s (m * j * pow10 t) e) := by
    refine Format.exists_round_of_few s hcount (fun hmj => ?_) (fun hmj => ?_)
    · have := hleading hmj
      omega
    · have := hleading hmj
      omega
  rw [Nat.mul_right_comm] at hround hvalue
  refine ⟨s, c, f, ?_, hvalue.trans (toRat_mul s _ j e)⟩
  rw [ofNat, Format.multiply_finite, Bool.bne_false, Int.add_zero, hround]

/-- A number with its leading digit near the units can be shown. -/
theorem HasFigures.isShown (hn : value.HasFigures 99) (hr : value.adjusted.natAbs ≤ nearUnits) :
    value.IsShown 6 := by
  obtain ⟨s, m, t, e, rfl, -⟩ := hn.exists_eq
  have hnear : nearUnits = 1000 := rfl
  obtain ⟨-, htop, -⟩ := working_bounds
  obtain ⟨hleast, -, -⟩ := unit_bounds
  exact .inr ⟨by omega, .inl (by omega)⟩

end Decimal

namespace Quantity

open Decimal

/-- A rational number becomes an integer when it is multiplied by a small denominator. -/
def HasDegree (n : ℚ) : Prop := ∃ i : Nat, 1 ≤ i ∧ i ≤ 9 ∧ ∃ z : ℤ, n * i = z

section

variable {value : Decimal}

/-- A number with few digits means itself as the power of a dimension, if a small multiple of it is
an integer, and no power otherwise. -/
theorem fractionOf?_cases (hn : value.HasFigures 99) (hr : value.adjusted.natAbs ≤ nearUnits) :
    HasDegree value.toRat ∧ fractionOf? value = .ok (some value.toRat) ∨
      ¬ HasDegree value.toRat ∧ fractionOf? value = .ok none := by
  have hproduct : ∀ j, 1 ≤ j → j < 1 + greatestDegree →
      ∃ s c e, working.multiply value (.ofNat j) = .ok (.finite s c e) ∧
        toRat (.finite s c e) = value.toRat * j :=
    fun j _ hu => hn.exists_multiply hr (by rw [greatestDegree] at hu; omega)
  have hfinite : ∀ j, 1 ≤ j → j < 1 + greatestDegree →
      ∃ s c e, working.multiply value (.ofNat j) = .ok (.finite s c e) := by
    intro j hl hu
    obtain ⟨s, c, e, hp, -⟩ := hproduct j hl hu
    exact ⟨s, c, e, hp⟩
  rcases fractionFrom_cases hfinite with ⟨j, s, c, e, hl, hu, hp, hwhole, hf⟩ | ⟨hf, hnone⟩
  · obtain ⟨s', c', e', hp', hvalue⟩ := hproduct j hl hu
    cases Except.ok.inj (hp.symm.trans hp')
    have hinteger := (truncate_of_integral s hwhole).trans hvalue
    have hj : (j : ℚ) ≠ 0 := Nat.cast_ne_zero.mpr (Nat.ne_of_gt hl)
    refine .inl ⟨⟨j, hl, ?_, _, hinteger.symm⟩, ?_⟩
    · rw [greatestDegree] at hu
      omega
    · rw [fractionOf?, hf, Rat.mkRat_eq_div, hinteger, mul_div_cancel_right₀ _ hj]
  · refine .inr ⟨?_, hf⟩
    rintro ⟨i, hl, hu, z, hz⟩
    have hi : i < 1 + greatestDegree := by rw [greatestDegree]; omega
    obtain ⟨s, c, e, hp, hvalue⟩ := hproduct i hl hi
    have hfalse := hnone i s c e hl hi hp
    rw [integral_of_toRat s (hvalue.trans hz)] at hfalse
    cases hfalse

end

variable {q exponent : Quantity}

/-- Of an exponent only the value counts. -/
theorem pow_of_isDimensionless (h : exponent.isDimensionless = true) :
    q.pow exponent = q.pow (.number exponent.value) := by
  have hrequire : requireDimensionless exponent = requireDimensionless (number exponent.value) :=
    if_pos h
  rw [pow, hrequire]
  rfl

/-- The fault of a dimension and a text that do not fit, as far as the dimension can be written. -/
theorem mismatch_ok {α : Type} (d : Dimension) (text : String) :
    (mismatch d (.ok text) : Outcome α) =
      if d.isWritable then .error (.of (.incompatible d.text text)) else .error .longNumeral := by
  rw [mismatch, Dimension.text?]
  cases d.isWritable <;> rfl

/-- A quantity that equals one and has a dimension can be raised to a number of fewer digits than
the working format exactly if one of the first nine multiples of the number is an integer. The
dimension is then multiplied by the number itself. Otherwise the dimension and the power do not fit,
and the fault names both unless an exponent of the dimension is too long to be written. -/
theorem pow_written_spec (hd : q.isDimensionless = false)
    (hv : q.value.isEqual (.ofNat 1) = .ok true) (hone : exponent.isDimensionless = true)
    (hn : exponent.value.HasFigures 99) (hr : exponent.value.adjusted.natAbs ≤ nearUnits) :
    ((∃ power, q.pow exponent = .ok power) ↔ HasDegree exponent.value.toRat) ∧
    (HasDegree exponent.value.toRat →
      q.pow exponent = .ok (.of (.ofNat 1) (q.dimension.multiply exponent.value.toRat))) ∧
    (¬ HasDegree exponent.value.toRat → ∃ shown,
      exponent.value.display defaultFigures = .ok shown ∧
      q.pow exponent =
        if q.dimension.isWritable then
          .error (.of (.incompatible q.dimension.text ("power " ++ shown)))
        else .error .longNumeral) := by
  rw [pow_of_isDimensionless hone]
  rcases fractionOf?_cases hn hr with ⟨hdegree, hf⟩ | ⟨hdegree, hf⟩
  · obtain ⟨s, m, t, e, hvalue, -⟩ := hn.exists_eq
    have hpower : powerOf q.value exponent.value = .ok (.ofNat 1) := by
      rw [hvalue]
      exact powerOf_one hv s _ e
    have hpow := pow_of_some hd hf hpower
    exact ⟨iff_of_true ⟨_, hpow⟩ hdegree, fun _ => hpow, fun hnot => absurd hdegree hnot⟩
  · obtain ⟨shown, hdisplay⟩ :=
      (exists_display_iff (by decide) (by decide)).mpr (hn.isShown hr)
    have hpow := (pow_of_none hd hf hdisplay).trans (mismatch_ok q.dimension _)
    refine ⟨iff_of_false (fun ⟨power, h⟩ => ?_) hdegree, fun h => absurd h hdegree,
      fun _ => ⟨shown, hdisplay, hpow⟩⟩
    rw [hpow] at h
    split at h <;> cases h

/-- A metre cannot be raised to three tenths, nor can a power of it whose exponent is too long to be
written: there the fault cannot name the dimension. -/
theorem pow_written_spec_threeTenths :
    let metre := of (.ofNat 1) { Dimension.one with length := 1 }
    let long := of (.ofNat 1) { Dimension.one with length := (pow10 5000 : Int) }
    let threeTenths := number (.finite false 3 (-1))
    (metre.isDimensionless = false ∧ long.isDimensionless = false ∧
      metre.value.isEqual (.ofNat 1) = .ok true ∧ long.value.isEqual (.ofNat 1) = .ok true ∧
      threeTenths.isDimensionless = true ∧ threeTenths.value.HasFigures 99 ∧
      threeTenths.value.adjusted.natAbs ≤ nearUnits) ∧
    metre.pow threeTenths = .error (.of (.incompatible "m" "power 0.3")) ∧
    long.pow threeTenths = .error .longNumeral := by
  have hmetre : (of (.ofNat 1) { Dimension.one with length := 1 }).isDimensionless = false := by
    decide +kernel
  have hlong : (of (.ofNat 1)
      { Dimension.one with length := (pow10 5000 : Int) }).isDimensionless = false := by
    decide +kernel
  have hn : (number (.finite false 3 (-1))).value.HasFigures 99 := ⟨3, 0, rfl, by decide +kernel⟩
  have hr : (number (.finite false 3 (-1))).value.adjusted.natAbs ≤ nearUnits := by decide +kernel
  have hdegree : ¬ HasDegree (toRat (.finite false 3 (-1))) := by
    rintro ⟨i, hl, hu, z, hz⟩
    have htenths : (3 * i : ℤ) = 10 * z := by
      have hscaled : (3 : ℚ) * i = 10 * z := by
        rw [← hz, toRat]
        norm_num
        ring
      exact_mod_cast hscaled
    omega
  refine ⟨⟨hmetre, hlong, rfl, rfl, rfl, hn, hr⟩, ?_, ?_⟩
  · obtain ⟨shown, hdisplay, hpow⟩ := (pow_written_spec hmetre rfl rfl hn hr).2.2 hdegree
    obtain rfl : shown = "0.3" := Except.ok.inj (hdisplay.symm.trans (by decide +kernel))
    exact hpow.trans (by decide +kernel)
  · obtain ⟨shown, -, hpow⟩ := (pow_written_spec hlong rfl rfl hn hr).2.2 hdegree
    exact hpow.trans (if_neg (by decide +kernel))

end Quantity

end UnitCalculator
