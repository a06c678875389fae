import UnitCalculator.Decimal.Transcendental
import UnitCalculator.Proofs.Failure

/-!
# Numbers that differ in the sign of zero

A sign in front of a number that is written is folded into it, while a sign in front of any other
operand multiplies it with minus one. For zero the results differ in their sign. No calculation
makes more of that difference than again the sign of a zero.
-/

namespace UnitCalculator

namespace Decimal

/-- The same number in the same form, but for the sign of a zero. -/
inductive Alike : Decimal → Decimal → Prop where
  /-- The same number. -/
  | refl (a : Decimal) : Alike a a
  /-- Two zeros with one exponent. -/
  | zero (s t : Bool) (e : Int) : Alike (.finite s 0 e) (.finite t 0 e)

variable {a b c : Decimal}

/-- Likeness is passed on. -/
theorem Alike.trans (h : Alike a b) (h' : Alike b c) : Alike a c := by
  cases h with
  | refl a => exact h'
  | zero s t e =>
    cases h' with
    | refl a => exact .zero s t e
    | zero _ u _ => exact .zero s u e

/-- Numbers that are alike are both zero or both not. -/
theorem Alike.isZero_eq (h : Alike a b) : a.isZero = b.isZero := by
  cases h <;> rfl

/-- Numbers that are alike are both finite or both not. -/
theorem Alike.isFinite_eq (h : Alike a b) : a.isFinite = b.isFinite := by
  cases h <;> rfl

/-- Numbers that are alike compare alike with every number. -/
theorem Alike.compare?_eq (h : Alike a b) (c : Decimal) : compare? a c = compare? b c := by
  cases h with
  | refl a => rfl
  | zero s t e =>
    cases c with
    | finite u c f => simp [compare?, compareFinite]
    | infinity u => rfl
    | nan u signaling payload => rfl

/-- Numbers that are alike are both less than a number or both not. -/
theorem Alike.isLess_eq (h : Alike a b) (c : Decimal) : a.isLess c = b.isLess c := by
  rw [isLess, h.compare?_eq, isLess]

/-- Numbers that are alike are both at most a number or both not. -/
theorem Alike.isAtMost_eq (h : Alike a b) (c : Decimal) : a.isAtMost c = b.isAtMost c := by
  rw [isAtMost, h.compare?_eq, isAtMost]

/-- A number with a negative sign is less than zero, unless it is zero or a NaN. -/
theorem isNaN_of_isLess (h : a.isLess (.ofNat 0) = .ok false) (hz : a.isZero = false)
    (hs : a.isNegative = true) : a.isNaN = true := by
  cases a with
  | finite s c e =>
    obtain rfl : s = true := hs
    have hc : c ≠ 0 := by simpa [isZero] using hz
    simp [isLess, compare?, compareFinite, ofNat, hc] at h
  | infinity s =>
    obtain rfl : s = true := hs
    cases h
  | nan s signaling payload => rfl

/-- Numbers that are alike are both integral or both not. -/
theorem Alike.isIntegral_eq (h : Alike a b) : a.isIntegral = b.isIntegral := by
  cases h <;> rfl

/-- Numbers that are alike have the same integer part. -/
theorem Alike.truncate_eq (h : Alike a b) : a.truncate = b.truncate := by
  cases h with
  | refl a => rfl
  | zero s t e =>
    have hzero : ∀ u, truncate (.finite u 0 e) = 0 := by
      intro u
      simp only [truncate, Nat.zero_mul, Nat.zero_div, ite_self]
      cases u <;> rfl
    rw [hzero, hzero]

/-- Numbers that are alike are still so with their signs changed. -/
theorem Alike.flipSign (h : Alike a b) : Alike (Format.flipSign a) (Format.flipSign b) := by
  cases h with
  | refl a => exact .refl _
  | zero s t e => exact .zero _ _ e

end Decimal

namespace Format

open Decimal

variable (format : Format) {a a' b b' : Decimal}

/-- Rounding a zero keeps its sign and bounds its exponent. -/
theorem round_zero (s : Bool) (e : Int) :
    format.round s 0 e = .ok (.finite s 0 (max format.tiny (min format.top e))) := by
  rw [round, if_pos rfl]

/-- Zeros with one exponent are rounded alike. -/
theorem agree_round_zero (s t : Bool) (e : Int) :
    Agree Alike (format.round s 0 e) (format.round t 0 e) := by
  rw [round_zero, round_zero]
  exact .ok (.zero s t _)

/-- A result is like itself. -/
theorem agree_self (x : Except Signal Decimal) : Agree Alike x x := Agree.refl Alike.refl x

/-- An operation that makes nothing of the sign of a zero on either side agrees on numbers that are
alike. -/
theorem agree_of_zeros {op : Decimal → Decimal → Except Signal Decimal}
    (hleft : ∀ s t e b, Agree Alike (op (.finite s 0 e) b) (op (.finite t 0 e) b))
    (hright : ∀ s t e b, Agree Alike (op b (.finite s 0 e)) (op b (.finite t 0 e)))
    (ha : Alike a a') (hb : Alike b b') : Agree Alike (op a b) (op a' b') := by
  have hfirst : Agree Alike (op a b) (op a' b) := by
    cases ha with
    | refl a => exact agree_self _
    | zero s t e => exact hleft s t e b
  have hsecond : Agree Alike (op a' b) (op a' b') := by
    cases hb with
    | refl b => exact agree_self _
    | zero s t e => exact hright s t e a'
  exact hfirst.trans (fun _ _ _ => Alike.trans) hsecond

/-- Aligned sums with a zero in front are alike. -/
theorem agree_addAligned_left (s t u : Bool) (c : Nat) (e f : Int) :
    Agree Alike (format.addAligned s 0 e u c f) (format.addAligned t 0 e u c f) := by
  simp only [addAligned, if_true]
  by_cases hc : c = 0
  · rw [if_pos hc, if_pos hc, hc]
    exact format.agree_round_zero _ _ f
  · rw [if_neg hc, if_neg hc]
    exact agree_self _

/-- Aligned sums with a zero behind are alike. -/
theorem agree_addAligned_right (s t u : Bool) (c : Nat) (e f : Int) :
    Agree Alike (format.addAligned u c f s 0 e) (format.addAligned u c f t 0 e) := by
  by_cases hc : c = 0
  · simp only [addAligned, if_pos hc, if_true]
    exact format.agree_round_zero _ _ e
  · simp only [addAligned, if_neg hc, if_true]
    exact agree_self _

/-- Sums of numbers that are alike agree. -/
theorem agree_add (ha : Alike a a') (hb : Alike b b') :
    Agree Alike (format.add a b) (format.add a' b') := by
  refine agree_of_zeros (fun s t e b => ?_) (fun s t e b => ?_) ha hb
  · cases b with
    | finite u c f =>
      simp only [add, nanResult?]
      by_cases he : f ≤ e
      · rw [if_pos he, if_pos he]
        exact format.agree_addAligned_left s t u c e f
      · rw [if_neg he, if_neg he]
        exact format.agree_addAligned_right s t u c e f
    | infinity u => exact agree_self _
    | nan u signaling payload => cases signaling <;> exact agree_self _
  · cases b with
    | finite u c f =>
      simp only [add, nanResult?]
      by_cases he : e ≤ f
      · rw [if_pos he, if_pos he]
        exact format.agree_addAligned_right s t u c e f
      · rw [if_neg he, if_neg he]
        exact format.agree_addAligned_left s t u c e f
    | infinity u => exact agree_self _
    | nan u signaling payload => cases signaling <;> exact agree_self _

/-- Differences of numbers that are alike agree. -/
theorem agree_subtract (ha : Alike a a') (hb : Alike b b') :
    Agree Alike (format.subtract a b) (format.subtract a' b') :=
  format.agree_add ha hb.flipSign

/-- Products of numbers that are alike agree. -/
theorem agree_multiply (ha : Alike a a') (hb : Alike b b') :
    Agree Alike (format.multiply a b) (format.multiply a' b') := by
  refine agree_of_zeros (fun s t e b => ?_) (fun s t e b => ?_) ha hb
  · cases b with
    | finite u c f =>
      simp only [multiply, nanResult?, Nat.zero_mul]
      exact format.agree_round_zero _ _ _
    | infinity u => exact .error _ _
    | nan u signaling payload => cases signaling <;> exact agree_self _
  · cases b with
    | finite u c f =>
      simp only [multiply, nanResult?, Nat.mul_zero]
      exact format.agree_round_zero _ _ _
    | infinity u => exact .error _ _
    | nan u signaling payload => cases signaling <;> exact agree_self _

/-- Quotients of numbers that are alike agree, unless they are quotients by zero. -/
theorem agree_divide (ha : Alike a a') (hb : Alike b b') (hz : b.isZero = false) :
    Agree Alike (format.divide a b) (format.divide a' b') := by
  have hsame : b = b' := by
    cases hb with
    | refl b => rfl
    | zero s t e => cases hz
  rw [← hsame]
  cases ha with
  | refl a => exact agree_self _
  | zero s t e =>
    cases b with
    | finite u c f =>
      have hc : c ≠ 0 := by simpa [isZero] using hz
      simp only [divide, nanResult?, if_neg hc]
      exact format.agree_round_zero _ _ _
    | infinity u => exact .ok (.zero _ _ _)
    | nan u signaling payload => cases signaling <;> exact agree_self _

/-- Square roots of numbers that are alike agree. -/
theorem agree_sqrt (ha : Alike a a') : Agree Alike (format.sqrt a) (format.sqrt a') := by
  cases ha with
  | refl a => exact agree_self _
  | zero s t e => exact format.agree_round_zero _ _ _

/-- Exponentials of numbers that are alike agree. -/
theorem agree_exp (ha : Alike a a') : Agree Alike (format.exp a) (format.exp a') := by
  cases ha with
  | refl a => exact agree_self _
  | zero s t e =>
    simp only [exp, if_true]
    exact agree_self _

/-- The sign of a power with exponent zero is positive. -/
theorem powerSign_zero (a : Decimal) (s : Bool) (e : Int) :
    powerSign a (.finite s 0 e) = false := by
  simp [powerSign, reduced]

/-- A finite power with exponent zero does not depend on its sign. -/
theorem finitePower_zero (a : Decimal) (s t : Bool) (e : Int) :
    format.finitePower false a (.finite s 0 e) = format.finitePower false a (.finite t 0 e) := by
  unfold finitePower
  cases a.reduced <;> simp [reduced]

/-- Zero is integral. -/
theorem integral_zero (e : Int) : integral 0 e = true := by
  simp [integral]

/-- The power with exponent zero does not depend on its sign. -/
theorem power_zero (a : Decimal) (s t : Bool) (e : Int) :
    format.power a (.finite s 0 e) = format.power a (.finite t 0 e) := by
  cases a with
  | finite u c f =>
    simp only [power, nanResult?, powerSign_zero, integral_zero, isFinite, if_true]
    rw [format.finitePower_zero _ s t e]
    rfl
  | infinity u =>
    simp only [power, nanResult?, integral_zero, Bool.not_true, Bool.and_false]
    rfl
  | nan u signaling payload => cases signaling <;> rfl

/-- A power of zero that is not negative is zero or undefined, whatever the sign of the base. -/
theorem agree_power_base (s t : Bool) (e : Int) {b : Decimal}
    (hb : b.isZero = false → b.isNegative = true → b.isNaN = true) :
    Agree Alike (format.power (.finite s 0 e) b) (format.power (.finite t 0 e) b) := by
  cases hn : b.isNaN with
  | true =>
    cases b with
    | nan u signaling payload => cases signaling <;> exact agree_self _
    | _ => cases hn
  | false =>
    have hresult : ∀ u, format.power (.finite u 0 e) b =
        if b.isZero then .error .invalidOperation
        else .ok (.finite (powerSign (.finite u 0 e) b) 0 0) := by
      intro u
      have hnone : format.nanResult? (.finite u 0 e) b = none := by
        cases b <;> first | rfl | cases hn
      have hzero : isZero (.finite u 0 e) = true := rfl
      rw [power, hnone]
      simp only [hzero, if_true]
      cases hz : b.isZero with
      | true => rfl
      | false =>
        have hpositive : b.isNegative = false := by
          cases hs : b.isNegative with
          | false => rfl
          | true => rw [hb hz hs] at hn; cases hn
        rw [hpositive]
        rfl
    rw [hresult, hresult]
    split
    · exact .error _ _
    · exact .ok (.zero _ _ 0)

/-- Powers of numbers that are alike agree, unless they are negative powers of zero. -/
theorem agree_power (ha : Alike a a') (hb : Alike b b')
    (hz : a.isZero = true → b.isZero = false → b.isNegative = true → b.isNaN = true) :
    Agree Alike (format.power a b) (format.power a' b') := by
  have hexponent : format.power a' b = format.power a' b' := by
    cases hb with
    | refl b => rfl
    | zero s t e => exact format.power_zero a' s t e
  rw [← hexponent]
  cases ha with
  | refl a => exact agree_self _
  | zero s t e => exact format.agree_power_base s t e (hz rfl)

end Format

namespace Approximation

/-- The arc sine of zero is approximated by zero. -/
theorem arcSineQuotient_zero (bits d : Nat) : arcSineQuotient bits 0 d = 0 := by
  have hhalve : ∀ times, halveTangent bits times 0 = 0 := by
    intro times
    induction times with
    | zero => rfl
    | succ times ih => rw [halveTangent, Int.zero_mul, Int.zero_ediv, ih]
  have hseries : arcTangentSeries bits 0 = 0 := by
    rw [arcTangentSeries]
    cases bits with
    | zero => rfl
    | succ bits => rw [oddSeries, if_pos (.inl rfl)]
  have hscale : ∀ d, scaleQuotient 0 d bits = 0 := by
    intro d
    simp [scaleQuotient]
  rw [arcSineQuotient, Nat.zero_mul, arcTangentQuotient, if_pos (Nat.zero_le _), hscale,
    arcTangentUnit, hhalve, hseries, Int.mul_zero, Int.mul_zero]

end Approximation

namespace Transcendental

open Decimal

/-- The value at zero does not depend on its sign. -/
theorem atQuotient_zero (f : Transcendental) (format : Format) (s t : Bool) :
    f.atQuotient format s 0 1 = f.atQuotient format t 0 1 := by
  have hacos : (acos.enclosure s 0 1) = (acos.enclosure t 0 1) := by
    funext bits
    simp only [enclosure, Approximation.arcCosine, Approximation.arcSineQuotient_zero,
      Int.neg_zero, ite_self]
  cases f with
  | acos =>
    rw [atQuotient, atQuotient, hacos]
    rfl
  | acosh => cases s <;> cases t <;> rfl
  | _ => rfl

/-- Functions that are evaluated in binary have the same value for numbers that are alike. -/
theorem evaluate_eq (f : Transcendental) (format : Format) {a a' : Decimal}
    (ha : Alike a a') : f.evaluate format a = f.evaluate format a' := by
  cases ha with
  | refl a => rfl
  | zero s t e =>
    rw [evaluate, evaluate, atFinite, atFinite]
    simp only [if_true]
    exact f.atQuotient_zero format s t

end Transcendental

end UnitCalculator
