import UnitCalculator.Expression.Evaluation
import UnitCalculator.Proofs.Decimal.Alike

/-!
# Quantities that differ in the sign of zero

Quantities are alike if they have one dimension and values that are alike; the unit that they are
shown in does not count. All operations of expressions agree on quantities that are alike, and
changing the sign of a quantity gives the same as multiplying it with minus one.
-/

namespace UnitCalculator

namespace Quantity

/-- The same dimension, and values that differ at most in the sign of a zero. -/
structure Alike (p q : Quantity) : Prop where
  /-- The values are alike. -/
  value : p.value.Alike q.value
  /-- The dimensions are the same. -/
  dimension : p.dimension = q.dimension

/-- A quantity is like itself. -/
theorem Alike.refl (q : Quantity) : Alike q q := ⟨.refl _, rfl⟩

variable {a a' b b' : Quantity}

/-- Quantities that are alike are both pure numbers or both not. -/
theorem Alike.isDimensionless_eq (h : Alike a a') : a.isDimensionless = a'.isDimensionless := by
  rw [isDimensionless, h.dimension, isDimensionless]

/-- The same dimension is demanded of quantities that are alike. -/
theorem Alike.requireDimensionless_eq (h : Alike a a') :
    a.requireDimensionless = a'.requireDimensionless := by
  rw [requireDimensionless, h.isDimensionless_eq, h.dimension, requireDimensionless]

/-- Dimensions that do not fit have no result. -/
theorem mismatch_ne_ok (α : Type) (left : Dimension) (right : Outcome String) (value : α) :
    mismatch left right ≠ .ok value := by
  intro h
  rw [mismatch] at h
  obtain ⟨_, -, hrest⟩ := bind_eq_ok_iff.mp h
  obtain ⟨_, -, hthrow⟩ := bind_eq_ok_iff.mp hrest
  cases hthrow

/-- Dimensions that do not fit agree with others that do not. -/
theorem agree_mismatch {α : Type} {r : α → α → Prop} (left left' : Dimension)
    (right right' : Outcome String) :
    Agree r (mismatch left right) (mismatch left' right') := by
  have h := mismatch_ne_ok α left right
  have h' := mismatch_ne_ok α left' right'
  generalize (mismatch left right : Outcome α) = x at h ⊢
  generalize (mismatch left' right' : Outcome α) = y at h' ⊢
  cases x with
  | error failure =>
    cases y with
    | error failure' => exact .error _ _
    | ok value => exact absurd rfl (h' value)
  | ok value => exact absurd rfl (h value)

/-- Sums of quantities that are alike agree. -/
theorem agree_add (ha : Alike a a') (hb : Alike b b') : Agree Alike (a.add b) (a'.add b') := by
  have hsame : a.requireSame b = a'.requireSame b' := by
    rw [requireSame, ha.dimension, hb.dimension, requireSame]
  rw [add, add, hsame]
  refine (Agree.refl (fun _ => rfl) _).bind fun _ _ _ => ?_
  refine ((working.agree_add ha.value hb.value).within "addition").bind fun c c' hc => ?_
  exact .ok ⟨hc, ha.dimension⟩

/-- Differences of quantities that are alike agree. -/
theorem agree_subtract (ha : Alike a a') (hb : Alike b b') :
    Agree Alike (a.subtract b) (a'.subtract b') := by
  have hsame : a.requireSame b = a'.requireSame b' := by
    rw [requireSame, ha.dimension, hb.dimension, requireSame]
  rw [subtract, subtract, hsame]
  refine (Agree.refl (fun _ => rfl) _).bind fun _ _ _ => ?_
  refine ((working.agree_subtract ha.value hb.value).within "subtraction").bind
    fun c c' hc => ?_
  exact .ok ⟨hc, ha.dimension⟩

/-- Products of quantities that are alike agree. -/
theorem agree_multiply (ha : Alike a a') (hb : Alike b b') :
    Agree Alike (a.multiply b) (a'.multiply b') := by
  refine ((working.agree_multiply ha.value hb.value).within "multiplication").bind
    fun c c' hc => ?_
  exact .ok ⟨hc, by rw [of, of, ha.dimension, hb.dimension]⟩

/-- Quotients of quantities that are alike agree. -/
theorem agree_divide (ha : Alike a a') (hb : Alike b b') :
    Agree Alike (a.divide b) (a'.divide b') := by
  rw [divide, divide, ← hb.value.isZero_eq]
  cases hz : b.value.isZero with
  | true => exact .error _ _
  | false =>
    refine ((working.agree_divide ha.value hb.value hz).within "division").bind
      fun c c' hc => ?_
    exact .ok ⟨hc, by rw [of, of, ha.dimension, hb.dimension]⟩

/-- Powers of numbers that are alike agree. -/
theorem agree_powerOf {a a' b b' : Decimal} (ha : a.Alike a') (hb : b.Alike b') :
    Agree Decimal.Alike (powerOf a b) (powerOf a' b') := by
  rw [powerOf, powerOf, ← ha.isLess_eq, ← hb.isIntegral_eq, ← ha.isZero_eq, ← hb.isLess_eq]
  have hlast : Agree Decimal.Alike
      (if a.isZero = true then do
        if ← ofSignal (b.isLess (.ofNat 0)) then throw (.of (.divisionByZero .negativePower))
        within "power" (working.power a b)
      else within "power" (working.power a b))
      (if a.isZero = true then do
        if ← ofSignal (b.isLess (.ofNat 0)) then throw (.of (.divisionByZero .negativePower))
        within "power" (working.power a' b')
      else within "power" (working.power a' b')) := by
    cases hz : a.isZero with
    | false =>
      exact (working.agree_power ha hb fun h => by rw [hz] at h; cases h).within "power"
    | true =>
      simp only [if_true]
      cases hl : b.isLess (.ofNat 0) with
      | error signal => exact .error _ _
      | ok less =>
        cases less with
        | true => exact .error _ _
        | false =>
          exact (working.agree_power ha hb fun _ hn hs =>
            Decimal.isNaN_of_isLess hl hn hs).within "power"
  refine (Agree.refl (fun _ => rfl) _).bind fun less _ h => ?_
  subst h
  cases less with
  | false => exact hlast
  | true =>
    refine (Agree.refl (fun _ => rfl) _).bind fun integral _ h => ?_
    subst h
    cases integral with
    | false => exact .error _ _
    | true => exact hlast

/-- Exponents that are alike mean the same power of a dimension. -/
theorem fractionFrom_eq {a a' : Decimal} (ha : a.Alike a') (fuel degree : Nat) :
    Agree (· = ·) (fractionFrom a fuel degree) (fractionFrom a' fuel degree) := by
  induction fuel generalizing degree with
  | zero => exact .ok rfl
  | succ fuel ih =>
    rw [fractionFrom, fractionFrom]
    refine ((working.agree_multiply ha (.refl _)).ofSignal).bind fun c c' hc => ?_
    rw [hc.isIntegral_eq, hc.isFinite_eq, hc.truncate_eq]
    refine (Agree.refl (fun _ => rfl) _).bind fun integral _ h => ?_
    subst h
    cases integral with
    | true => exact .refl (fun _ => rfl) _
    | false => exact ih (degree + 1)

/-- Powers of quantities that are alike agree. -/
theorem agree_pow (ha : Alike a a') (hb : Alike b b') : Agree Alike (a.pow b) (a'.pow b') := by
  rw [pow, pow, hb.requireDimensionless_eq, ha.isDimensionless_eq, ha.dimension]
  refine (Agree.refl (fun _ => rfl) _).bind fun _ _ _ => ?_
  cases a'.isDimensionless with
  | true =>
    refine (agree_powerOf ha.value hb.value).bind fun c c' hc => ?_
    exact .ok ⟨hc, rfl⟩
  | false =>
    refine (fractionFrom_eq hb.value greatestDegree 1).bind fun fraction _ h => ?_
    subst h
    cases fraction with
    | none =>
      dsimp only
      exact agree_mismatch _ _ _ _
    | some power =>
      refine (agree_powerOf ha.value hb.value).bind fun c c' hc => ?_
      exact .ok ⟨hc, rfl⟩

/-- Square roots of quantities that are alike agree. -/
theorem agree_sqrt (ha : Alike a a') : Agree Alike a.sqrt a'.sqrt := by
  rw [sqrt, sqrt, ha.value.isLess_eq, ha.dimension]
  refine (Agree.refl (fun _ => rfl) _).bind fun less _ h => ?_
  subst h
  cases less with
  | true => exact .error _ _
  | false =>
    refine ((working.agree_sqrt ha.value).within "sqrt").bind fun c c' hc => ?_
    exact .ok ⟨hc, rfl⟩

/-- A positive number is demanded of quantities that are alike. -/
theorem Alike.requirePositive_eq (h : Alike a a') : a.requirePositive = a'.requirePositive := by
  rw [requirePositive, h.requireDimensionless_eq, h.value.isAtMost_eq, requirePositive]

/-- A positive quantity has the value of every quantity that it is like. -/
theorem Alike.value_eq (h : Alike a a') (hp : a.requirePositive = .ok ()) :
    a.value = a'.value := by
  obtain ⟨_, -, hpositive⟩ := bind_eq_ok_iff.mp hp
  obtain ⟨atMost, hm, hnot⟩ := bind_eq_ok_iff.mp hpositive
  have hvalue := h.value
  generalize a.value = value at hm hvalue ⊢
  generalize a'.value = value' at hvalue ⊢
  cases hvalue with
  | refl => rfl
  | zero s t e =>
    have ht : true = atMost := Except.ok.inj hm
    rw [← ht] at hnot
    cases hnot

/-- Functions of positive numbers agree on quantities that are alike. -/
theorem agree_of_positive (ha : Alike a a') (operation : String)
    (f : Decimal → Except Signal Decimal) :
    Agree Alike
      (do
        a.requirePositive
        return number (← within operation (f a.value)))
      (do
        a'.requirePositive
        return number (← within operation (f a'.value))) := by
  cases hp : a.requirePositive with
  | error failure =>
    rw [← ha.requirePositive_eq, hp]
    exact .error _ _
  | ok _ =>
    rw [← ha.requirePositive_eq, hp, ha.value_eq hp]
    exact Agree.refl Alike.refl _

/-- Functions agree on quantities that are alike. -/
theorem agree_apply (name : String) (ha : Alike a a') :
    Agree Alike (a.apply name) (a'.apply name) := by
  rw [apply, apply]
  cases Function.ofName? name with
  | none => exact .error _ _
  | some function =>
    cases function with
    | sqrt => exact agree_sqrt ha
    | ln => exact agree_of_positive ha "ln" working.ln
    | log => exact agree_of_positive ha "log" working.log10
    | exp =>
      dsimp only
      rw [exp, exp, ha.requireDimensionless_eq]
      refine (Agree.refl (fun _ => rfl) _).bind fun _ _ _ => ?_
      refine ((working.agree_exp ha.value).within "exp").bind fun c c' hc => ?_
      exact .ok ⟨hc, rfl⟩
    | transcendental f =>
      dsimp only
      rw [transcendental, transcendental, ha.requireDimensionless_eq,
        f.evaluate_eq working ha.value]
      exact Agree.refl Alike.refl _

/-- The dimension of pure numbers is neutral. -/
theorem one_add (d : Dimension) : Dimension.one.add d = d := by
  simp only [Dimension.one, Dimension.add, Dimension.zipWith, Rat.zero_add]

/-- The opposite of a quantity is like its product with minus one. -/
theorem agree_multiply_negation {q negated : Quantity} (h : q.negate = .ok negated) :
    Agree Alike (multiply (.number (.finite true 1 0)) q) (.ok negated) := by
  obtain ⟨value, hv, hn⟩ := bind_eq_ok_iff.mp h
  obtain rfl := pure_eq_ok_iff.mp hn
  have hnegate : working.negate q.value = .ok value := by
    cases hr : working.negate q.value with
    | error signal => rw [hr] at hv; cases hv
    | ok other =>
      rw [hr] at hv
      exact congrArg _ (Except.ok.inj hv)
  have hagree : Agree Decimal.Alike (working.multiply (.finite true 1 0) q.value)
      (.ok value) := by
    rw [← hnegate]
    cases q.value with
    | finite s c e =>
      simp only [Format.multiply, Format.nanResult?, Format.negate, Nat.one_mul, Int.zero_add,
        Bool.true_bne]
      by_cases hc : c = 0
      · rw [if_pos hc, hc]
        exact working.agree_round_zero _ _ e
      · rw [if_neg hc]
        exact Format.agree_self _
    | infinity s => cases s <;> exact Format.agree_self _
    | nan s signaling payload => cases signaling <;> exact Format.agree_self _
  have hproduct : Agree Alike (multiply (.number (.finite true 1 0)) q)
      (within "multiplication" (.ok value) >>= fun value => .ok { q with value }) := by
    refine (hagree.within "multiplication").bind fun c c' hc => ?_
    exact .ok ⟨hc, one_add q.dimension⟩
  exact hproduct

end Quantity

/-- Operators agree on quantities that are alike. -/
theorem Operator.agree_apply (op : Operator) {a a' b b' : Quantity} (ha : a.Alike a')
    (hb : b.Alike b') : Agree Quantity.Alike (op.apply a b) (op.apply a' b') := by
  cases op with
  | assign => exact .ok hb
  | add => exact Quantity.agree_add ha hb
  | subtract => exact Quantity.agree_subtract ha hb
  | multiply => exact Quantity.agree_multiply ha hb
  | impliedMultiply => exact Quantity.agree_multiply ha hb
  | divide => exact Quantity.agree_divide ha hb
  | impliedDivide => exact Quantity.agree_divide ha hb
  | power => exact Quantity.agree_pow ha hb

end UnitCalculator
