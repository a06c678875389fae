import UnitCalculator.Proofs.Decimal.NaturalPower
import UnitCalculator.Proofs.Quantity.Exact

/-!
# Powers and repeated products

A power with a natural exponent rounds once and scales the dimension; a repeated product rounds at
every factor and adds the dimensions. Where the exact power has no more digits than the working
format, neither of them rounds at all, and they agree.
-/

namespace UnitCalculator

namespace Dimension

variable {d : Dimension}

/-- Pure numbers have the dimension one. -/
theorem eq_one_of_isOne (h : d.isOne = true) : d = one := by
  obtain ⟨t, l, m, i, θ, n, j⟩ := d
  simpa [isOne, exponents, one] using h

/-- Powers of the dimension one are the dimension one. -/
theorem one_multiply (power : Rat) : one.multiply power = one := by
  simp [multiply, map, one]

/-- One factor more raises the power by one. -/
theorem multiply_add_self (d : Dimension) (k : Nat) :
    (d.multiply k).add d = d.multiply ((k + 1 : Nat) : Rat) := by
  simp [multiply, map, add, zipWith, mul_add]

end Dimension

namespace Quantity

open Decimal

/-- The product of so many copies of a quantity; that of none is one. -/
def productOfCopies (q : Quantity) : Nat → Outcome Quantity
  | 0 => .ok (number (.ofNat 1))
  | 1 => .ok q
  | k + 2 => do (← q.productOfCopies (k + 1)).multiply q

variable {q : Quantity} {n k reach : Nat}

/-- A base has a natural power exactly if the decimal power exists. -/
theorem powerOf_ofNat (hv : q.value.isFinite = true) :
    powerOf q.value (.ofNat n) = within "power" (working.power q.value (.ofNat n)) := by
  have hless : q.value.isLess (.ofNat 0) = .ok (decide (q.value.toRat < 0)) :=
    isLess_zero_of_standsFor ⟨hv, rfl⟩
  have hpositive : (ofNat n).isLess (.ofNat 0) = .ok false := by
    rw [isLess_zero_of_standsFor (standsFor_ofNat n),
      decide_eq_false (not_lt.mpr (Nat.cast_nonneg n))]
  have hintegral : (ofNat n).isIntegral = .ok true := rfl
  rw [powerOf, hless, hintegral, hpositive]
  cases decide (q.value.toRat < 0) <;> cases q.value.isZero <;> rfl

/-- A natural power with few digits near the units is exact, and its dimension is that power of the
dimension. -/
theorem exists_pow (hl : 1 ≤ n) (hu : n < pow10 90) (hv : q.value.isFinite = true)
    (h : HasExtent 100 reach (q.value.toRat ^ n))
    (hr : 100 + (reach + 100) ≤ working.maxExponent + 1) :
    ∃ power, q.pow (.number (.ofNat n)) = .ok power ∧
      power.Amounts (q.value.toRat ^ n) (q.dimension.multiply n) := by
  obtain ⟨s, c, e, hvalue, -⟩ := StandsFor.exists_eq ⟨hv, rfl⟩
  obtain ⟨value, hpower, hstands⟩ : ∃ d, working.power q.value (.ofNat n) = .ok d ∧
      d.StandsFor (q.value.toRat ^ n) := by
    rw [hvalue] at h ⊢
    exact Format.exists_power hl hu h hr
  have hraised : powerOf q.value (.ofNat n) = .ok value := by
    rw [powerOf_ofNat hv, hpower]
    rfl
  have hone : requireDimensionless (number (.ofNat n)) = .ok () := rfl
  have hexponent : (number (.ofNat n)).value = .ofNat n := rfl
  cases hd : q.isDimensionless with
  | true =>
    refine ⟨.number value, ?_, hstands, ?_⟩
    · rw [pow, hone, hd, hexponent, hraised]
      rfl
    · rw [Dimension.eq_one_of_isOne hd, Dimension.one_multiply]
      rfl
  | false =>
    have hwhole : fractionOf? (.ofNat n) = .ok (some (n : Rat)) := by
      have hint := fractionOf?_ofInt (k := n)
        (hu.trans_le (pow10_le_pow10 (by decide : 90 ≤ 100)))
      have hpositive : decide ((n : Int) < 0) = false := decide_eq_false (by omega)
      rwa [ofInt, hpositive, Int.natAbs_natCast] at hint
    exact ⟨_, pow_of_some hd hwhole hraised, hstands, rfl⟩

/-- The products on the way to a power with few digits near the units are exact. -/
theorem exists_productOfCopies (hv : q.value.isFinite = true)
    (h : HasExtent 100 reach (q.value.toRat ^ n))
    (hr : 100 + (reach + 100) ≤ working.maxExponent + 1) (hl : 1 ≤ k) (hu : k ≤ n) :
    ∃ product, q.productOfCopies k = .ok product ∧
      product.Amounts (q.value.toRat ^ k) (q.dimension.multiply k) := by
  have hq : q.Amounts q.value.toRat q.dimension := ⟨⟨hv, rfl⟩, rfl⟩
  induction k, hl using Nat.le_induction with
  | base =>
    refine ⟨q, rfl, ?_⟩
    rw [pow_one, Nat.cast_one, Dimension.multiply_one]
    exact hq
  | succ k hl ih =>
    obtain ⟨product, hproduct, hamounts⟩ := ih (by omega)
    have hextent : HasExtent 100 (reach + 100) (q.value.toRat ^ (k + 1)) := by
      obtain ⟨s, c, e, hvalue, -⟩ := StandsFor.exists_eq ⟨hv, rfl⟩
      rw [hvalue] at h ⊢
      exact hasExtent_pow h (by omega) hu
    have hrepresents : working.Represents (q.value.toRat ^ k * q.value.toRat) := by
      rw [← pow_succ]
      exact hextent.represents (by decide) hr
    obtain ⟨next, hnext, hamounts⟩ := exists_multiply hamounts hq hrepresents
    rw [← pow_succ, Dimension.multiply_add_self] at hamounts
    refine ⟨next, ?_, hamounts⟩
    obtain ⟨k, rfl⟩ := Nat.exists_eq_add_of_le' hl
    exact bind_eq_ok_iff.mpr ⟨product, hproduct, hnext⟩

/-- A natural power is equal to the product of so many copies of its base, if the exact power has at
most a hundred digits and is zero or has its leading digit near enough to the units: both have the
exact value and that power of the dimension. -/
theorem pow_copies_spec {exact : Decimal} (hl : 1 ≤ n) (hu : n < pow10 90)
    (hv : q.value.isFinite = true) (he : exact.toRat = q.value.toRat ^ n)
    (hf : exact.HasFigures 100) (hr : exact.isZero = true ∨ exact.adjusted.natAbs ≤ 900000) :
    ∃ power product, q.pow (.number (.ofNat n)) = .ok power ∧
      q.productOfCopies n = .ok product ∧ power.Equals product ∧
      power.Amounts (q.value.toRat ^ n) (q.dimension.multiply n) := by
  have hextent := hf.hasExtent hr
  rw [he] at hextent
  obtain ⟨power, hpower, hpowerAmounts⟩ := exists_pow hl hu hv hextent (by decide)
  obtain ⟨product, hproduct, hproductAmounts⟩ :=
    exists_productOfCopies hv hextent (by decide) hl le_rfl
  exact ⟨power, product, hpower, hproduct, hpowerAmounts.equals hproductAmounts, hpowerAmounts⟩

/-- The cube of minus one and a half metres. -/
theorem pow_copies_spec_cube :
    let q := of (.finite true 15 (-1)) { Dimension.one with length := 1 }
    let exact : Decimal := .finite true 3375 (-3)
    (1 ≤ 3 ∧ 3 < pow10 90 ∧ q.value.isFinite = true ∧ exact.toRat = q.value.toRat ^ 3 ∧
      exact.HasFigures 100 ∧ exact.adjusted.natAbs ≤ 900000) ∧
    ∃ power product, q.pow (.number (.ofNat 3)) = .ok power ∧ q.productOfCopies 3 = .ok product ∧
      power.Equals product ∧ power.Amounts (-27 / 8) { Dimension.one with length := 3 } := by
  have hu : 3 < pow10 90 := by decide +kernel
  have he : (finite true 3375 (-3)).toRat = (finite true 15 (-1)).toRat ^ 3 := by
    norm_num [toRat]
  have hf : (finite true 3375 (-3)).HasFigures 100 := ⟨3375, 0, rfl, by decide +kernel⟩
  have hr : (finite true 3375 (-3)).adjusted.natAbs ≤ 900000 := by decide +kernel
  have hvalue : (finite true 15 (-1)).toRat ^ 3 = -27 / 8 := by norm_num [toRat]
  have hdimension : ({ Dimension.one with length := 1 } : Dimension).multiply (3 : Nat) =
      { Dimension.one with length := 3 } := by decide +kernel
  obtain ⟨power, product, hpower, hproduct, hequals, hamounts⟩ := pow_copies_spec
    (q := of (.finite true 15 (-1)) { Dimension.one with length := 1 }) (by decide) hu rfl he hf
    (.inr hr)
  refine ⟨⟨by decide, hu, rfl, he, hf, hr⟩, power, product, hpower, hproduct, hequals, ?_⟩
  rw [← hvalue, ← hdimension]
  exact hamounts

end Quantity

end UnitCalculator
