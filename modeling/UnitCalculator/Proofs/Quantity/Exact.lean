import UnitCalculator.Proofs.Decimal.Comparison
import UnitCalculator.Proofs.Decimal.Extent
import UnitCalculator.Proofs.Dimension.Naming
import UnitCalculator.Proofs.Quantity.Fraction

/-!
# Exact operations on quantities

Where the working format has the exact value of a sum, a product or a root, the operation on
quantities returns that value with the dimension it should have. So the square root undoes squaring
for every value whose square has no more digits than the format.
-/

namespace UnitCalculator

namespace Decimal

variable {value : Decimal} {figures near : Nat}

/-- A number with few digits stands for its value. -/
theorem HasFigures.standsFor (hf : value.HasFigures figures) : value.StandsFor value.toRat := by
  obtain ⟨s, m, t, e, rfl, -⟩ := hf.exists_eq
  exact ⟨rfl, rfl⟩

/-- Few digits near the units bound the extent of a value. -/
theorem HasFigures.hasExtent (hf : value.HasFigures figures)
    (hr : value.isZero = true ∨ value.adjusted.natAbs ≤ near) :
    HasExtent figures (near + figures) value.toRat := by
  obtain ⟨s, m, t, e, rfl, hm⟩ := hf.exists_eq
  refine hasExtent_of_leading hm (hr.imp_left fun hzero => ?_)
  have hproduct : m * pow10 t = 0 := eq_of_beq hzero
  exact (Nat.mul_eq_zero.mp hproduct).resolve_right (pow10_ne_zero t)

end Decimal

/-- The exponents of a product with itself, halved. -/
theorem Dimension.halve_add_self (d : Dimension) : (d.add d).halve = d := by
  simp [add, zipWith, halve, map]

namespace Quantity

open Decimal

/-- A quantity is a rational multiple of the unit of a dimension. -/
structure Amounts (q : Quantity) (x : ℚ) (d : Dimension) : Prop where
  value : q.value.StandsFor x
  dimension : q.dimension = d

/-- Quantities are equal: their values are, and so are their dimensions. -/
structure Equals (a b : Quantity) : Prop where
  value : a.value.isEqual b.value = .ok true
  dimension : a.dimension = b.dimension

variable {a b q : Quantity} {x y : ℚ} {d d' : Dimension}

/-- Quantities that are the same multiple of one unit are equal. -/
theorem Amounts.equals (ha : a.Amounts x d) (hb : b.Amounts x d) : a.Equals b := by
  refine ⟨?_, ha.dimension.trans hb.dimension.symm⟩
  rw [isEqual_of_standsFor ha.value hb.value, decide_eq_true rfl]

/-- A sum that the working format has is exact. -/
theorem exists_add (ha : a.Amounts x d) (hb : b.Amounts y d) (h : working.Represents (x + y)) :
    ∃ sum, a.add b = .ok sum ∧ sum.Amounts (x + y) d := by
  obtain ⟨value, hadd, hvalue⟩ := Format.exists_add ha.value hb.value h
  refine ⟨.of value a.dimension, ?_, hvalue, ha.dimension⟩
  rw [add, requireSame, if_pos (ha.dimension.trans hb.dimension.symm), hadd]
  rfl

/-- A product that the working format has is exact. -/
theorem exists_multiply (ha : a.Amounts x d) (hb : b.Amounts y d')
    (h : working.Represents (x * y)) :
    ∃ product, a.multiply b = .ok product ∧ product.Amounts (x * y) (d.add d') := by
  obtain ⟨value, hmultiply, hvalue⟩ := Format.exists_multiply ha.value hb.value h
  refine ⟨.of value (a.dimension.add b.dimension), ?_, hvalue, ?_⟩
  · rw [multiply, hmultiply]
    rfl
  · rw [← ha.dimension, ← hb.dimension]
    rfl

/-- A square root that the working format has is exact. -/
theorem exists_sqrt (ha : a.Amounts (x * x) d) (hx : 0 ≤ x) (h : working.Represents x) :
    ∃ root, a.sqrt = .ok root ∧ root.Amounts x d.halve := by
  obtain ⟨value, hsqrt, hvalue⟩ := Format.exists_sqrt ha.value hx h
  have hless : a.value.isLess (.ofNat 0) = .ok false := by
    rw [isLess_zero_of_standsFor ha.value, decide_eq_false (not_lt.mpr (mul_self_nonneg x))]
  refine ⟨.of value a.dimension.halve, ?_, hvalue, ?_⟩
  · rw [sqrt, hless, hsqrt]
    rfl
  · rw [← ha.dimension]
    rfl

/-- The square root of the square of a quantity is its magnitude, with its dimension, if the value
has at most fifty digits and is zero or has its leading digit near enough to the units. -/
theorem sqrt_square_spec (hf : q.value.HasFigures 50)
    (hr : q.value.isZero = true ∨ q.value.adjusted.natAbs ≤ 400000) :
    ∃ square root, q.multiply q = .ok square ∧ square.sqrt = .ok root ∧
      root.Amounts |q.value.toRat| q.dimension := by
  have hq : q.Amounts q.value.toRat q.dimension := ⟨hf.standsFor, rfl⟩
  have hextent := hf.hasExtent hr
  obtain ⟨square, hmultiply, hsquare⟩ :=
    exists_multiply hq hq ((hextent.mul hextent).represents (by decide) (by decide))
  rw [← abs_mul_abs_self] at hsquare
  obtain ⟨root, hsqrt, hroot⟩ :=
    exists_sqrt hsquare (abs_nonneg _) (hextent.abs.represents (by decide) (by decide))
  rw [Dimension.halve_add_self] at hroot
  exact ⟨square, root, hmultiply, hsqrt, hroot⟩

/-- Minus two and a half of a unit whose only exponent is a half. -/
theorem sqrt_square_spec_rootMetre :
    let q := of (.finite true 25 (-1)) { Dimension.one with length := 1 / 2 }
    (q.value.HasFigures 50 ∧ q.value.adjusted.natAbs ≤ 400000) ∧
    ∃ square root, q.multiply q = .ok square ∧ square.sqrt = .ok root ∧
      root.Amounts (5 / 2) { Dimension.one with length := 1 / 2 } := by
  have hf : (finite true 25 (-1)).HasFigures 50 := ⟨25, 0, rfl, by decide +kernel⟩
  have hr : (finite true 25 (-1)).adjusted.natAbs ≤ 400000 := by decide +kernel
  have hvalue : |(finite true 25 (-1)).toRat| = 5 / 2 := by
    rw [abs_toRat]
    norm_num
  obtain ⟨square, root, hmultiply, hsqrt, hroot⟩ := sqrt_square_spec
    (q := of (.finite true 25 (-1)) { Dimension.one with length := 1 / 2 }) hf (.inr hr)
  exact ⟨⟨hf, hr⟩, square, root, hmultiply, hsqrt, hvalue ▸ hroot⟩

end Quantity

end UnitCalculator
