import UnitCalculator.Decimal.Basic

/-!
# Arc tangents and area tangents of reciprocals

The arc tangent of the reciprocal of a natural number is the sum of its odd powers, each divided by
its degree, with alternating signs; the area tangent has the same terms without the signs. Such a
sum is a quotient of integers. A range of terms is summed in halves, which keeps the factors of the
products about equally long; two halves are joined without any error.
-/

namespace UnitCalculator.Approximation

/-- The sum of some neighbouring terms over the power before the first of them: the numerator
divided by the product of the degrees and by `power`, the square of the number to the count of
terms. -/
structure RangeSum where
  numerator : Int
  degrees : Nat
  power : Nat

/-- The sum of one range of terms and the next one; `opposite` tells that the terms of the latter
have the other sign. -/
def RangeSum.append (a b : RangeSum) (opposite : Bool) : RangeSum :=
  let first := a.numerator * (b.degrees * b.power : Nat)
  let second := b.numerator * (a.degrees : Nat)
  ⟨if opposite then first - second else first + second, a.degrees * b.degrees, a.power * b.power⟩

/-- The sum of `count` terms, at least one, from the one of index `first` on. -/
def sumTerms (square : Nat) (alternating : Bool) (first count : Nat) : RangeSum :=
  if count < 2 then ⟨square, 2 * first + 1, square⟩
  else
    let half := count / 2
    (sumTerms square alternating first half).append
      (sumTerms square alternating (first + half) (count - half))
      (alternating && half % 2 = 1)
termination_by count

/-- The sum of all terms that count in `bits` bits. -/
def sumReciprocal (alternating : Bool) (bits k : Nat) : Int :=
  let sum := sumTerms (k * k) alternating 0 (bits / (k * k).log2 + 1)
  sum.numerator * (pow2 bits : Nat) / (k * sum.degrees * sum.power : Nat)

/-- Arc tangent of the reciprocal of a natural number above one. -/
def arcTangentReciprocal (bits k : Nat) : Int := sumReciprocal true bits k

/-- Area tangent of the reciprocal of a natural number above one. -/
def areaTangentReciprocal (bits k : Nat) : Int := sumReciprocal false bits k

end UnitCalculator.Approximation
