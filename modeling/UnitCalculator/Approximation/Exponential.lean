import UnitCalculator.Approximation.Logarithm

/-!
# Exponentials

The power series is summed for a small argument; what an argument exceeds it by is turned into a
power of ten or of two, whichever the result is wanted in.
-/

namespace UnitCalculator.Approximation

/-- Sums the exponential series: each step multiplies the last term by the argument and divides by
the next number. -/
def exponentialSeries (bits : Nat) (x : Int) : Nat → Nat → Int → Int → Int
  | 0, _, _, total => total
  | fuel + 1, k, term, total =>
    if term = 0 ∨ term = -1 then total
    else exponentialSeries bits x fuel (k + 1) (scaleBinary (term * x) (-bits) / k) (total + term)

/-- Exponential of a small number. -/
def exponentialSmall (bits : Nat) (x : Int) : Int :=
  exponentialSeries bits x (2 * bits + 16) 1 (pow2 bits) 0

/-- Exponential of a number divided by a power of two: the number is given at any precision, and
the mantissa and the exponent of two are returned. -/
def exponentialBinary (bits : Nat) (x : Nat → Int) (magnitude : Nat) : Int × Int :=
  let work := bits + magnitude
  let two := logTwo work
  let argument := x work
  let power := argument / two
  (exponentialSmall bits (scaleBinary (argument - power * two) ((bits : Int) - work)), power)

end UnitCalculator.Approximation
