import UnitCalculator.Approximation.Enclosure

/-!
# Natural logarithms

Repeated square roots bring a number close to one, where the series of the area tangent converges
fast; powers of two are split off before and come back as multiples of the logarithm of two.
-/

namespace UnitCalculator.Approximation

/-- Logarithm of two, from three area tangents of small unit fractions. -/
def logTwo (bits : Nat) : Int :=
  18 * areaTangentReciprocal bits 26 - 2 * areaTangentReciprocal bits 4801 +
    8 * areaTangentReciprocal bits 8749

/-- Square root of a number in `bits` bits. -/
def squareRoot (bits : Nat) (x : Nat) : Nat := (x * pow2 bits).sqrt

/-- Takes square roots a number of times. -/
def squareRoots (bits : Nat) : Nat → Nat → Nat
  | 0, x => x
  | times + 1, x => squareRoots bits times (squareRoot bits x)

/-- Square roots taken before the series is summed. -/
def rootCount : Nat := 8

/-- Logarithm of a number between one half and two in `bits` bits. -/
def logNearOne (bits : Nat) (x : Nat) : Int :=
  let unit : Int := pow2 bits
  let root : Int := squareRoots bits rootCount x
  2 * pow2 rootCount * areaTangentSeries bits ((root - unit) * unit / (root + unit))

/-- Logarithm of a positive quotient of naturals. -/
def logQuotient (bits : Nat) (n d : Nat) : Int :=
  let power : Int := (n.log2 : Int) - d.log2
  let work := bits + power.natAbs.log2 + guardBits
  let near := scaleQuotient n d (work - power)
  scaleBinary (logNearOne work near.toNat + power * logTwo work) ((bits : Int) - work)

/-- Logarithm of ten. -/
def logTen (bits : Nat) : Int := logQuotient bits 10 1

end UnitCalculator.Approximation
