import UnitCalculator.Approximation.Exponential

/-!
# Hyperbolic functions and their inverses

The hyperbolic functions are sums and quotients of exponentials, whose size is kept as a power of
two; the inverses are logarithms.
-/

namespace UnitCalculator.Approximation

/-- Bits of the integer part of a quotient of naturals, with some to spare. -/
def quotientMagnitude (n d : Nat) : Nat := n.log2 - d.log2 + 2

/-- Exponentials of a quotient and of its opposite, as a mantissa in `bits` bits, its reciprocal
divided by the square of the power of two, and that power. -/
def exponentialPair (bits n d : Nat) : Int × Int × Int :=
  let (mantissa, power) :=
    exponentialBinary bits (fun work => scaleQuotient n d work) (quotientMagnitude n d)
  let unit : Int := pow2 bits
  (mantissa, scaleBinary (unit * unit / mantissa) (-2 * power), power)

/-- Half the difference of the two exponentials of a quotient of naturals. -/
def hyperbolicSine (n d bits : Nat) : Enclosure :=
  let (grown, shrunk, power) := exponentialPair bits n d
  { Enclosure.around (grown - shrunk) bits with bits := bits + 1 - power }

/-- Half the sum of the two exponentials of a quotient of naturals. -/
def hyperbolicCosine (n d bits : Nat) : Enclosure :=
  let (grown, shrunk, power) := exponentialPair bits n d
  { Enclosure.around (grown + shrunk) bits with bits := bits + 1 - power }

/-- Quotient of hyperbolic sine and cosine. -/
def hyperbolicTangent (n d bits : Nat) : Enclosure :=
  let (grown, shrunk, _) := exponentialPair bits n d
  .around ((grown - shrunk) * pow2 bits / (grown + shrunk)) bits

/-- Inverse of the hyperbolic sine, as the logarithm of the sum of a leg and the hypotenuse. Where
the leg is long the hypotenuse is as long. -/
def areaSine (n d bits : Nat) : Enclosure :=
  let unit := pow2 bits
  if bits < quotientMagnitude n d then .around (logQuotient bits (2 * n) d) bits
  else
    let hypotenuse := ((n * n + d * d) * unit * unit / (d * d)).sqrt
    .around (logQuotient bits ((scaleQuotient n d bits).toNat + hypotenuse) unit) bits

/-- Inverse of the hyperbolic cosine on quotients of at least one. -/
def areaCosine (n d bits : Nat) : Enclosure :=
  let unit := pow2 bits
  if bits < quotientMagnitude n d then .around (logQuotient bits (2 * n) d) bits
  else
    let leg := ((n * n - d * d) * unit * unit / (d * d)).sqrt
    .around (logQuotient bits ((scaleQuotient n d bits).toNat + leg) unit) bits

/-- Inverse of the hyperbolic tangent on quotients below one. -/
def areaTangent (n d bits : Nat) : Enclosure :=
  .around (logQuotient (bits + 1) (d + n) (d - n)) (bits + 2)

end UnitCalculator.Approximation
