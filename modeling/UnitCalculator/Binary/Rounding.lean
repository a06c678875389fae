import UnitCalculator.Decimal.Rounding
import UnitCalculator.Approximation.Enclosure

/-!
# Rounding to binary precision

A binary number is an integer times a power of two. Quotients and enclosed real numbers are rounded
to a number of significant bits, ties to even; a binary number is turned into a decimal with a
number of significant digits.
-/

namespace UnitCalculator

/-- A natural number times a power of two. -/
structure Binary where
  mantissa : Nat
  exponent : Int

namespace Binary

/-- The quotient of naturals that a binary number is. -/
def quotient (b : Binary) : Nat × Nat :=
  (b.mantissa * pow2 b.exponent.toNat, pow2 (-b.exponent).toNat)

/-- A natural number with all but its leading `precision` bits rounded off; `inexact` tells that the
number is a little larger than `floor`. -/
def roundFloor (precision floor : Nat) (inexact : Bool) (exponent : Int) : Binary :=
  let marked := 2 * floor + if inexact then 1 else 0
  let shift := marked.log2 + 1 - precision
  ⟨divideRounded .toEven marked (pow2 shift), exponent - 1 + shift⟩

/-- A positive quotient of naturals rounded to `precision` bits. -/
def ofQuotient (precision n d : Nat) : Binary :=
  let shift := precision + 2 + d.log2 - n.log2
  let scaled := n * pow2 shift
  roundFloor precision (scaled / d) (scaled % d != 0) (-shift)

/-- Bits that an enclosure has to settle before it is rounded to `precision` bits. -/
def settledBits (precision : Nat) : Nat := precision + 2

/-- The positive number in enclosures of doubling precision, rounded to `precision` bits. -/
def ofEnclosure (precision : Nat) (enclosure : Nat → Approximation.Enclosure) :
    Nat → Nat → Binary
  | 0, bits =>
    let e := enclosure bits
    roundFloor precision e.upper.toNat true (-e.bits)
  | fuel + 1, bits =>
    let e := enclosure bits
    let shift := e.lower.toNat.log2 - settledBits precision
    let low := e.lower / pow2 shift
    let high := e.upper / pow2 shift
    if 0 < shift ∧ 0 < e.lower ∧ low = high then
      roundFloor precision low.toNat true (shift - e.bits)
    else ofEnclosure precision enclosure fuel (2 * bits)

/-- Exponent of the leading bit. -/
def leading (b : Binary) : Int := b.exponent + b.mantissa.log2

/-- A positive binary number rounded to `digits` decimal digits, ties away from zero. -/
def toDecimal (digits : Nat) (negative : Bool) (b : Binary) : Decimal :=
  let shift := (digits : Int) + 3 - b.leading * 30103 / 100000
  let n := b.mantissa * pow2 b.exponent.toNat * pow10 shift.toNat
  let d := pow2 (-b.exponent).toNat * pow10 (-shift).toNat
  let marked := 10 * (n / d) + if n % d = 0 then 0 else 1
  let excess := digitCount marked - digits
  .finite negative (dropDigits .awayFromZero marked excess) (excess - 1 - shift)

end Binary

end UnitCalculator
