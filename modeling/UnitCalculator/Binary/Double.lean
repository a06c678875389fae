import UnitCalculator.Binary.Rounding

/-!
# Doubles

Doubles are the binary numbers with 53 bits, exponents from -1074 and values below two to the power
1024. A decimal is exchanged as the nearest double, ties to even, and the double is written as the
shortest decimal that has it as the nearest double.
-/

namespace UnitCalculator

namespace Binary

/-- Significant bits of a double. -/
def doubleBits : Int := 53

/-- Exponent of the last bit of the smallest doubles. -/
def doubleTiny : Int := -1074

/-- Exponent of the first power of two above all doubles. -/
def doubleTop : Int := 1024

/-- Exponent of the leading bit of a positive quotient. -/
def leadingBit (n d : Nat) : Int :=
  let k := (n.log2 : Int) - d.log2
  if d * pow2 k.toNat ≤ n * pow2 (-k).toNat then k else k - 1

/-- The double nearest to a quotient, `none` if it is infinite. -/
def nearestDouble? (n d : Nat) : Option Binary :=
  if n = 0 then some ⟨0, doubleTiny⟩
  else
    let unit := max (leadingBit n d - doubleBits + 1) doubleTiny
    let mantissa := divideRounded .toEven (n * pow2 (-unit).toNat) (d * pow2 unit.toNat)
    if doubleTop ≤ unit + mantissa.log2 then none else some ⟨mantissa, unit⟩

/-- Decimal places at which every positive double has at least as many digits as identify it. -/
def sufficientPlaces : Nat := 342

/-- Number of digits that identifies a double. -/
def sufficientDigits : Nat := 17

/-- A decimal has a double as its nearest one. -/
def readsBack (b : Binary) (coefficient : Nat) (exponent : Int) : Bool :=
  match nearestDouble? (coefficient * pow10 exponent.toNat) (pow10 (-exponent).toNat) with
  | some other => other.mantissa * pow2 (other.exponent - b.exponent).toNat =
      b.mantissa * pow2 (b.exponent - other.exponent).toNat
  | none => false

/-- The nearer one of the two neighbours with an exponent of a double that read back, if any does;
`floor` is the lower neighbour's coefficient. -/
def neighbour? (b : Binary) (floor : Nat) (exponent : Int) : Option (Nat × Int) :=
  let (n, d) := b.quotient
  let double := 2 * n * pow10 (-exponent).toNat
  let middle := (2 * floor + 1) * d * pow10 exponent.toNat
  let upperNearer := middle < double || (middle == double && floor % 2 == 1)
  match b.readsBack floor exponent, b.readsBack (floor + 1) exponent with
  | true, true => some (if upperNearer then floor + 1 else floor, exponent)
  | true, false => some (floor, exponent)
  | false, true => some (floor + 1, exponent)
  | false, false => none

/-- The shortest decimal of `digits` digits or more that reads back, trying `fuel` lengths; `scaled`
is the integer part of the double at sufficiently many places. -/
def shortestFrom (b : Binary) (scaled : Nat) : Nat → Nat → Nat × Int
  | 0, _ => (scaled, -(sufficientPlaces : Int))
  | fuel + 1, digits =>
    let dropped := digitCount scaled - digits
    match b.neighbour? (scaled / pow10 dropped) ((dropped : Int) - sufficientPlaces) with
    | some result => result
    | none => shortestFrom b scaled fuel (digits + 1)

/-- The shortest decimal that reads back as a double, as coefficient and exponent. -/
def shortest (b : Binary) : Nat × Int :=
  let (n, d) := b.quotient
  if n = 0 then (0, 0)
  else b.shortestFrom (n * pow10 sufficientPlaces / d) sufficientDigits 1

end Binary

namespace Decimal

/-- Exponent of a leading digit above that of every double. -/
def aboveDoubles : Int := 400

/-- The double nearest to a finite number, without sign, `none` if it is infinite. -/
def doubleOf? (coefficient : Nat) (exponent : Int) : Option Binary :=
  let leading := exponent + digitCount coefficient
  if coefficient = 0 ∨ leading < -aboveDoubles then some ⟨0, Binary.doubleTiny⟩
  else if aboveDoubles < leading then none
  else Binary.nearestDouble? (coefficient * pow10 exponent.toNat) (pow10 (-exponent).toNat)

/-- The double nearest to a number, in its shortest decimal form. -/
def toDouble : Decimal → Decimal
  | .finite s c e =>
    match doubleOf? c e with
    | some b =>
      let (c, e) := b.shortest
      .finite s c e
    | none => .infinity s
  | .infinity s => .infinity s
  | .nan .. => .nan false false 0

end Decimal

end UnitCalculator
