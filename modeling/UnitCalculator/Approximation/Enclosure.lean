import UnitCalculator.Approximation.Reciprocal

/-!
# Enclosures of real numbers

A real number is approximated by an integer that is close to the number times a power of two. An
enclosure keeps two such integers with the number between them. The digits of a number that both
ends share are its digits; when they share too few, the number is enclosed again with twice as many
bits. A number that two enclosures of increasing precision cannot tell from a point of the digit
grid is that point.
-/

namespace UnitCalculator.Approximation

/-- Two integers with a real number times two to `bits` between them. -/
structure Enclosure where
  lower : Int
  upper : Int
  bits : Int

/-- Bits by which working precision exceeds the error allowed for in an enclosure. -/
def guardBits : Nat := 60

/-- The enclosure of a number from an approximation at `bits` bits, whose error stays below two to
`guardBits` units. -/
def Enclosure.around (value : Int) (bits : Nat) : Enclosure :=
  ⟨value - pow2 guardBits, value + pow2 guardBits, bits⟩

/-- The opposite numbers. -/
def Enclosure.negate (e : Enclosure) : Enclosure := ⟨-e.upper, -e.lower, e.bits⟩

/-- An integer times a power of two, rounded down. -/
def scaleBinary (n : Int) (shift : Int) : Int :=
  if 0 ≤ shift then n * pow2 shift.toNat else n / (pow2 (-shift).toNat : Nat)

/-- A quotient of naturals times a power of two, rounded down. -/
def scaleQuotient (n d : Nat) (shift : Int) : Int :=
  if 0 ≤ shift then (n * pow2 shift.toNat / d : Nat) else (n / (d * pow2 (-shift).toNat) : Nat)

/-- The part of a real number in front of a digit grid, and whether nothing is left over. -/
structure Settled where
  floor : Nat
  exact : Bool

/-- The integer part of a positive number times `scale`, from enclosures of doubling precision.
After `fuel` attempts that leave two candidates the number is the larger one. -/
def settle (enclosure : Nat → Enclosure) (scale : Nat) : Nat → Nat → Settled
  | 0, bits =>
    let e := enclosure bits
    ⟨(scaleBinary (e.upper * scale) (-e.bits)).toNat, true⟩
  | fuel + 1, bits =>
    let e := enclosure bits
    let low := scaleBinary (e.lower * scale) (-e.bits)
    let high := scaleBinary (e.upper * scale) (-e.bits)
    if low = high ∧ 0 ≤ low then ⟨low.toNat, false⟩
    else settle enclosure scale fuel (2 * bits)

/-- Sums the terms of a series: each step divides a power by the next odd number and takes the next
power, until it vanishes. -/
def oddSeries (next : Int → Int) : Nat → Nat → Int → Int → Int
  | 0, _, _, total => total
  | fuel + 1, odd, power, total =>
    if power = 0 ∨ power = -1 then total
    else oddSeries next fuel (odd + 2) (next power) (total + power / odd)

/-- Area tangent of a small number by its power series. -/
def areaTangentSeries (bits : Nat) (z : Int) : Int :=
  let square := scaleBinary (z * z) (-bits)
  oddSeries (fun power => scaleBinary (power * square) (-bits)) bits 1 z 0

/-- Arc tangent of a small number by its power series. -/
def arcTangentSeries (bits : Nat) (z : Int) : Int :=
  let square := scaleBinary (z * z) (-bits)
  oddSeries (fun power => -scaleBinary (power * square) (-bits)) bits 1 z 0

end UnitCalculator.Approximation
