import UnitCalculator.Approximation.Enclosure

/-!
# Circular functions and their inverses

An angle is reduced by quarter turns to the first quadrant, where the power series of sine and
cosine are summed. The arc tangent is halved until its series converges fast; the arc sine is a
doubled arc tangent and the arc cosine its complement.
-/

namespace UnitCalculator.Approximation

/-- A quarter turn, from the arc tangents of one fifth and of 1/239. -/
def quarterTurn (bits : Nat) : Int :=
  8 * arcTangentReciprocal bits 5 - 2 * arcTangentReciprocal bits 239

/-- Sums every second term of the exponential series with alternating signs, from the term of the
given degree on. -/
def circularSeries (bits : Nat) (square : Int) : Nat → Nat → Int → Int → Int
  | 0, _, _, total => total
  | fuel + 1, degree, term, total =>
    if term = 0 ∨ term = -1 then total
    else
      let next := -scaleBinary (term * square) (-bits) / ((degree + 1) * (degree + 2))
      circularSeries bits square fuel (degree + 2) next (total + term)

/-- Sine of an angle in the first quadrant. -/
def sineFirst (bits : Nat) (x : Int) : Int :=
  circularSeries bits (scaleBinary (x * x) (-bits)) bits 1 x 0

/-- Cosine of an angle in the first quadrant. -/
def cosineFirst (bits : Nat) (x : Int) : Int :=
  circularSeries bits (scaleBinary (x * x) (-bits)) bits 0 (pow2 bits) 0

/-- An angle as a number of quarter turns and the rest. -/
def reduceAngle (bits : Nat) (n d : Nat) : Int × Int :=
  let work := bits + (n.log2 - d.log2) + 16
  let quarter := quarterTurn work
  let angle := scaleQuotient n d work
  let turns := angle / quarter
  (turns, scaleBinary (angle - turns * quarter) ((bits : Int) - work))

/-- Sine of a number of quarter turns and a rest. -/
def sineReduced (bits : Nat) (turns x : Int) : Enclosure :=
  let value := match turns % 4 with
    | 0 => sineFirst bits x
    | 1 => cosineFirst bits x
    | 2 => -sineFirst bits x
    | _ => -cosineFirst bits x
  .around value bits

/-- Sine of a quotient of naturals. -/
def sine (n d bits : Nat) : Enclosure :=
  let (turns, x) := reduceAngle bits n d
  sineReduced bits turns x

/-- Cosine of a quotient of naturals: the sine a quarter turn further on. -/
def cosine (n d bits : Nat) : Enclosure :=
  let (turns, x) := reduceAngle bits n d
  sineReduced bits (turns + 1) x

/-- Quotient of two enclosures of the same precision. A denominator that may be zero leaves the
quotient open. -/
def divideEnclosures (a b : Enclosure) (bits : Nat) : Enclosure :=
  let (a, b) := if b.upper < 0 then (a.negate, b.negate) else (a, b)
  if b.lower ≤ 0 then ⟨0, pow2 (2 * bits), bits⟩
  else
    let unit : Int := pow2 bits
    let low := a.lower * unit / (if 0 ≤ a.lower then b.upper else b.lower)
    let high := a.upper * unit / (if 0 ≤ a.upper then b.lower else b.upper) + 1
    ⟨low, high, bits⟩

/-- Tangent of a quotient of naturals. -/
def tangent (n d bits : Nat) : Enclosure :=
  let (turns, x) := reduceAngle bits n d
  divideEnclosures (sineReduced bits turns x) (sineReduced bits (turns + 1) x) bits

/-- Halvings of an arc tangent before its series is summed. -/
def halvings : Nat := 6

/-- Tangents of repeatedly halved angles. -/
def halveTangent (bits : Nat) : Nat → Int → Int
  | 0, t => t
  | times + 1, t =>
    let unit : Int := pow2 bits
    let hypotenuse : Int := ((unit * unit + t * t).toNat.sqrt : Nat)
    halveTangent bits times (t * unit / (unit + hypotenuse))

/-- Arc tangent of a number between zero and one in `bits` bits. -/
def arcTangentUnit (bits : Nat) (t : Int) : Int :=
  pow2 halvings * arcTangentSeries bits (halveTangent bits halvings t)

/-- Arc tangent of a quotient of naturals. -/
def arcTangentQuotient (bits n d : Nat) : Int :=
  if n ≤ d then arcTangentUnit bits (scaleQuotient n d bits)
  else quarterTurn bits - arcTangentUnit bits (scaleQuotient d n bits)

/-- Arc tangent of a quotient of naturals. -/
def arcTangent (n d bits : Nat) : Enclosure := .around (arcTangentQuotient bits n d) bits

/-- Arc sine of a quotient of naturals that is at most one. -/
def arcSineQuotient (bits n d : Nat) : Int :=
  let unit := pow2 bits
  let leg := ((d * d - n * n) * unit * unit / (d * d)).sqrt
  2 * arcTangentQuotient bits (n * unit) (d * (unit + leg))

/-- Arc sine of a quotient of naturals that is at most one. -/
def arcSine (n d bits : Nat) : Enclosure := .around (arcSineQuotient bits n d) bits

/-- Arc cosine of a quotient of naturals that is at most one, or of its opposite. -/
def arcCosine (negative : Bool) (n d bits : Nat) : Enclosure :=
  let arc := arcSineQuotient bits n d
  .around (quarterTurn bits - if negative then -arc else arc) bits

end UnitCalculator.Approximation
