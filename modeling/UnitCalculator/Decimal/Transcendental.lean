import UnitCalculator.Decimal.Arithmetic
import UnitCalculator.Decimal.Elementary
import UnitCalculator.Binary.Rounding
import UnitCalculator.Approximation.Circular
import UnitCalculator.Approximation.Hyperbolic

/-!
# Circular and hyperbolic functions of decimals

These functions are evaluated in binary: the argument is rounded to a fixed number of bits, the
value of the function there is rounded to as many bits, and that is rounded to the digits of the
decimal format. An argument outside the real domain has no value.
-/

namespace UnitCalculator

/-- The functions that are evaluated in binary. -/
inductive Transcendental where
  | sin | cos | tan
  | asin | acos | atan
  | sinh | cosh | tanh
  | asinh | acosh | atanh
  deriving DecidableEq

namespace Transcendental

/-- Significant bits of arguments and values. -/
def precision : Nat := 369

/-- Attempts at settling the bits of a value. -/
def attempts : Nat := 14

/-- Bits of the first attempt. -/
def startBits : Nat := precision + 3 * Approximation.guardBits

/-- Functions whose value changes sign with the argument. -/
def isOdd : Transcendental → Bool
  | .cos | .cosh | .acos | .acosh => false
  | _ => true

/-- Inverse functions. -/
def isInverse : Transcendental → Bool
  | .asin | .acos | .atan | .asinh | .acosh | .atanh => true
  | _ => false

/-- Arguments with a real value, by the sign and the size of the argument. -/
def inDomain (negative : Bool) (n d : Nat) : Transcendental → Bool
  | .asin | .acos => n ≤ d
  | .acosh => !negative && d ≤ n
  | .atanh => n < d
  | _ => true

/-- Arguments at which the value is zero or one: zero, and one for the functions that vanish
there. -/
def exactValue? (negative : Bool) (n d : Nat) : Transcendental → Option Nat
  | .cos | .cosh => if n = 0 then some 1 else none
  | .acos | .acosh => if n = d && !negative then some 0 else none
  | _ => if n = 0 then some 0 else none

/-- Enclosures of the value at a quotient of naturals; odd functions are given without sign. -/
def enclosure (negative : Bool) (n d : Nat) : Transcendental → Nat → Approximation.Enclosure
  | .sin => Approximation.sine n d
  | .cos => Approximation.cosine n d
  | .tan => Approximation.tangent n d
  | .asin => Approximation.arcSine n d
  | .acos => Approximation.arcCosine negative n d
  | .atan => Approximation.arcTangent n d
  | .sinh => Approximation.hyperbolicSine n d
  | .cosh => Approximation.hyperbolicCosine n d
  | .tanh => Approximation.hyperbolicTangent n d
  | .asinh => Approximation.areaSine n d
  | .acosh => Approximation.areaCosine n d
  | .atanh => Approximation.areaTangent n d

/-- Leading exponent below which a value differs from its argument, or from one, by less than the
precision. -/
def smallArgument : Int := -60

/-- Leading exponent from which a hyperbolic tangent differs from one by less than the precision. -/
def flatTangent : Int := 3

/-- Leading exponent from which the hyperbolic functions exceed every number that can be
written. -/
def steepArgument : Int := 22

/-- The binary logarithm of the base of natural logarithms, times ten to the power 40. -/
def binaryGrowth : Nat := 14426950408889634073599246810018921374266

/-- Exponent of the leading bit of a hyperbolic sine or cosine of a large argument. -/
def steepBit (n d : Nat) : Int := (n * binaryGrowth / (d * pow10 40) : Nat) - 1

/-- Leading exponent from which the square of an argument exceeds one by more than the precision. -/
def largeArgument : Int := 1000

/-- Leading exponent from which no angle is reduced. -/
def endlessAngle : Int := 2000000

/-- Leading bit of the first power of two above every number that can be written. -/
def greatestBit : Int := 3321928094887362348

/-- What a leading bit far above the format means: too large an exponent overflows, and one that
cannot be written has no result. -/
def excess? (format : Format) (leading : Int) : Option Signal :=
  if greatestBit ≤ leading then some .invalidOperation
  else if 4 * format.top < leading then some .overflow
  else none

/-- A value in the decimal format. -/
def toFormat (format : Format) (negative : Bool) (b : Binary) : Except Signal Decimal :=
  match excess? format b.leading with
  | some signal => .error signal
  | none => format.plus (b.toDecimal format.digits negative)

/-- Value at an argument given by its sign and a quotient of naturals, `none` outside the domain. -/
def atQuotient (f : Transcendental) (format : Format) (negative : Bool) (n d : Nat) :
    Option (Except Signal Decimal) :=
  if !f.inDomain negative n d then none
  else match f.exactValue? negative n d with
    | some value => some (.ok (.ofNat value))
    | none =>
      let values := f.enclosure negative n d
      let positive := 0 ≤ (values startBits).upper
      let magnitudes := fun bits => if positive then values bits else (values bits).negate
      let sign := (f.isOdd && negative) != !positive
      some (toFormat format sign (Binary.ofEnclosure precision magnitudes attempts startBits))

/-- Value at a small argument other than zero: the argument itself for the odd functions, and the
value at zero for the others. -/
def atSmall (f : Transcendental) (format : Format) (negative : Bool) (c : Nat) (e : Int) :
    Option (Except Signal Decimal) :=
  if f.isOdd then
    if e + digitCount c < 2 * format.tiny then some (format.outOfRange negative false)
    else
      let b := Binary.ofQuotient precision (c * pow10 e.toNat) (pow10 (-e).toNat)
      some (toFormat format negative b)
  else f.atQuotient format negative 0 1

/-- Logarithm of twice a number, which the inverse hyperbolic functions tend to. -/
def doubledLogarithm (c : Nat) (e : Int) (bits : Nat) : Approximation.Enclosure :=
  .around (Format.logApproximation c e bits + Approximation.logTwo bits) bits

/-- Value at a large argument of the inverse functions that have one, `none` outside the domain;
that of the arc tangent does not depend on how large the argument is. -/
def atLarge (f : Transcendental) (format : Format) (negative : Bool) (c : Nat) (e : Int) :
    Option (Except Signal Decimal) :=
  match f with
  | .atan => f.atQuotient format negative (pow10 largeArgument.toNat) 1
  | .asinh | .acosh =>
    if negative && f = .acosh then none
    else
      let b := Binary.ofEnclosure precision (doubledLogarithm c e) attempts startBits
      some (toFormat format negative b)
  | _ => none

/-- Value at a finite decimal, `none` outside the domain. -/
def atFinite (f : Transcendental) (format : Format) (negative : Bool) (c : Nat) (e : Int) :
    Option (Except Signal Decimal) :=
  let leading := e + digitCount c - 1
  if c = 0 then f.atQuotient format negative 0 1
  else if leading < smallArgument ∧ f ≠ .acos ∨ leading < 4 * smallArgument then
    f.atSmall format negative c e
  else if flatTangent ≤ leading ∧ f = .tanh then some (.ok (.finite negative 1 0))
  else if steepArgument ≤ leading ∧ (f = .sinh ∨ f = .cosh) then
    some (.error .invalidOperation)
  else if largeArgument ≤ leading ∧ f.isInverse ∨ endlessAngle ≤ leading then
    f.atLarge format negative c e
  else
    let b := Binary.ofQuotient precision (c * pow10 e.toNat) (pow10 (-e).toNat)
    let (n, d) := b.quotient
    match if f = .sinh ∨ f = .cosh then excess? format (steepBit n d) else none with
    | some signal => some (.error signal)
    | none => f.atQuotient format negative n d

/-- Value at a decimal, `none` outside the domain, which holds no infinity and no NaN. -/
def evaluate (f : Transcendental) (format : Format) : Decimal → Option (Except Signal Decimal)
  | .finite s c e => f.atFinite format s c e
  | _ => none

end Transcendental

end UnitCalculator
