import UnitCalculator.Decimal.Display
import UnitCalculator.Decimal.Transcendental
import UnitCalculator.Dimension.Naming

/-!
# Physical quantities

A quantity is a decimal value in SI units with a dimension. Arithmetic rounds values to the working
format and checks dimensions. A quantity may remember the unit it was entered in; that unit serves
display only, and only negation keeps it.
-/

namespace UnitCalculator

/-- A unit for display with its size in SI units. -/
structure DisplayUnit where
  symbol : String
  scale : Decimal
  deriving DecidableEq

/-- A value in SI units with its dimension. -/
structure Quantity where
  value : Decimal
  dimension : Dimension
  unit : Option DisplayUnit := none
  deriving DecidableEq

namespace Quantity

/-- A pure number. -/
def number (value : Decimal) : Quantity := ⟨value, .one, none⟩

/-- A quantity without a unit for display. -/
def of (value : Decimal) (dimension : Dimension) : Quantity := ⟨value, dimension, none⟩

/-- Has the dimension of pure numbers. -/
def isDimensionless (q : Quantity) : Bool := q.dimension.isOne

/-- The fault of two dimensions that do not fit. -/
def mismatch {α : Type} (left : Dimension) (right : Outcome String) : Outcome α := do
  throw (.of (.incompatible (← left.text?) (← right)))

/-- Demands equal dimensions. -/
def requireSame (a b : Quantity) : Outcome Unit :=
  if a.dimension = b.dimension then .ok () else mismatch a.dimension b.dimension.text?

/-- Demands a pure number. -/
def requireDimensionless (q : Quantity) : Outcome Unit :=
  if q.isDimensionless then .ok () else mismatch q.dimension (.ok "1")

/-- The sum of quantities of one dimension. -/
def add (a b : Quantity) : Outcome Quantity := do
  a.requireSame b
  return of (← within "addition" (working.add a.value b.value)) a.dimension

/-- The difference of quantities of one dimension. -/
def subtract (a b : Quantity) : Outcome Quantity := do
  a.requireSame b
  return of (← within "subtraction" (working.subtract a.value b.value)) a.dimension

/-- The product of two quantities. -/
def multiply (a b : Quantity) : Outcome Quantity := do
  let value ← within "multiplication" (working.multiply a.value b.value)
  return of value (a.dimension.add b.dimension)

/-- The quotient of two quantities, the second other than zero. -/
def divide (a b : Quantity) : Outcome Quantity := do
  if b.value.isZero then throw (.of (.divisionByZero .quotient))
  let value ← within "division" (working.divide a.value b.value)
  return of value (a.dimension.subtract b.dimension)

/-- The opposite quantity, shown in the same unit. -/
def negate (q : Quantity) : Outcome Quantity := do
  return { q with value := ← ofSignal (working.negate q.value) }

/-- A number to a power: a negative base has integral powers only, and zero no negative ones. -/
def powerOf (base exponent : Decimal) : Outcome Decimal := do
  if ← ofSignal (base.isLess (.ofNat 0)) then
    if !(← ofSignal exponent.isIntegral) then
      throw (.of (.outsideDomain .fractionalPowerOfNegative))
  if base.isZero then
    if ← ofSignal (exponent.isLess (.ofNat 0)) then throw (.of (.divisionByZero .negativePower))
  within "power" (working.power base exponent)

/-- The power of a dimension that an exponent means: the first fraction with a denominator from
`degree` on, at most nine, whose product with the denominator is integral at working precision. -/
def fractionFrom (exponent : Decimal) : Nat → Nat → Outcome (Option Rat)
  | 0, _ => .ok none
  | fuel + 1, degree => do
    let scaled ← ofSignal (working.multiply exponent (.ofNat degree))
    if ← ofSignal scaled.isIntegral then
      if scaled.isFinite then return some (mkRat scaled.truncate degree)
      throw .infiniteExponent
    fractionFrom exponent fuel (degree + 1)

/-- Greatest denominator of a power of a dimension. -/
def greatestDegree : Nat := 9

/-- The power of a dimension that an exponent means, if any. -/
def fractionOf? (exponent : Decimal) : Outcome (Option Rat) :=
  fractionFrom exponent greatestDegree 1

/-- Significant figures of results unless another number is asked for. -/
def defaultFigures : Int := 6

/-- A quantity to the power of a pure number, which for a dimension must mean a fraction with a
small denominator. -/
def pow (base exponent : Quantity) : Outcome Quantity := do
  exponent.requireDimensionless
  if base.isDimensionless then
    return number (← powerOf base.value exponent.value)
  match ← fractionOf? exponent.value with
  | some fraction =>
    return of (← powerOf base.value exponent.value) (base.dimension.multiply fraction)
  | none =>
    let power := do return "power " ++ (← ofSignal (exponent.value.display defaultFigures))
    mismatch base.dimension power

/-- The square root of a quantity that is not negative. -/
def sqrt (q : Quantity) : Outcome Quantity := do
  if ← ofSignal (q.value.isLess (.ofNat 0)) then
    throw (.of (.outsideDomain .negativeSquareRoot))
  return of (← within "sqrt" (working.sqrt q.value)) q.dimension.halve

/-- Demands a positive pure number. -/
def requirePositive (q : Quantity) : Outcome Unit := do
  q.requireDimensionless
  if ← ofSignal (q.value.isAtMost (.ofNat 0)) then
    throw (.of (.outsideDomain .nonPositiveLogarithm))

/-- The natural logarithm of a positive pure number. -/
def ln (q : Quantity) : Outcome Quantity := do
  q.requirePositive
  return number (← within "ln" (working.ln q.value))

/-- The logarithm to base ten of a positive pure number. -/
def log (q : Quantity) : Outcome Quantity := do
  q.requirePositive
  return number (← within "log" (working.log10 q.value))

/-- The exponential of a pure number. -/
def exp (q : Quantity) : Outcome Quantity := do
  q.requireDimensionless
  return number (← within "exp" (working.exp q.value))

end Quantity

end UnitCalculator
