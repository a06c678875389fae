import UnitCalculator.Failure

/-!
# Physical dimensions

A dimension is a product of rational powers of the seven base quantities. Multiplying quantities
adds the exponents, so the dimensions form a vector space over the rationals.
-/

namespace UnitCalculator

/-- Exponents of the seven base quantities. -/
structure Dimension where
  time : Rat
  length : Rat
  mass : Rat
  current : Rat
  temperature : Rat
  amount : Rat
  luminous : Rat
  deriving DecidableEq

namespace Dimension

/-- The dimension of pure numbers. -/
def one : Dimension := ⟨0, 0, 0, 0, 0, 0, 0⟩

/-- The exponents in the order time, length, mass, current, temperature, amount, luminous
intensity. -/
def exponents (d : Dimension) : List Rat :=
  [d.time, d.length, d.mass, d.current, d.temperature, d.amount, d.luminous]

/-- The dimension with the given exponents, which must be seven. -/
def ofExponents : List Rat → Outcome Dimension
  | [t, l, m, i, θ, n, j] => .ok ⟨t, l, m, i, θ, n, j⟩
  | exponents => .error (.exponentCount exponents.length)

/-- Applies a function to every exponent. -/
def map (f : Rat → Rat) (d : Dimension) : Dimension :=
  ⟨f d.time, f d.length, f d.mass, f d.current, f d.temperature, f d.amount, f d.luminous⟩

/-- Combines two dimensions exponent by exponent. -/
def zipWith (f : Rat → Rat → Rat) (a b : Dimension) : Dimension :=
  ⟨f a.time b.time, f a.length b.length, f a.mass b.mass, f a.current b.current,
    f a.temperature b.temperature, f a.amount b.amount, f a.luminous b.luminous⟩

/-- The dimension of a product of quantities. -/
def add (a b : Dimension) : Dimension := zipWith (· + ·) a b

/-- The dimension of a quotient of quantities. -/
def subtract (a b : Dimension) : Dimension := zipWith (· - ·) a b

/-- The dimension of a reciprocal. -/
def invert (d : Dimension) : Dimension := d.map (-·)

/-- The dimension of a power. -/
def multiply (d : Dimension) (power : Rat) : Dimension := d.map (· * power)

/-- The dimension of a root of other than zeroth degree. -/
def divide (d : Dimension) (degree : Rat) : Outcome Dimension :=
  if degree = 0 then .error .zeroDivisor else .ok (d.map (· / degree))

/-- The dimension of a square root. -/
def halve (d : Dimension) : Dimension := d.map (· / 2)

/-- All exponents vanish. -/
def isOne (d : Dimension) : Bool := d.exponents.all (· == 0)

end Dimension

end UnitCalculator
