import UnitCalculator.Quantity.Basic

/-!
# Fingerprints of quantities

Equal quantities have equal fingerprints, whatever form their values have. A rational number is
represented by its residue modulo a Mersenne prime with the sign of the number, and minus one shares
the residue of minus two.
-/

namespace UnitCalculator

namespace Fingerprint

/-- The modulus, two to the power 61 less one. -/
def modulus : Nat := pow2 61 - 1

/-- A power modulo the modulus by repeated squaring, bit by bit of the exponent. -/
def powerMod : Nat → Nat → Nat → Nat
  | 0, _, _ => 1
  | fuel + 1, base, exponent =>
    let half := powerMod fuel (base * base % modulus) (exponent / 2)
    if exponent % 2 = 1 then base * half % modulus else half

/-- The reciprocal of a residue other than zero. -/
def inverse (n : Nat) : Nat := powerMod 61 (n % modulus) (modulus - 2)

/-- The residue with the sign of a number. -/
def signed (negative : Bool) (residue : Nat) : Int :=
  if negative then if residue = 1 then -2 else -(residue : Int) else residue

/-- Residue of an infinite number. -/
def infinite : Nat := 314159

/-- Fingerprint of a rational number. -/
def ofRat (q : Rat) : Int :=
  signed (q.num < 0)
    (if q.den % modulus = 0 then infinite else q.num.natAbs * inverse q.den % modulus)

/-- Fingerprint of a decimal that is no NaN. -/
def ofDecimal : Decimal → Int
  | .finite s c e =>
    let base := if 0 ≤ e then 10 else inverse 10
    signed s (c % modulus * powerMod (e.natAbs.log2 + 1) base e.natAbs % modulus)
  | .infinity s => signed s infinite
  | .nan .. => 0

end Fingerprint

/-- Fingerprints of the value and of the exponents of the dimension. -/
def Quantity.fingerprint (q : Quantity) : Int × List Int :=
  (Fingerprint.ofDecimal q.value, q.dimension.exponents.map Fingerprint.ofRat)

end UnitCalculator
