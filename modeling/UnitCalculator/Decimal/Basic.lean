/-!
# Decimal numbers

A finite decimal is a sign, a natural coefficient and a power of ten; the same value has many such
forms, and reading a number keeps the one that was written. Infinities and the two kinds of NaN
complete the type. Arithmetic ends early with a signal.
-/

namespace UnitCalculator

/-- Conditions that end a decimal operation without a result. -/
inductive Signal where
  /-- The operands have no defined result. -/
  | invalidOperation
  /-- A finite number was divided by zero. -/
  | divisionByZero
  /-- The result exceeds the largest exponent. -/
  | overflow
  deriving DecidableEq

/-- Ten to a natural power. -/
def pow10 (k : Nat) : Nat := Nat.pow 10 k

/-- Two to a natural power. -/
def pow2 (k : Nat) : Nat := Nat.pow 2 k

/-- Number of decimal digits; zero has one. -/
def digitCount (n : Nat) : Nat := (Nat.toDigits 10 n).length

/-- A decimal number in the form in which it was written or computed. -/
inductive Decimal where
  /-- The coefficient times ten to the exponent, with a sign also for zero. -/
  | finite (negative : Bool) (coefficient : Nat) (exponent : Int)
  | infinity (negative : Bool)
  /-- Not a number; a signaling one ends every operation. -/
  | nan (negative signaling : Bool) (payload : Nat)
  deriving DecidableEq

namespace Decimal

/-- An integer as a decimal with exponent zero. -/
def ofInt (n : Int) : Decimal := .finite (n < 0) n.natAbs 0

/-- A natural number as a decimal with exponent zero. -/
def ofNat (n : Nat) : Decimal := .finite false n 0

/-- Ten to an integer power. -/
def tenPower (exponent : Int) : Decimal := .finite false 1 exponent

/-- A zero of either sign and any exponent. -/
def isZero : Decimal → Bool
  | .finite _ c _ => c == 0
  | _ => false

/-- A number that is neither infinite nor a NaN. -/
def isFinite : Decimal → Bool
  | .finite .. => true
  | _ => false

/-- A quiet or signaling NaN. -/
def isNaN : Decimal → Bool
  | .nan .. => true
  | _ => false

/-- Carries the sign, which zeros and NaNs have too. -/
def isNegative : Decimal → Bool
  | .finite s _ _ => s
  | .infinity s => s
  | .nan s _ _ => s

/-- Exponent of the leading digit; zero for infinities and NaNs. -/
def adjusted : Decimal → Int
  | .finite _ c e => e + digitCount c - 1
  | _ => 0

/-- Divides out trailing zeros, at most `fuel` of them. -/
def dropZeros : Nat → Nat → Int → Nat × Int
  | 0, c, e => (c, e)
  | fuel + 1, c, e => if c % 10 = 0 then dropZeros fuel (c / 10) (e + 1) else (c, e)

/-- The form of a finite number whose coefficient has no trailing zero; zero becomes `0E0`. -/
def reduced : Decimal → Decimal
  | .finite s c e =>
    if c = 0 then .finite s 0 0
    else
      let (c, e) := dropZeros (digitCount c) c e
      .finite s c e
  | d => d

/-- Digits of a finite number with a point where the exponent puts it, when the exponent is not
positive and the leading digit is at most six places behind the point; a leading digit with a
power of ten otherwise. -/
def unsignedText (coefficient : Nat) (exponent : Int) : List Char :=
  let digits := Nat.toDigits 10 coefficient
  let point := exponent + digits.length
  if exponent ≤ 0 ∧ -6 < point then
    if exponent = 0 then digits
    else if 0 < point then digits.take point.toNat ++ '.' :: digits.drop point.toNat
    else '0' :: '.' :: List.replicate (-point).toNat '0' ++ digits
  else
    let fraction := digits.drop 1
    let power := point - 1
    digits.take 1 ++ (if fraction.isEmpty then [] else '.' :: fraction) ++
      'E' :: (if power < 0 then '-' else '+') :: Nat.toDigits 10 power.natAbs

/-- Text of a number; reading it gives the same number in the same form. -/
def text : Decimal → String
  | .finite s c e => String.ofList ((if s then ['-'] else []) ++ unsignedText c e)
  | .infinity s => if s then "-Infinity" else "Infinity"
  | .nan s signaling payload =>
    (if s then "-" else "") ++ (if signaling then "sNaN" else "NaN") ++
      (if payload = 0 then "" else payload.repr)

end Decimal

end UnitCalculator
