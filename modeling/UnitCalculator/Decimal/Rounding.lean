import UnitCalculator.Decimal.Basic

/-!
# Rounding to a working format

A format bounds the digits of a coefficient and the exponent of the leading digit. Every operation
first determines its exact result, or enough of it, and then rounds once: to the digits of the
format, or coarser where the result lies below the smallest normal number.

A result that is not a decimal is given by the integer part of a multiple of it and by one more
digit, which is one where something is left over. That digit lies beyond the rounding digit, so
it decides on which side of a tie the result lies and changes nothing else.
-/

namespace UnitCalculator

/-- What becomes of a number halfway between two neighbours. -/
inductive Tie where
  | toEven
  | awayFromZero
  deriving DecidableEq

/-- The integer nearest to a quotient of naturals. -/
def divideRounded (tie : Tie) (n d : Nat) : Nat :=
  let q := n / d
  let twice := 2 * (n % d)
  if twice < d then q
  else if d < twice then q + 1
  else match tie with
    | .toEven => if q % 2 = 0 then q else q + 1
    | .awayFromZero => q + 1

/-- A coefficient without its last `places` digits, rounded. Where more digits fall away than there
are, less than half a unit is left. -/
def dropDigits (tie : Tie) (coefficient places : Nat) : Nat :=
  if digitCount coefficient < places then 0
  else divideRounded tie coefficient (pow10 places)

/-- Bounds of a decimal format. -/
structure Format where
  /-- Greatest number of digits of a coefficient. -/
  digits : Nat
  /-- Greatest exponent of a leading digit; its opposite is the least normal one. -/
  maxExponent : Nat

namespace Format

/-- Exponent of the last digit of the smallest numbers. -/
def tiny (format : Format) : Int := 1 - format.maxExponent - format.digits

/-- Largest exponent of the leading digit, as an integer. -/
def top (format : Format) : Int := format.maxExponent

/-- Results that fit as they are, unless the leading digit lies too high. -/
def bounded (format : Format) (negative : Bool) (coefficient : Nat) (exponent : Int) :
    Except Signal Decimal :=
  if format.top < exponent + digitCount coefficient - 1 then .error .overflow
  else .ok (.finite negative coefficient exponent)

/-- Rounds a finite number to the format, ties to even. -/
def round (format : Format) (negative : Bool) (coefficient : Nat) (exponent : Int) :
    Except Signal Decimal :=
  if coefficient = 0 then
    .ok (.finite negative 0 (max format.tiny (min format.top exponent)))
  else
    let excess := max ((digitCount coefficient : Int) - format.digits) (format.tiny - exponent)
    if excess ≤ 0 then format.bounded negative coefficient exponent
    else
      let kept := dropDigits .toEven coefficient excess.toNat
      if kept = pow10 format.digits then
        format.bounded negative (pow10 (format.digits - 1)) (exponent + excess + 1)
      else if kept = 0 then .ok (.finite negative 0 (exponent + excess))
      else format.bounded negative kept (exponent + excess)

/-- Rounds a number that lies between an integer and the next one, both times a power of ten. The
integer must have more digits than the format. -/
def roundBetween (format : Format) (negative : Bool) (floor : Nat) (exponent : Int)
    (exact : Bool) : Except Signal Decimal :=
  format.round negative (10 * floor + if exact then 0 else 1) (exponent - 1)

/-- Rounds a positive quotient of naturals times a power of ten. -/
def roundQuotient (format : Format) (negative : Bool) (n d : Nat) (exponent : Int) :
    Except Signal Decimal :=
  let shift := format.digits + 1 + digitCount d - digitCount n
  let scaled := n * pow10 shift
  format.roundBetween negative (scaled / d) (exponent - shift) (scaled % d == 0)

end Format

/-- The format of all calculations: one hundred digits. -/
def working : Format := ⟨100, 999999⟩

end UnitCalculator
