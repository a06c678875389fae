import UnitCalculator.Binary.Double

/-!
# General notation

A double is written with at most six significant digits, ties to even, and without zeros at the end.
It is written with a power of ten of two digits or more if the exponent of its leading digit is less
than minus four or at least six, and positionally otherwise.
-/

namespace UnitCalculator

namespace Binary

/-- Significant digits of the notation. -/
def generalDigits : Nat := 6

/-- Least exponent of a leading digit that is written positionally. -/
def leastPositional : Int := -4

/-- A positive double rounded to significant digits: the digits as an integer and the exponent of
the leading one. -/
def toSignificant (b : Binary) : Nat × Int :=
  let (n, d) := b.quotient
  let scaled := n * pow10 sufficientPlaces / d
  let dropped := digitCount scaled - generalDigits
  let exponent := (dropped : Int) - sufficientPlaces
  let rounded :=
    divideRounded .toEven (n * pow10 (-exponent).toNat) (d * pow10 exponent.toNat)
  if rounded = pow10 generalDigits then (pow10 (generalDigits - 1), exponent + generalDigits)
  else (rounded, exponent + generalDigits - 1)

/-- Digits without zeros at the end. -/
def withoutZeros (digits : List Char) : List Char :=
  (digits.reverse.dropWhile (· = '0')).reverse

/-- Digits behind a point, the point included, or nothing if there are none. -/
def pointed (fraction : List Char) : List Char :=
  if fraction.isEmpty then [] else '.' :: fraction

/-- A power of ten: its sign and two digits or more. -/
def powerText (power : Int) : List Char :=
  let digits := Nat.toDigits 10 power.natAbs
  'e' :: (if power < 0 then '-' else '+') :: (if digits.length < 2 then '0' :: digits else digits)

/-- A double in general notation. -/
def generalText (negative : Bool) (b : Binary) : String :=
  let sign := if negative then ['-'] else []
  if b.mantissa = 0 then String.ofList (sign ++ ['0'])
  else
    let (rounded, leading) := b.toSignificant
    let digits := Nat.toDigits 10 rounded
    let body :=
      if leading < leastPositional ∨ (generalDigits : Int) ≤ leading then
        digits.take 1 ++ pointed (withoutZeros (digits.drop 1)) ++ powerText leading
      else if leading < 0 then
        let zeros := List.replicate (-leading - 1).toNat '0'
        '0' :: pointed (zeros ++ withoutZeros digits)
      else
        let whole := leading.toNat + 1
        digits.take whole ++ pointed (withoutZeros (digits.drop whole))
    String.ofList (sign ++ body)

end Binary

end UnitCalculator
