import UnitCalculator.Decimal.Arithmetic

/-!
# Numbers for display

A number is shown rounded to a number of significant figures, halves away from zero. Zeros that
end the digits behind the point are left out. The rounding may carry into a new leading digit, and
is then repeated from there.
-/

namespace UnitCalculator

namespace Decimal

/-- Digits of the format in which the unit of the last figure is formed. -/
def unitFormat : Format := ⟨28, 999999⟩

/-- Exponent of the unit of a last figure, as far as the format of units has it. -/
def unitExponent (exponent : Int) : Except Signal Int :=
  if 2 * (unitFormat.top + unitFormat.digits) < exponent.natAbs then .error .invalidOperation
  else if unitFormat.top < exponent then .error .overflow
  else .ok (max unitFormat.tiny exponent)

/-- A number as a multiple of the unit of its last figure, counted from its leading digit or from
that of another number. -/
def roundFigures (value leading : Decimal) (figures : Int) : Except Signal Decimal := do
  working.quantize value (← unitExponent (leading.adjusted - figures + 1))

/-- A number rounded to significant figures. -/
def rounded (value : Decimal) (figures : Int) : Except Signal Decimal := do
  let first ← roundFigures value value figures
  if first.adjusted = value.adjusted then return first
  roundFigures first first figures

/-- Splits a number text before its power of ten. -/
def splitPower (text : List Char) : List Char × List Char :=
  (text.takeWhile (· ≠ 'E'), text.dropWhile (· ≠ 'E'))

/-- Digits without zeros that end the part behind the point, nor a point that ends them. -/
def trimFraction (digits : List Char) : List Char :=
  if digits.contains '.' then
    let kept := digits.reverse.dropWhile (· = '0')
    (if kept.head? = some '.' then kept.drop 1 else kept).reverse
  else digits

/-- Text of a number in significant figures. -/
def display (value : Decimal) (figures : Int) : Except Signal String :=
  if value.isZero then .ok "0"
  else do
    let (digits, power) := splitPower (← value.rounded figures).text.toList
    return String.ofList (trimFraction digits ++ power)

/-- A number text in LaTeX, its power of ten as a product. -/
def latexOfText (text : String) : String :=
  let (digits, power) := splitPower text.toList
  match power with
  | [] => text
  | _ :: exponent =>
    String.ofList (digits ++ "*10^\x7b".toList ++ exponent.dropWhile (· = '+') ++ ['\x7d'])

end Decimal

end UnitCalculator
