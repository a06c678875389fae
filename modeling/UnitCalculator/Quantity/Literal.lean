import UnitCalculator.Decimal.Reading
import UnitCalculator.Quantity.Display
import UnitCalculator.Units.Resolution

/-!
# Quantity literals and conversion

A literal is a number, a unit, or a number directly before a unit; the number ends with the last
digit of the text. The value is scaled to SI units and the unit is kept for display. Conversion only
changes the unit for display.
-/

namespace UnitCalculator

/-- The number that a text spells. -/
def numberOf (text : List Char) : Outcome Decimal :=
  match Decimal.read? text with
  | some value => .ok value
  | none => .error (.malformed (.invalidNumber (String.ofList text)))

namespace Quantity

/-- Splits a text after its last digit sign. -/
def splitLiteral (text : List Char) : List Char × List Char :=
  let unit := (text.reverse.takeWhile fun c => !Text.isDigitSign c).reverse
  (text.take (text.length - unit.length), unit)

/-- The unit of a symbol, blanks around it aside. -/
def unitOf (symbol : String) : Outcome Quantity :=
  match Units.resolve? (Text.trimString symbol) with
  | some unit => .ok unit
  | none => .error (.of (.unknownUnit symbol))

/-- Reads a literal. -/
def ofLiteral (text : String) : Outcome Quantity := do
  let trimmed := Text.trim text.toList
  if trimmed.isEmpty then throw (.malformed .emptyLiteral)
  let (digits, symbol) := splitLiteral trimmed
  let digits := Text.trim digits
  let symbol := String.ofList (Text.trim symbol)
  let value ← if digits.isEmpty then pure (.ofNat 1) else numberOf digits
  if symbol.isEmpty then return number value
  let unit ← unitOf symbol
  let scaled ← within "unit conversion" (working.multiply value unit.value)
  return ⟨scaled, unit.dimension, some ⟨symbol, unit.value⟩⟩

/-- The same quantity, shown in another unit of its dimension. -/
def inUnit (q : Quantity) (symbol : String) : Outcome Quantity := do
  let unit ← unitOf symbol
  if unit.dimension ≠ q.dimension then mismatch q.dimension unit.dimension.text?
  return ⟨q.value, q.dimension, some ⟨symbol, unit.value⟩⟩

/-- The number of units of its dimension that a quantity is. -/
def magnitudeIn (q : Quantity) (symbol : String) : Outcome Decimal := do
  let unit ← unitOf symbol
  let _ ← q.inUnit symbol
  ofSignal (working.divide q.value unit.value)

end Quantity

end UnitCalculator
