import UnitCalculator.Binary.General
import UnitCalculator.Decimal.Reading
import UnitCalculator.Quantity.Basic

/-!
# Exchange in base units

A quantity is handed to other programs as a double and a product of powers of base units, written by
name. The exponents are written in general notation, and what a text spells is read as the nearest
double, which is a rational number again.
-/

namespace UnitCalculator

/-- A magnitude with exponents of the base units as they are written. -/
structure BaseForm where
  magnitude : Decimal
  exponents : List String

namespace BaseForm

/-- Names of the base units in the order of the exponents of a dimension. -/
def unitNames : List String :=
  ["second", "meter", "kilogram", "ampere", "kelvin", "mole", "candela"]

/-- An exponent in general notation, unless it exceeds every double. -/
def exponentText (exponent : Rat) : Outcome String :=
  match Binary.nearestDouble? exponent.num.natAbs exponent.den with
  | some b => .ok (b.generalText (exponent < 0))
  | none => .error .infiniteExponent

/-- The rational number that the text of an exponent stands for. -/
def exponentOf (text : String) : Rat :=
  match Decimal.read? text.toList with
  | some (.finite s c e) =>
    match Decimal.doubleOf? c e with
    | some b =>
      let (n, d) := b.quotient
      mkRat (if s then -(n : Int) else n) d
    | none => 0
  | _ => 0

/-- The powers of base units that occur in a dimension. -/
def unitsOf (dimension : Dimension) : Outcome String := do
  let exponents ← dimension.exponents.mapM exponentText
  let powers := (unitNames.zip (exponents.zip dimension.exponents)).filterMap
    fun (name, text, exponent) => if exponent = 0 then none else some (name ++ " ** " ++ text)
  return if powers.isEmpty then "dimensionless" else " * ".intercalate powers

/-- The base form of a quantity. -/
def ofQuantity (q : Quantity) : Outcome BaseForm := do
  let exponents ← q.dimension.exponents.mapM exponentText
  match q.value with
  | .nan _ true _ => throw .signalingNaN
  | value => return ⟨value.toDouble, exponents⟩

/-- The quantity of a base form. -/
def quantity (form : BaseForm) : Outcome Quantity := do
  return .of form.magnitude (← Dimension.ofExponents (form.exponents.map exponentOf))

end BaseForm

end UnitCalculator
