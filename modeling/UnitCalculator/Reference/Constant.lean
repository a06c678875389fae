import UnitCalculator.Quantity.Basic
import UnitCalculator.Text.Matching

/-!
# Named constants
-/

namespace UnitCalculator.Reference

/-- A constant with its value in SI units. -/
structure Constant where
  symbol : String
  name : String
  value : Decimal
  dimension : Dimension

/-- The quantity that a constant is. -/
def Constant.quantity (c : Constant) : Quantity := .of c.value c.dimension

/-- The constant with a symbol among some constants. -/
def findConstant? (constants : List Constant) (symbol : String) : Option Quantity :=
  (constants.find? fun constant => constant.symbol = symbol).map (·.quantity)

/-- The constant with a symbol, or a fault that names the symbol. -/
def constant (constants : List Constant) (symbol : String) : Outcome Quantity :=
  match findConstant? constants symbol with
  | some quantity => .ok quantity
  | none => .error (.of (.unknownSymbol .constant symbol))

end UnitCalculator.Reference
