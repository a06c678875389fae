import UnitCalculator.Quantity.Basic
import UnitCalculator.Text.Matching

/-!
# Chemical elements

A table of elements is asked by symbol or by atomic number. Its molar masses are given in grams per
mole and returned in SI units.
-/

namespace UnitCalculator.Reference

/-- An element with its standard molar mass in grams per mole. -/
structure Element where
  number : Nat
  symbol : String
  name : String
  molarMass : Decimal

/-- Elements with pairwise different symbols. -/
structure ElementTable where
  elements : List Element

namespace ElementTable

/-- The table of some elements: of two with the same symbol it holds the later one. -/
def ofList (elements : List Element) : ElementTable := ⟨Text.keyed (·.symbol) elements⟩

/-- The element with a symbol. -/
def find? (table : ElementTable) (symbol : String) : Option Element :=
  table.elements.find? fun element => element.symbol = symbol

/-- The element with an atomic number, the last one of several. -/
def ofNumber? (table : ElementTable) (number : Int) : Option Element :=
  table.elements.reverse.find? fun element => element.number = number

/-- The element with a symbol, or a fault that names the symbol. -/
def element (table : ElementTable) (symbol : String) : Outcome Element :=
  match table.find? symbol with
  | some element => .ok element
  | none => .error (.of (.unknownSymbol .element symbol))

/-- The longest symbol of the table at the start of a text. -/
def symbolAt? (table : ElementTable) (text : List Char) : Option String :=
  Text.longestAt? (table.elements.map (·.symbol)) text

/-- Dimension of molar masses. -/
def molar : Dimension := ⟨0, 0, 1, 0, 0, -1, 0⟩

/-- The standard molar mass of an element. -/
def molarMass (table : ElementTable) (symbol : String) : Outcome Quantity := do
  let element ← table.element symbol
  return .of (← ofSignal (working.divide element.molarMass (.ofNat 1000))) molar

end ElementTable

end UnitCalculator.Reference
