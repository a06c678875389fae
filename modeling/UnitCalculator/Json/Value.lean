import UnitCalculator.Decimal.Basic

/-!
# JSON values

Integers and numbers with a point or a power of ten are different values; the latter keep every
digit that is written. The members of an object stand in their given order, and of two with the
same name the later one counts. Half of a surrogate pair is no character: in a string a character of
the last plane for private use stands in for it.
-/

namespace UnitCalculator

/-- A JSON value. -/
inductive Json where
  | null
  | boolean (value : Bool)
  | integer (value : Int)
  | real (value : Decimal)
  | string (value : String)
  | array (elements : List Json)
  | object (members : List (String × Json))

namespace Json

/-- Distance of the characters that stand in for surrogates from the surrogates. -/
def standInOffset : Nat := 0x100000

/-- The code unit is half of a pair. -/
def isSurrogate (unit : Nat) : Bool := 0xD800 ≤ unit && unit < 0xE000

/-- The surrogate that a character stands in for. -/
def surrogateOf? (c : Char) : Option Nat :=
  if standInOffset ≤ c.toNat && isSurrogate (c.toNat - standInOffset) then
    some (c.toNat - standInOffset)
  else none

/-- The member of a name among the members of an object. -/
def member? (members : List (String × Json)) (name : String) : Option Json :=
  members.reverse.lookup name

/-- The member of a name of an object. -/
def field? (name : String) : Json → Option Json
  | .object members => member? members name
  | _ => none

/-- A string, or nothing. -/
def ofString? : Option String → Json
  | some s => .string s
  | none => .null

end Json

end UnitCalculator
