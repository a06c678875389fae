import UnitCalculator.Catalogue
import UnitCalculator.Quantity.Function
import UnitCalculator.Text.Digit
import UnitCalculator.Units.Resolution

/-!
# Variable names

A variable can be assigned if its name is an identifier that denotes no unit, function or lookup.
-/

namespace UnitCalculator

namespace VariableName

/-- Characters of an identifier after the first, which is a letter. -/
def isIdentifierChar (c : Char) : Bool := Text.isLatinLetter c || Text.isLatinDigit c || c = '_'

/-- A letter followed by letters, digits and underscores. -/
def isIdentifier : List Char → Bool
  | [] => false
  | c :: rest => Text.isLatinLetter c && rest.all isIdentifierChar

/-- A name that can be assigned. -/
def isValid (name : String) : Bool :=
  isIdentifier name.toList && !Function.names.contains name &&
    !Catalogue.lookupNames.contains name && (Units.resolve? name).isNone

/-- The name that a line assigns, found without reading the rest: the identifier before the first
sign of assignment. -/
def assigned? (line : List Char) : Option String :=
  let start := Text.trimLeft line
  let name := match start with
    | [] => []
    | c :: rest => if Text.isLatinLetter c then c :: rest.takeWhile isIdentifierChar else []
  if name.isEmpty then none
  else match Text.trimLeft (start.drop name.length) with
    | '=' :: _ => some (String.ofList name)
    | _ => none

end VariableName

end UnitCalculator
