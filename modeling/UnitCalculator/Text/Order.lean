/-!
# Names in order

Names are ordered by their code points. Sorting keeps one of several equal names.
-/

namespace UnitCalculator.Text

/-- A text comes strictly before another one. -/
def precedes : List Char → List Char → Bool
  | _, [] => false
  | [], _ :: _ => true
  | a :: s, b :: t => if a = b then precedes s t else a.toNat < b.toNat

/-- Inserts a name into sorted names, unless it is among them. -/
def insertName (name : String) : List String → List String
  | [] => [name]
  | first :: others =>
    if name = first then first :: others
    else if precedes name.toList first.toList then name :: first :: others
    else first :: insertName name others

/-- The names in order, each once. -/
def sortNames (names : List String) : List String := names.foldr insertName []

end UnitCalculator.Text
