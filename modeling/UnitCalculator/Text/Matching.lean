/-!
# Matching names at the start of a text
-/

namespace UnitCalculator.Text

/-- A name stands at the start of a text. -/
def startsWith (name : String) (text : List Char) : Bool := name.toList.isPrefixOf text

/-- The longer of two names, the first one if they are equally long. -/
def longer (a b : String) : String := if a.length < b.length then b else a

/-- The longest of some names that stands at the start of a text. -/
def longestAt? (names : List String) (text : List Char) : Option String :=
  match names.filter fun name => startsWith name text with
  | [] => none
  | first :: others => some (others.foldl longer first)

/-- Entries by key, in the order of their first occurrence: a later entry replaces an earlier one
with the same key. -/
def keyed {α : Type} (key : α → String) (entries : List α) : List α :=
  entries.foldl (fun kept entry =>
    if kept.any fun other => key other = key entry then
      kept.map fun other => if key other = key entry then entry else other
    else kept ++ [entry]) []

end UnitCalculator.Text
