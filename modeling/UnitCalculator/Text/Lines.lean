/-!
# Lines of a text

Reading a file first turns every carriage return, alone or before a line feed, into a line feed.
The lines of a text end at any Unicode line boundary; a boundary at the very end of the text
starts no further line.
-/

namespace UnitCalculator.Text

/-- Characters that end a line. -/
def isLineBoundary (c : Char) : Bool :=
  let point := c.toNat
  (10 ≤ point && point ≤ 13) || (0x1C ≤ point && point ≤ 0x1E) || point == 0x85 ||
    point == 0x2028 || point == 0x2029

/-- Writes every line end made of carriage returns as a line feed. -/
def unifyNewlines : List Char → List Char
  | [] => []
  | '\r' :: '\n' :: rest => '\n' :: unifyNewlines rest
  | c :: rest => (if c = '\r' then '\n' else c) :: unifyNewlines rest

/-- The lines of a text, without the characters that end them. -/
def splitLines : List Char → List (List Char)
  | [] => []
  | '\r' :: '\n' :: rest => [] :: splitLines rest
  | c :: rest =>
    if isLineBoundary c then [] :: splitLines rest
    else match splitLines rest with
      | [] => [[c]]
      | line :: lines => (c :: line) :: lines

/-- Lines joined into one text, each closed by a line feed. -/
def joinLines : List (List Char) → List Char
  | [] => []
  | line :: lines => line ++ '\n' :: joinLines lines

end UnitCalculator.Text
