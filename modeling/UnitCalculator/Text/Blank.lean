/-!
# Blank characters

White space is the class of that name in the Unicode standard. The characters that separate words
are white space and the four ASCII information separators. Trimming removes a class from both ends
of a text and nowhere else.
-/

namespace UnitCalculator.Text

/-- White space outside ASCII, by code point. -/
def wideSpaces : List Nat :=
  [0x85, 0xA0, 0x1680, 0x2000, 0x2001, 0x2002, 0x2003, 0x2004, 0x2005, 0x2006, 0x2007, 0x2008,
    0x2009, 0x200A, 0x2028, 0x2029, 0x202F, 0x205F, 0x3000]

/-- White space: tab to carriage return, the space and the wide spaces. -/
def isWhiteSpace (c : Char) : Bool :=
  let point := c.toNat
  (9 ≤ point && point ≤ 13) || point = 0x20 || wideSpaces.contains point

/-- A character that separates words: white space or an information separator. -/
def isBlank (c : Char) : Bool := isWhiteSpace c || (0x1C ≤ c.toNat && c.toNat ≤ 0x1F)

/-- A text without the characters of a class at either end. -/
def strip (isPadding : Char → Bool) (text : List Char) : List Char :=
  ((text.dropWhile isPadding).reverse.dropWhile isPadding).reverse

/-- A text without the blanks at its start. -/
def trimLeft (text : List Char) : List Char := text.dropWhile isBlank

/-- A text without the blanks at either end. -/
def trim (text : List Char) : List Char := strip isBlank text

/-- A string without the blanks at either end. -/
def trimString (text : String) : String := String.ofList (trim text.toList)

/-- A text of blanks only, the empty one included. -/
def isBlankText (text : List Char) : Bool := text.all isBlank

/-- The blanks by code point: tab to carriage return, the information separators with the space
next to them, and the wide spaces. -/
theorem isBlank_iff {c : Char} :
    isBlank c = true ↔ (9 ≤ c.toNat ∧ c.toNat ≤ 13) ∨ (28 ≤ c.toNat ∧ c.toNat ≤ 32) ∨
      c.toNat ∈ wideSpaces := by
  simp only [isBlank, isWhiteSpace, Bool.or_eq_true, Bool.and_eq_true, decide_eq_true_eq,
    List.contains_eq_mem]
  constructor
  · rintro (((h | h) | h) | h)
    · exact .inl h
    · exact .inr (.inl (by omega))
    · exact .inr (.inr h)
    · exact .inr (.inl (by omega))
  · rintro (h | h | h)
    · exact .inl (.inl (.inl h))
    · by_cases hs : c.toNat = 32
      · exact .inl (.inl (.inr hs))
      · exact .inr (by omega)
    · exact .inl (.inr h)

end UnitCalculator.Text
