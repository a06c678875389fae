import UnitCalculator.Text.Blank
import UnitCalculator.Text.Digit

/-!
# Integers as text

An integer is a run of digits behind an optional sign. Single underscores may stand between digits,
and white space around the text does not count. Numerals are limited in length.
-/

namespace UnitCalculator.Text

/-- Digits up to which integers are read and written as text. -/
def numeralDigits : Nat := 4300

/-- Digits without the single underscores between them, `none` if an underscore stands elsewhere or
another character occurs; `behindDigit` tells that a digit comes before the text. -/
def ungroup? (isDigit : Char → Bool) (behindDigit : Bool) : List Char → Option (List Char)
  | [] => if behindDigit then some [] else none
  | c :: rest =>
    if isDigit c then (ungroup? isDigit true rest).map (c :: ·)
    else if c = '_' && behindDigit then ungroup? isDigit false rest
    else none

/-- Digits behind an optional sign, with the sign. -/
def signedDigits? (isDigit : Char → Bool) (text : List Char) : Option (Bool × List Char) :=
  let (negative, body) := match text with
    | '-' :: rest => (true, rest)
    | '+' :: rest => (false, rest)
    | _ => (false, text)
  (ungroup? isDigit false body).map (negative, ·)

/-- The integer with a sign and digits. -/
def integerOf (negative : Bool) (digits : List Char) : Int :=
  let n := (digitsValue? digits).getD 0
  if negative then -(n : Int) else n

/-- The integer that a text spells in digits of any script. -/
def integer? (text : String) : Option Int :=
  match signedDigits? isDecimalDigit (strip isWhiteSpace text.toList) with
  | some (negative, digits) =>
    if numeralDigits < digits.length then none else some (integerOf negative digits)
  | none => none

end UnitCalculator.Text
