import UnitCalculator.Binary.Double
import UnitCalculator.Decimal.Reading
import UnitCalculator.Json.Value
import UnitCalculator.Text.Numeral

/-!
# Typed fields

Records are read from JSON objects field by field. Integers may be given as numbers without a
fraction, as truth values or as text; decimals as numbers or as text. The text of an integer may
have white space around it, a sign, leading zeros, single underscores and a fraction of zeros. Every
way in which a field can be wrong has a kind.
-/

namespace UnitCalculator

namespace Json

/-- What is wrong with a field. -/
inductive FieldFault where
  | absent
  | noList
  | noText
  /-- A text with half of a surrogate pair in it. -/
  | brokenText
  | unfit
  | belowMinimum
  | aboveMaximum
  | noInteger
  /-- A text that spells no integer. -/
  | integerText
  /-- A text of more digits than numerals may have, or a number too large to be an integer. -/
  | integerSize
  | fraction
  | notFinite
  | noDecimal
  deriving DecidableEq

/-- Kind of a field fault, as answers name it. -/
def FieldFault.kind : FieldFault → String
  | .absent => "missing"
  | .noList => "list_type"
  | .noText => "string_type"
  | .brokenText => "string_unicode"
  | .unfit => "value_error"
  | .belowMinimum => "greater_than_equal"
  | .aboveMaximum => "less_than_equal"
  | .noInteger => "int_type"
  | .integerText => "int_parsing"
  | .integerSize => "int_parsing_size"
  | .fraction => "int_from_float"
  | .notFinite => "finite_number"
  | .noDecimal => "decimal_type"

/-- A text without a plus sign, behind which no minus sign can follow. -/
def dropPlus? : List Char → Option (List Char)
  | '+' :: '-' :: _ => none
  | '+' :: rest => some rest
  | text => some text

/-- A digit other than zero. -/
def isLeadingDigit (c : Char) : Bool := '1' ≤ c && c ≤ '9'

/-- A text behind its leading zeros, with underscores among them, up to a digit or a point. Before a
point and at the end the last character is kept, which is `last` if no other one was read. -/
def behindZeros? (last : Char) : List Char → Option (List Char)
  | [] => some [last]
  | c :: rest =>
    if c = '0' || c = '_' then behindZeros? c rest
    else if isLeadingDigit c then some (c :: rest)
    else if c = '.' then some (last :: c :: rest)
    else none

/-- A text of digits or with a minus sign, without leading zeros. -/
def dropZeros? : List Char → Option (List Char)
  | [] => none
  | c :: rest =>
    if c = '0' then behindZeros? c rest
    else if isLeadingDigit c || c = '-' then some (c :: rest)
    else none

/-- A text without a point and the zeros behind it, if only zeros are behind it. -/
def dropZeroFraction (text : List Char) : List Char :=
  let fraction := (text.dropWhile (· ≠ '.')).drop 1
  if !fraction.isEmpty && fraction.all (· = '0') then text.takeWhile (· ≠ '.') else text

/-- Two underscores stand side by side. -/
def hasDoubleUnderscore : List Char → Bool
  | [] => false
  | c :: rest => (c = '_' && rest.head? = some '_') || hasDoubleUnderscore rest

/-- A text without underscores, if each of them stands between two other characters. -/
def dropUnderscores (text : List Char) : List Char :=
  if text.head? = some '_' || text.getLast? = some '_' || hasDoubleUnderscore text then text
  else text.filter (· ≠ '_')

/-- A text in the form in which JSON writes integers, if it can be brought into it. -/
def plainInteger? (text : List Char) : Option (List Char) := do
  let text ← dropZeros? (← dropPlus? (Text.strip Text.isWhiteSpace text))
  return dropUnderscores (dropZeroFraction text)

/-- The integer that digits spell behind an optional minus sign. A zero has no digits before it or
behind it, and the length counts before what follows the digits. -/
def integerOfPlain (text : List Char) : Except FieldFault Int :=
  let (negative, body) := match text with
    | '-' :: rest => (true, rest)
    | _ => (false, text)
  let digits := body.takeWhile Text.isLatinDigit
  if body = ['0'] then .ok 0
  else if digits.isEmpty || digits.head? = some '0' then .error .integerText
  else if Text.numeralDigits < text.length - body.length + digits.length then .error .integerSize
  else if digits.length < body.length then .error .integerText
  else .ok (Text.integerOf negative digits)

/-- The integer that a text spells in ASCII digits. -/
def integerOfText (s : String) : Except FieldFault Int :=
  match plainInteger? s.toList with
  | none => .error .integerText
  | some text => integerOfPlain text

/-- Numbers from which on a double is too large for an integer, of either sign. -/
def wordBound : Nat := pow2 63

/-- The integer that a number is. -/
def integerOfReal (value : Decimal) : Except FieldFault Int :=
  match value.toDouble with
  | .finite s c e =>
    if c % pow10 (-e).toNat ≠ 0 then .error .fraction
    else
      let n := c / pow10 (-e).toNat * pow10 e.toNat
      if wordBound ≤ n then .error .integerSize else .ok (if s then -(n : Int) else n)
  | _ => .error .notFinite

/-- The integer that a value stands for. -/
def toInteger : Json → Except FieldFault Int
  | .integer n => .ok n
  | .boolean value => .ok (if value then 1 else 0)
  | .string s => integerOfText s
  | .real value => integerOfReal value
  | _ => .error .noInteger

/-- An integer between two bounds. -/
def toIntegerWithin (least greatest : Int) (value : Json) : Except FieldFault Int := do
  let n ← value.toInteger
  if n < least then throw .belowMinimum
  if greatest < n then throw .aboveMaximum
  return n

/-- An integer that is not negative. -/
def toNatural (value : Json) : Except FieldFault Nat := do
  let n ← value.toInteger
  if n < 0 then throw .belowMinimum
  return n.toNat

/-- The text that a value is. -/
def toText : Json → Except FieldFault String
  | .string s => if s.toList.any (surrogateOf? · |>.isSome) then .error .brokenText else .ok s
  | _ => .error .noText

/-- The finite decimal that a value stands for; other numbers than integers are read as doubles. -/
def toDecimal (value : Json) : Except FieldFault Decimal := do
  let number ← match value with
    | .integer n => pure (Decimal.ofInt n)
    | .real value => pure value.toDouble
    | .string s =>
      match Decimal.read? s.toList with
      | some number => pure number
      | none => throw .noDecimal
    | _ => throw .noDecimal
  if number.isFinite then return number else throw .notFinite

/-- A positive decimal. -/
def toPositive (value : Json) : Except FieldFault Decimal := do
  let number ← value.toDecimal
  if number.isZero || number.isNegative then throw .belowMinimum
  return number

/-- A decimal that is not negative. -/
def toUnsigned (value : Json) : Except FieldFault Decimal := do
  let number ← value.toDecimal
  if number.isNegative && !number.isZero then throw .belowMinimum
  return number

/-- The elements of an array. -/
def toList : Json → Except FieldFault (List Json)
  | .array elements => .ok elements
  | _ => .error .noList

/-- A field that has to be there. -/
def required {α : Type} (members : List (String × Json)) (name : String)
    (read : Json → Except FieldFault α) : Except FieldFault α :=
  match member? members name with
  | some value => read value
  | none => .error .absent

/-- A field that has a default. -/
def optional {α : Type} (members : List (String × Json)) (name : String) (default : α)
    (read : Json → Except FieldFault α) : Except FieldFault α :=
  match member? members name with
  | some value => read value
  | none => .ok default

end Json

end UnitCalculator
