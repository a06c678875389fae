import UnitCalculator.Decimal.Reading
import UnitCalculator.Failure
import UnitCalculator.Json.Value

/-!
# Reading JSON

Besides the standard forms, infinities and NaN are read as numbers. Control characters have to be
escaped in strings. Half of a surrogate pair can be escaped without its partner. The first fault in
a text is the one that counts, and an integer of too many digits is one of its own.
-/

namespace UnitCalculator

namespace Json

/-- Why a text is not read. -/
inductive TextFault where
  | malformed
  | longInteger
  deriving DecidableEq

/-- A part of a text, or a text that is malformed without it. -/
def orMalformed {α : Type} (part : Option α) : Except TextFault α :=
  match part with
  | some a => .ok a
  | none => .error .malformed

/-- Blanks between the parts of a text. -/
def isSpace (c : Char) : Bool := c = ' ' || c = '\t' || c = '\n' || c = '\r'

/-- A text without the blanks at its start. -/
def skipSpace (text : List Char) : List Char := text.dropWhile isSpace

/-- The text behind a word that it starts with. -/
def afterWord? (word : String) (text : List Char) : Option (List Char) :=
  if word.toList.isPrefixOf text then some (text.drop word.length) else none

/-- The value of a hexadecimal digit. -/
def hexDigit? (c : Char) : Option Nat :=
  if Text.isLatinDigit c then some (c.toNat - '0'.toNat)
  else if 'a' ≤ c && c ≤ 'f' then some (c.toNat - 'a'.toNat + 10)
  else if 'A' ≤ c && c ≤ 'F' then some (c.toNat - 'A'.toNat + 10)
  else none

/-- Four hexadecimal digits at the start of a text. -/
def unit? : List Char → Option (Nat × List Char)
  | a :: b :: c :: d :: rest => do
    return (((← hexDigit? a) * 16 + (← hexDigit? b)) * 256 + (← hexDigit? c) * 16 + (← hexDigit? d),
      rest)
  | _ => none

/-- The first code unit of a pair. -/
def isHighSurrogate (unit : Nat) : Bool := 0xD800 ≤ unit && unit < 0xDC00

/-- The second code unit of a pair. -/
def isLowSurrogate (unit : Nat) : Bool := 0xDC00 ≤ unit && unit < 0xE000

/-- The character that two surrogates stand for. -/
def ofSurrogates (high low : Nat) : Char :=
  Char.ofNat (0x10000 + (high - 0xD800) * 0x400 + (low - 0xDC00))

/-- The character that a code unit stands for on its own. -/
def ofUnit (unit : Nat) : Char :=
  Char.ofNat (if isSurrogate unit then standInOffset + unit else unit)

/-- The second code unit of a pair, escaped at the start of a text. -/
def lowUnit? : List Char → Option (Nat × List Char)
  | '\\' :: 'u' :: rest => (unit? rest).filter fun (unit, _) => isLowSurrogate unit
  | _ => none

/-- The character that an escape means whose code unit has been read. -/
def escapedUnit (unit : Nat) (rest : List Char) : Char × List Char :=
  match if isHighSurrogate unit then lowUnit? rest else none with
  | some (low, rest) => (ofSurrogates unit low, rest)
  | none => (ofUnit unit, rest)

/-- The character that an escape means, behind its backslash. -/
def escaped? : List Char → Option (Char × List Char)
  | '"' :: rest => some ('"', rest)
  | '\\' :: rest => some ('\\', rest)
  | '/' :: rest => some ('/', rest)
  | 'b' :: rest => some ('\x08', rest)
  | 'f' :: rest => some ('\x0c', rest)
  | 'n' :: rest => some ('\n', rest)
  | 'r' :: rest => some ('\r', rest)
  | 't' :: rest => some ('\t', rest)
  | 'u' :: rest => (unit? rest).map fun (unit, rest) => escapedUnit unit rest
  | _ => none

/-- A string behind its opening quote, in at most `fuel` characters; `before` holds those read so
far, the latest first. -/
def string? : Nat → List Char → List Char → Option (String × List Char)
  | 0, _, _ => none
  | _, _, [] => none
  | fuel + 1, before, c :: rest =>
    if c = '"' then some (String.ofList before.reverse, rest)
    else if c = '\\' then do
      let (c, rest) ← escaped? rest
      string? fuel (c :: before) rest
    else if c.toNat < 32 then none
    else string? fuel (c :: before) rest

/-- A run of digits at the start of a text, with the text behind it. -/
def splitDigits (text : List Char) : List Char × List Char :=
  (text.takeWhile Text.isLatinDigit, text.dropWhile Text.isLatinDigit)

/-- The digits behind a point at the start of a text, if there are any. -/
def splitFraction (text : List Char) : List Char × List Char :=
  match text with
  | '.' :: rest =>
    let (digits, rest) := splitDigits rest
    if digits.isEmpty then ([], text) else (digits, rest)
  | _ => ([], text)

/-- The power of ten at the start of a text, if there is one. -/
def splitPower (text : List Char) : Option Int × List Char :=
  match text with
  | [] => (none, text)
  | mark :: rest =>
    if mark ≠ 'e' ∧ mark ≠ 'E' then (none, text)
    else
      let (negative, rest) := Decimal.signOf rest
      let (digits, rest) := splitDigits rest
      match Decimal.naturalOf? digits with
      | none => (none, text)
      | some n => (some (if negative then -(n : Int) else n), rest)

/-- The digits before the point: a single zero, or digits that do not start with one. -/
def splitWhole (text : List Char) : List Char × List Char :=
  match text with
  | '0' :: rest => (['0'], rest)
  | _ => splitDigits text

/-- A number without its sign. -/
def readNumber (negative : Bool) (text : List Char) : Except TextFault (Json × List Char) := do
  let (whole, rest) := splitWhole text
  let (fraction, rest) := splitFraction rest
  let (power, rest) := splitPower rest
  let _ ← orMalformed (Decimal.naturalOf? whole)
  let n ← orMalformed (Decimal.naturalOf? (whole ++ fraction))
  if fraction.isEmpty && power.isNone then
    if Text.numeralDigits < whole.length then throw .longInteger
    return (.integer (if negative then -(n : Int) else n), rest)
  return (.real (.finite negative n (power.getD 0 - fraction.length)), rest)

/-- Words that are values, with the values. -/
def words : List (String × Json) :=
  [("null", .null), ("true", .boolean true), ("false", .boolean false),
    ("NaN", .real (.nan false false 0)), ("Infinity", .real (.infinity false)),
    ("-Infinity", .real (.infinity true))]

/-- A value that is neither a string, an array nor an object. -/
def readScalar (text : List Char) : Except TextFault (Json × List Char) :=
  let word? := words.findSome? fun (word, value) => (afterWord? word text).map (value, ·)
  match word?, text with
  | some result, _ => .ok result
  | none, '-' :: rest => readNumber true rest
  | none, _ => readNumber false text

mutual

/-- A value at the start of a text, in at most `fuel` parts. -/
def readValue : Nat → List Char → Except TextFault (Json × List Char)
  | 0, _ => .error .malformed
  | fuel + 1, text =>
    match text with
    | '"' :: rest =>
      orMalformed ((string? (rest.length + 1) [] rest).map fun (s, rest) => (.string s, rest))
    | '[' :: rest =>
      match skipSpace rest with
      | ']' :: rest => .ok (.array [], rest)
      | rest => readElements fuel [] rest
    | '{' :: rest =>
      match skipSpace rest with
      | '}' :: rest => .ok (.object [], rest)
      | rest => readMembers fuel [] rest
    | _ => readScalar text

/-- The elements of an array up to its closing bracket; `before` holds those read so far, the latest
first. -/
def readElements : Nat → List Json → List Char → Except TextFault (Json × List Char)
  | 0, _, _ => .error .malformed
  | fuel + 1, before, text => do
    let (value, rest) ← readValue fuel text
    match skipSpace rest with
    | ',' :: rest => readElements fuel (value :: before) (skipSpace rest)
    | ']' :: rest => return (.array (value :: before).reverse, rest)
    | _ => throw .malformed

/-- The members of an object up to its closing bracket; `before` holds those read so far, the latest
first. -/
def readMembers : Nat → List (String × Json) → List Char → Except TextFault (Json × List Char)
  | 0, _, _ => .error .malformed
  | fuel + 1, before, text =>
    match text with
    | '"' :: rest => do
      let (name, rest) ← orMalformed (string? (rest.length + 1) [] rest)
      match skipSpace rest with
      | ':' :: rest => do
        let (value, rest) ← readValue fuel (skipSpace rest)
        match skipSpace rest with
        | ',' :: rest => readMembers fuel ((name, value) :: before) (skipSpace rest)
        | '}' :: rest => return (.object ((name, value) :: before).reverse, rest)
        | _ => throw .malformed
      | _ => throw .malformed
    | _ => .error .malformed

end

/-- The value that a text spells. -/
def ofText (text : String) : Except TextFault Json := do
  let characters := text.toList
  let (value, rest) ← readValue (2 * characters.length + 1) (skipSpace characters)
  if (skipSpace rest).isEmpty then return value else throw .malformed

end Json

end UnitCalculator
