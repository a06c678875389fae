import UnitCalculator.Decimal.Basic
import UnitCalculator.Text.Blank
import UnitCalculator.Text.Digit

/-!
# Reading decimal numbers

A number text is digits with at most one point and at most one power of ten, `infinity`, or a NaN
with an optional payload, in any case and with an optional sign. Digits of every script count,
underscores are ignored, and so are blanks around the text. The number is kept as it is written,
as long as its exponents stay within the bounds of storage.
-/

namespace UnitCalculator

namespace Decimal

/-- Greatest exponent of the leading digit of a number that can be read. -/
def greatestExponent : Int := 999999999999999999

/-- Least exponent of the last digit of a number that can be read. -/
def leastExponent : Int := -1999999999999999997

/-- A number text in plain characters: blanks around it and underscores are left out, digits of
other scripts become ASCII ones, and any other character outside ASCII is refused. -/
def plainText? (text : List Char) : Option (List Char) :=
  (Text.trim text).filter (· ≠ '_') |>.mapM fun c =>
    if c.toNat < 128 then some c
    else (Text.digitValue? c).map Nat.digitChar

/-- The value of a run of ASCII digits, `none` if it is empty or holds another character. -/
def naturalOf? (digits : List Char) : Option Nat :=
  if digits.isEmpty || !digits.all Text.isLatinDigit then none else Text.digitsValue? digits

/-- Splits off an optional sign. -/
def signOf : List Char → Bool × List Char
  | '-' :: rest => (true, rest)
  | '+' :: rest => (false, rest)
  | text => (false, text)

/-- The integer that a power of ten is written as. -/
def powerOf? (text : List Char) : Option Int :=
  let (negative, digits) := signOf text
  (naturalOf? digits).map fun n => if negative then -(n : Int) else n

/-- Digits with at most one point: their value without the point and the number of digits behind
it. -/
def coefficientOf? (text : List Char) : Option (Nat × Nat) :=
  let whole := text.takeWhile (· ≠ '.')
  let fraction := (text.dropWhile (· ≠ '.')).drop 1
  (naturalOf? (whole ++ fraction)).map (·, fraction.length)

/-- A finite number text without its sign. -/
def unsignedOf? (text : List Char) : Option (Nat × Int) := do
  let isMark := fun c : Char => c = 'e' || c = 'E'
  let (coefficient, places) ← coefficientOf? (text.takeWhile (!isMark ·))
  let power ← match text.dropWhile (!isMark ·) with
    | [] => some 0
    | _ :: rest => powerOf? rest
  let exponent := power - places
  let leading := if coefficient = 0 then exponent else exponent + digitCount coefficient - 1
  if leading ≤ greatestExponent ∧ leastExponent ≤ exponent then some (coefficient, exponent)
  else none

/-- A NaN text without its sign and letters: nothing, or a payload. -/
def payloadOf? : List Char → Option Nat
  | [] => some 0
  | digits => naturalOf? digits

/-- Reads a number text. -/
def read? (text : List Char) : Option Decimal := do
  let plain ← plainText? text
  let (negative, body) := signOf plain
  let lower := body.map Char.toLower
  if lower = "inf".toList ∨ lower = "infinity".toList then some (.infinity negative)
  else if lower.take 3 = "nan".toList then
    (payloadOf? (lower.drop 3)).map (.nan negative false)
  else if lower.take 4 = "snan".toList then
    (payloadOf? (lower.drop 4)).map (.nan negative true)
  else (unsignedOf? body).map fun (c, e) => .finite negative c e

end Decimal

end UnitCalculator
