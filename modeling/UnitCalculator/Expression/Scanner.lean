import UnitCalculator.Expression.Name
import UnitCalculator.Expression.Token
import UnitCalculator.Quantity.Literal

/-!
# Scanning expressions

The scanner takes the longest lexeme of the first sort that fits: a number, a lookup with its
bracket, a function name before a bracket, a bracket, an operator, and last a word. A word is split
into units and known variables: from its start the longest of these is taken, a unit where a
variable is as long, and scanning goes on behind it.
-/

namespace UnitCalculator

namespace Scanner

/-- Number of characters of a power of ten at the start of a text: a mark, an optional sign and
digits. -/
def powerLength (text : List Char) : Nat :=
  match text with
  | [] => 0
  | mark :: rest =>
    if mark = 'e' ∨ mark = 'E' then
      let signs := match rest with
        | '+' :: _ | '-' :: _ => 1
        | _ => 0
      let digits := ((rest.drop signs).takeWhile Text.isDecimalDigit).length
      if digits = 0 then 0 else 1 + signs + digits
    else 0

/-- Number of characters of digits with at most one point at the start of a text. -/
def digitsLength (text : List Char) : Nat :=
  let whole := (text.takeWhile Text.isDecimalDigit).length
  match text.drop whole with
  | '.' :: rest =>
    let fraction := (rest.takeWhile Text.isDecimalDigit).length
    if whole = 0 ∧ fraction = 0 then 0 else whole + 1 + fraction
  | _ => whole

/-- Number of characters of a number at the start of a text. -/
def numberLength (text : List Char) : Nat :=
  let digits := digitsLength text
  if digits = 0 then 0 else digits + powerLength (text.drop digits)

/-- A bracket opens at the start of a text, behind blanks. -/
def opensBracket (text : List Char) : Bool := (Text.trimLeft text).head? = some '('

/-- One of some names stands at the start of a text, before a bracket. -/
def callAt? (names : List String) (text : List Char) : Option String :=
  names.find? fun name => Text.startsWith name text && opensBracket (text.drop name.length)

/-- The text before the bracket that closes the current one, inside which `depth` others are
open. -/
def untilClosed? : Nat → List Char → Option (List Char)
  | _, [] => none
  | depth, '(' :: rest => (untilClosed? (depth + 1) rest).map ('(' :: ·)
  | 0, ')' :: _ => some []
  | depth + 1, ')' :: rest => (untilClosed? depth rest).map (')' :: ·)
  | depth, c :: rest => (untilClosed? depth rest).map (c :: ·)

/-- The text between the brackets behind a lookup name, and the number of characters up to the
closing one. -/
def argumentAt? (text : List Char) : Option (List Char × Nat) :=
  let blanks := (text.takeWhile Text.isBlank).length
  (untilClosed? 0 (text.drop (blanks + 1))).map fun argument =>
    (argument, blanks + argument.length + 2)

/-- First characters of words. -/
def startsWord (c : Char) : Bool := Text.isLatinLetter c || c = 'μ' || c = 'Ω'

/-- Further characters of words. -/
def continuesWord (c : Char) : Bool := startsWord c || Text.isLatinDigit c || c = '_'

/-- The unit with the longest symbol of at most `size` characters at the start of a text. -/
def unitAt? (text : List Char) : Nat → Option (String × Quantity)
  | 0 => none
  | size + 1 =>
    let symbol := String.ofList (text.take (size + 1))
    match Units.resolve? symbol with
    | some value => some (symbol, value)
    | none => unitAt? text size

/-- The unit or known variable that a word starts with. -/
def wordAt? (known : List String) (word : List Char) : Option Lexeme :=
  let unit := unitAt? word word.length
  let name := Text.longestAt? (known.filter (· ≠ "")) word
  match name, unit with
  | some name, some (symbol, value) =>
    if symbol.length < name.length then some (.reference name) else some (.unit symbol value)
  | some name, none => some (.reference name)
  | none, some (symbol, value) => some (.unit symbol value)
  | none, none => none

/-- What stands at a place of a text: nothing but a blank, or a lexeme, with the number of its
characters. -/
structure Piece where
  lexeme : Option Lexeme
  length : Nat

/-- The piece at the start of the rest of a text, which is not empty. -/
def pieceAt (catalogue : Catalogue) (known : List String) (source : String) (position : Nat)
    (c : Char) (rest : List Char) : Outcome Piece :=
  let text := c :: rest
  let digits := numberLength text
  if Text.isBlank c then .ok ⟨none, 1⟩
  else if digits ≠ 0 then do
    let number := text.take digits
    return ⟨some (.number (String.ofList number) (.number (← numberOf number))), digits⟩
  else match callAt? Catalogue.lookupNames text with
  | some name =>
    match argumentAt? (text.drop name.length) with
    | none => .error (.fault (.malformed (.unclosedLookup name)) (some source))
    | some (argument, length) => do
      let value ← catalogue.lookup name (String.ofList argument)
      let call := name ++ "(" ++ String.ofList (Text.trim argument) ++ ")"
      return ⟨some (.lookup call value), name.length + length⟩
  | none =>
    match callAt? Function.names text with
    | some name => .ok ⟨some (.function name), name.length⟩
    | none =>
      if c = '(' then .ok ⟨some .openBracket, 1⟩
      else if c = ')' then .ok ⟨some .closeBracket, 1⟩
      else match Operator.ofSign? c with
      | some op => .ok ⟨some (.operator op), 1⟩
      | none =>
        if startsWord c then
          let word := c :: rest.takeWhile continuesWord
          match wordAt? known word with
          | some lexeme => .ok ⟨some lexeme, lexeme.text.length⟩
          | none => .error (.of (.unrecognizedInput (String.ofList word) position))
        else
          let run := c :: rest.takeWhile (!Text.isBlank ·)
          .error (.of (.unrecognizedInput (String.ofList run) position))

/-- The tokens of a text from a position on. -/
def scan (catalogue : Catalogue) (known : List String) (source : String) :
    Nat → List Char → Outcome (List Token)
  | _, [] => .ok []
  | position, c :: rest => do
    let piece ← pieceAt catalogue known source position c rest
    let tokens ←
      scan catalogue known source (position + piece.length) (rest.drop (piece.length - 1))
    match piece.lexeme with
    | none => return tokens
    | some lexeme => return ⟨lexeme, position⟩ :: tokens
termination_by _ text => text.length
decreasing_by simp only [List.length_cons, List.length_drop]; omega

end Scanner

end UnitCalculator
