import UnitCalculator.CommandLine.Option

/-!
# Arguments

Arguments are options, which start with a hyphen, or operands. A long option may be abbreviated and
carry its value behind a sign of equality. A negative number and a text with a blank are operands
even where they start with a hyphen, and so is everything behind a double hyphen. All arguments have
their roles before the first of them is read, so an ambiguous abbreviation is misuse wherever it
stands.
-/

namespace UnitCalculator.CommandLine

/-- An argument with the role that its form gives it. -/
inductive Argument where
  | operand (text : String)
  | divider
  /-- An option with the name it is written with and a value that is attached to it. -/
  | option (written : String) (rule : OptionRule) (attached : Option String)
  | unknownOption

namespace Argument

/-- Splits a text at its first sign of equality. -/
def splitValue (text : String) : String × Option String :=
  let name := text.toList.takeWhile (· ≠ '=')
  match text.toList.drop name.length with
  | [] => (text, none)
  | _ :: value => (String.ofList name, some (String.ofList value))

/-- The options that a text can abbreviate, or that it starts with if they are short ones. -/
def candidates (rules : List OptionRule) (text : String) : List Argument :=
  match text.toList with
  | '-' :: '-' :: _ =>
    let (name, value) := splitValue text
    (OptionRule.named rules).filterMap fun (full, rule) =>
      if name.toList.isPrefixOf full.toList then some (.option full rule value) else none
  | first :: second :: value =>
    let name := String.ofList [first, second]
    (OptionRule.find? rules name).toList.map fun rule =>
      .option name rule (some (String.ofList value))
  | _ => []

/-- Digits, at least one. -/
def isDigits (text : List Char) : Bool := !text.isEmpty && text.all Text.isDecimalDigit

/-- A negative integer, or a negative number with digits behind a point. -/
def isNegativeNumber (text : List Char) : Bool :=
  match text with
  | '-' :: body =>
    let body := if body.getLast? = some '\n' then body.dropLast else body
    let whole := body.takeWhile Text.isDecimalDigit
    match body.drop whole.length with
    | [] => isDigits whole
    | '.' :: fraction => isDigits fraction
    | _ => false
  | _ => false

/-- The role of a text that starts with a hyphen and is no name of an option. -/
def ofHyphenated (rules : List OptionRule) (text : String) : Except Leave Argument :=
  match candidates rules text with
  | [argument] => .ok argument
  | _ :: _ :: _ => .error .misuse
  | [] =>
    if isNegativeNumber text.toList || text.toList.contains ' ' then .ok (.operand text)
    else .ok .unknownOption

/-- The role of a text. -/
def ofText (rules : List OptionRule) (text : String) : Except Leave Argument :=
  if text = "--" then .ok .divider
  else if text.toList.head? ≠ some '-' then .ok (.operand text)
  else match OptionRule.find? rules text with
    | some rule => .ok (.option text rule none)
    | none =>
      if text = "-" then .ok (.operand text)
      else
        let (name, value) := splitValue text
        match OptionRule.find? rules name with
        | some rule => .ok (.option name rule value)
        | none => ofHyphenated rules text

/-- The roles of texts; behind a divider all are operands. -/
def ofTexts (rules : List OptionRule) : List String → Except Leave (List Argument)
  | [] => .ok []
  | text :: texts => do
    match ← ofText rules text with
    | .divider => return .divider :: texts.map .operand
    | argument => return argument :: (← ofTexts rules texts)

end Argument

end UnitCalculator.CommandLine
