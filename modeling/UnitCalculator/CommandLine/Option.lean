import UnitCalculator.Text.Numeral

/-!
# Options

An option has a long name and perhaps a short one. It is a flag, ends the program, or takes a text
or an integer as its value.
-/

namespace UnitCalculator.CommandLine

/-- Why reading arguments ends the program. -/
inductive Leave where
  | finished
  | misuse
  deriving DecidableEq

/-- Exit code of a program that ends while it reads its arguments. -/
def Leave.exitCode : Leave → Nat
  | .finished => 0
  | .misuse => 2

/-- What an option means. -/
inductive OptionKind where
  /-- The option is given or not. -/
  | flag
  /-- The option has a text as its value. -/
  | text
  /-- The option has an integer as its value. -/
  | integer
  /-- The option ends the program. -/
  | leave
  deriving DecidableEq

/-- An option with all its names, the first of which identifies it. -/
structure OptionRule where
  name : String
  shortName : Option String
  kind : OptionKind

/-- The option takes a value. -/
def OptionKind.takesValue : OptionKind → Bool
  | .flag | .leave => false
  | .text | .integer => true

namespace OptionRule

/-- All names of an option. -/
def names (rule : OptionRule) : List String := rule.name :: rule.shortName.toList

/-- Names of options, each with its option. -/
def named (rules : List OptionRule) : List (String × OptionRule) :=
  rules.flatMap fun rule => rule.names.map (·, rule)

/-- The option with a name. -/
def find? (rules : List OptionRule) (name : String) : Option OptionRule :=
  (named rules).lookup name

end OptionRule

/-- The value that an option is given. -/
inductive Setting where
  | flag
  | text (value : String)
  | integer (value : Int)
  /-- The option is given and has no value after all. -/
  | nothing
  deriving DecidableEq

/-- The value that an option of a kind takes from a text. -/
def OptionKind.setting : OptionKind → String → Except Leave Setting
  | .text, value => .ok (.text value)
  | .integer, value =>
    match Text.integer? value with
    | some n => .ok (.integer n)
    | none => .error .misuse
  | _, _ => .error .misuse

/-- The value that an option of a kind takes from a text that is attached to it; the divider is
none. -/
def OptionKind.attachedSetting (kind : OptionKind) (value : String) : Except Leave Setting :=
  if value = "--" then .ok .nothing else kind.setting value

end UnitCalculator.CommandLine
