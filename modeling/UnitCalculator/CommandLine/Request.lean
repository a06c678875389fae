import UnitCalculator.CommandLine.Reading

/-!
# Commands

The program evaluates equations given as arguments or in a file, or lists units or constants.
Options before the command concern the program as a whole.
-/

namespace UnitCalculator.CommandLine

/-- How results are reported. -/
structure ReportOptions where
  /-- Significant figures; zero stands for those of the settings. -/
  figures : Option Int
  json : Bool
  latex : Bool

/-- Commands. -/
inductive Command where
  | evaluate (equations : List String) (options : ReportOptions)
  | run (file : String) (output : Option String) (options : ReportOptions)
  | units
  | constants

/-- A command, if one is given, with the settings file that is named. -/
structure Request where
  settings : Option String
  command : Option Command

namespace Request

/-- The option that explains the program. -/
def helpRule : OptionRule := ⟨"--help", some "-h", .leave⟩

/-- Options of the program as a whole. -/
def globalRules : List OptionRule :=
  [helpRule, ⟨"--version", none, .leave⟩, ⟨"--config", some "-c", .text⟩,
    ⟨"--verbose", some "-v", .flag⟩]

/-- Options of the commands that report results. -/
def reportRules : List OptionRule :=
  [helpRule, ⟨"--sig-figs", some "-s", .integer⟩, ⟨"--json", none, .flag⟩,
    ⟨"--latex", none, .flag⟩]

/-- The option that names a file for the results. -/
def outputRule : OptionRule := ⟨"--output", some "-o", .text⟩

/-- The options of a report that have been given. -/
def reportOptions (reading : Reading) : ReportOptions :=
  ⟨reading.integer? "--sig-figs", reading.hasFlag "--json", reading.hasFlag "--latex"⟩

/-- The command of a name with its arguments. -/
def commandOf (name : String) (arguments : List String) : Except Leave Command := do
  match name with
  | "eval" =>
    let reading ← Reading.ofTexts reportRules .many arguments
    return .evaluate reading.operands (reportOptions reading)
  | "run" =>
    let reading ← Reading.ofTexts (outputRule :: reportRules) .one arguments
    return .run (reading.operands.headD "") (reading.text? "--output") (reportOptions reading)
  | "units" =>
    let _ ← Reading.ofTexts [helpRule] .none arguments
    return .units
  | "constants" =>
    let _ ← Reading.ofTexts [helpRule] .none arguments
    return .constants
  | _ => throw .misuse

/-- The request that arguments make. -/
def ofArguments (arguments : List String) : Except Leave Request := do
  let roles ← Argument.ofTexts globalRules arguments
  let (reading, command?) ← Reading.upToOperand globalRules {} (roles.zip arguments)
  let command ← command?.mapM fun (name, arguments) => commandOf name arguments
  if reading.surplus then throw .misuse
  return ⟨reading.text? "--config", command⟩

end Request

end UnitCalculator.CommandLine
