import UnitCalculator.CommandLine.Request
import UnitCalculator.Reference.Dataset
import UnitCalculator.Settings
import UnitCalculator.Worksheet.Summary

/-!
# The program

A command reads its settings and its files, evaluates and reports. What it prints is collected and
returned with an exit code, unless a failure ends the command without any report.
-/

namespace UnitCalculator.CommandLine

open Storage

/-- What a command prints and the code it exits with. -/
structure Printout where
  exitCode : Nat
  output : String
  errors : String

/-- Why a command ends without a report. -/
inductive Breakdown where
  | calculation (failure : Failure)
  | dataset (fault : Reference.DatasetFault)
  | settings (fault : SettingsFault)
  | file (fault : FileFault)
  deriving DecidableEq

/-- Commands that read and write files. -/
abbrev Action (m : Type → Type) (α : Type) := ExceptT Breakdown m α

namespace Printout

/-- The command ends with a message. -/
def refused (message : String) : Printout := ⟨1, "", "Error: " ++ message ++ "\n"⟩

/-- Prints lines. -/
def printed (lines : List String) : Printout :=
  ⟨0, String.join (lines.map (· ++ "\n")), ""⟩

end Printout

/-- A text with blanks behind it up to a width. -/
def padded (width : Nat) (text : String) : String :=
  text ++ String.ofList (List.replicate (width - text.length) ' ')

/-- The line of a report. -/
def reportLine (latex : Bool) (report : Report) : String :=
  report.line ++ "  =>  " ++ match report.result with
    | .error fault => fault.kind ++ ": " ++ fault.message
    | .ok shown =>
      if latex then
        shown.text ++ "    [" ++ report.latex.getD "" ++ " = " ++ shown.latex ++ "]"
      else shown.text

/-- What is said about lines that have no value. -/
def failureCount (summary : Summary) : String :=
  if summary.failed.isEmpty then ""
  else "\n" ++ summary.failed.length.repr ++ " of " ++ summary.reports.length.repr ++
    " equations failed\n"

/-- The fault of a line makes the exit code one. -/
def exitCodeOf (summary : Summary) : Nat := if summary.failed.isEmpty then 0 else 1

section

variable {m : Type → Type} [Monad m] (access : FileAccess m)

/-- Passes on a result or ends the command. -/
def orBreak {α ε : Type} (breakdown : ε → Breakdown) (result : Except ε α) : Action m α :=
  ExceptT.mk (pure (result.mapError breakdown))

/-- Reports the results of a worksheet. -/
def report (options : ReportOptions) (output : Option String) (sheet : Worksheet) :
    Action m Printout := do
  let summary ← orBreak .calculation (Summary.ofWorksheet sheet)
  let code := exitCodeOf summary
  let json := summary.toJson.pretty 0
  match output with
  | some path =>
    let path := normalPath path
    orBreak .file (← ExceptT.lift (access.write path json.toUTF8))
    return ⟨code, "", "Results saved to " ++ path ++ "\n" ++ failureCount summary⟩
  | none =>
    let lines := if options.json then [json] else summary.reports.map (reportLine options.latex)
    return { Printout.printed lines with exitCode := code, errors := failureCount summary }

/-- The catalogue that settings name. -/
def catalogueOf (settings : Settings) : m (Except Reference.DatasetFault Catalogue) :=
  match settings.dataDirectory with
  | none => return .ok .standard
  | some directory => Catalogue.load access directory

/-- Significant figures of results. -/
def figuresOf (settings : Settings) (options : ReportOptions) : Int :=
  match options.figures with
  | none => settings.figures
  | some figures => if figures = 0 then settings.figures else figures

/-- Evaluates equations given as arguments. -/
def evaluateLines (settings : Settings) (lines : List String) (options : ReportOptions) :
    Action m Printout := do
  let catalogue ← orBreak .dataset (← ExceptT.lift (catalogueOf access settings))
  report access options none { lines, figures := figuresOf settings options, catalogue }

/-- A file that is no text. -/
def noText (file : String) : Printout := .refused (file ++ " is not valid UTF-8")

/-- Evaluates the lines of a file. -/
def evaluateFile (settings : Settings) (file : String) (output : Option String)
    (options : ReportOptions) : Action m Printout := do
  let file := normalPath file
  match ← ExceptT.lift (catalogueOf access settings) with
  | .error (.file .notText) => return noText file
  | .error fault => throw (.dataset fault)
  | .ok catalogue =>
    match ← ExceptT.lift (access.readText file) with
    | .error .missing => return .refused ("Equation file not found: " ++ file)
    | .error .notText => return noText file
    | .error fault => throw (.file fault)
    | .ok text =>
      let lines := Worksheet.linesOfText text
      let outcome ← report access options output
        { lines, figures := figuresOf settings options, catalogue }
      let start := "Evaluating " ++ lines.length.repr ++ " lines from " ++ file ++ "\n"
      return { outcome with errors := start ++ outcome.errors }

/-- The line of a unit. -/
def unitLine (symbol : String) : Outcome String := do
  let text ← (← Units.resolve symbol).text Quantity.defaultFigures
  let description := ((Units.named? symbol).map (·.description)).getD "SI"
  return "  " ++ padded 5 symbol ++ " " ++ padded 24 text ++ " " ++ description

/-- The line of a unit prefix. -/
def prefixLine (entry : String × Int) : String :=
  "  " ++ padded 3 entry.1 ++ " 1e" ++ intText entry.2

/-- Lists units and unit prefixes. -/
def listUnits : Action m Printout := do
  let units ← orBreak .calculation (Units.symbols.mapM unitLine)
  return .printed ("Units:" :: units ++ "\nPrefixes:" :: Units.prefixes.map prefixLine)

/-- Significant figures in which constants are listed. -/
def constantFigures : Int := 10

/-- The line of a constant. -/
def constantLine (constant : Reference.Constant) : Outcome String := do
  return "  " ++ padded 6 constant.symbol ++ " " ++ (← constant.quantity.text constantFigures)

/-- Lists constants. -/
def listConstants : Action m Printout := do
  let lines ← orBreak .calculation (Reference.physicalConstants.mapM constantLine)
  return .printed lines

/-- What a settings fault makes of a command: faults of the text are reported, and so is a path that
names no file. -/
def refuseSettings (fault : SettingsFault) : Action m Printout :=
  match fault with
  | .file .missing => return .refused "Settings file not found"
  | .file .nulCharacter => return .refused "Settings file not found"
  | .file .notText => return .refused "Settings are not valid UTF-8"
  | .notJson => return .refused "Settings are not valid JSON"
  | .unfit fault => return .refused ("Settings are not valid: " ++ fault.kind)
  | fault => throw (.settings fault)

/-- Carries out a command. -/
def execute (settings : Settings) : Command → Action m Printout
  | .evaluate equations options => evaluateLines access settings equations options
  | .run file output options => evaluateFile access settings file output options
  | .units => listUnits
  | .constants => listConstants

/-- Carries out a request; `environment` names a settings file in case the request names none.
Without a command nothing is read and nothing is printed. -/
def respond (environment : Option String) (request : Request) : Action m Printout := do
  match request.command with
  | none => return .printed []
  | some command =>
    let path := Settings.pathOf [request.settings, environment]
    match ← ExceptT.lift (Settings.load access path) with
    | .error fault => refuseSettings fault
    | .ok settings => execute access settings command

end

end UnitCalculator.CommandLine
