import UnitCalculator.CommandLine.Program

/-!
# Entry point

Runs the program on the files of the machine.
-/

namespace UnitCalculator

open CommandLine Storage

/-- The environment variable that names a settings file. -/
def settingsVariable : String := "UNIT_CALCULATOR_CONFIG"

/-- The machine's code for a path through a file. -/
def underFileCode : UInt32 := 20

/-- The fault that an error of the machine means. -/
def faultOf : IO.Error → FileFault
  | .noFileOrDirectory .. => .missing
  | .inappropriateType _ code _ => if code = underFileCode then .underFile else .directory
  | .invalidArgument .. => .tooLong
  | _ => .directory

/-- Access to the files of the machine. -/
def machineFiles : FileAccess IO where
  read path := do
    try return .ok (← IO.FS.readBinFile path)
    catch error => return .error (faultOf error)
  write path bytes := do
    try return .ok (← IO.FS.writeBinFile path bytes)
    catch error => return .error (faultOf error)

/-- What is said when a command ends without a report. -/
def breakdownMessage : Breakdown → String
  | .calculation _ => "A result cannot be written"
  | .dataset _ => "A dataset cannot be used"
  | .settings _ => "The settings cannot be used"
  | .file _ => "A file cannot be used"

end UnitCalculator

section

open UnitCalculator CommandLine

/-- Runs the program. -/
def main (arguments : List String) : IO UInt32 := do
  match Request.ofArguments arguments with
  | .error leave => return leave.exitCode.toUInt32
  | .ok request =>
    let environment ← IO.getEnv settingsVariable
    match ← (respond machineFiles environment request).run with
    | .error breakdown =>
      IO.eprintln ("Error: " ++ breakdownMessage breakdown)
      return 1
    | .ok printout =>
      IO.print printout.output
      IO.eprint printout.errors
      return printout.exitCode.toUInt32

end
