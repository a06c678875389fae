import UnitCalculator.Json.Field
import UnitCalculator.Json.Reading
import UnitCalculator.Storage.Files

/-!
# Settings

Settings are read from a JSON object. Fields that are not given have defaults, and fields that are
not known are ignored.
-/

namespace UnitCalculator

/-- Levels of messages, by increasing weight. -/
inductive LogLevel where
  | debug
  | info
  | warning
  | error
  | critical
  deriving DecidableEq

namespace LogLevel

/-- The levels by name. -/
def table : List (String × LogLevel) :=
  [("DEBUG", .debug), ("INFO", .info), ("WARNING", .warning), ("ERROR", .error),
    ("CRITICAL", .critical)]

/-- Name of a level. -/
def name : LogLevel → String
  | .debug => "DEBUG"
  | .info => "INFO"
  | .warning => "WARNING"
  | .error => "ERROR"
  | .critical => "CRITICAL"

/-- A letter in upper case; the dotless i is an i. -/
def upperCase (c : Char) : Char := if c = 'ı' then 'I' else c.toUpper

/-- The level of a name in any case. -/
def ofName? (name : String) : Option LogLevel := table.lookup (name.map upperCase)

/-- A level is found by its name. -/
theorem ofName?_name (level : LogLevel) : ofName? level.name = some level := by
  cases level <;> decide +kernel

end LogLevel

/-- Settings of a calculator. -/
structure Settings where
  /-- Significant figures of results. -/
  figures : Int := 6
  logLevel : LogLevel := .warning
  /-- Directory of the datasets that replace the bundled ones. -/
  dataDirectory : Option String := none
  deriving DecidableEq

/-- Why settings cannot be used. -/
inductive SettingsFault where
  | file (fault : Storage.FileFault)
  | notJson
  | noObject
  | unfit (fault : Json.FieldFault)
  deriving DecidableEq

namespace Settings

/-- Least and greatest number of significant figures. -/
def figureBounds : Int × Int := (1, 50)

/-- The level that a value names. -/
def logLevelOf (value : Json) : Except Json.FieldFault LogLevel := do
  match LogLevel.ofName? (← value.toText) with
  | some level => return level
  | none => throw .unfit

/-- The directory that a value names, if any. -/
def directoryOf : Json → Except Json.FieldFault (Option String)
  | .null => .ok none
  | value => do return some (Storage.normalPath (← value.toText))

/-- The settings that the members of an object describe. -/
def ofMembers (members : List (String × Json)) : Except Json.FieldFault Settings := do
  let figures ←
    Json.optional members "sig_figs" 6 (Json.toIntegerWithin figureBounds.1 figureBounds.2)
  let logLevel ← Json.optional members "log_level" .warning logLevelOf
  let dataDirectory ← Json.optional members "data_dir" none directoryOf
  return ⟨figures, logLevel, dataDirectory⟩

/-- The settings that a text describes. -/
def ofText (text : String) : Except SettingsFault Settings :=
  match Json.ofText text with
  | .error _ => .error .notJson
  | .ok (.object members) => (ofMembers members).mapError .unfit
  | .ok _ => .error .noObject

/-- The first path that is given and not empty. -/
def pathOf (paths : List (Option String)) : Option String :=
  paths.findSome? fun path? => path?.filter fun path => !path.isEmpty

/-- The settings in a file, or the defaults if no file is named. -/
def load {m : Type → Type} [Monad m] (access : Storage.FileAccess m) :
    Option String → m (Except SettingsFault Settings)
  | none => return .ok {}
  | some path => do
    match ← access.readText path with
    | .ok text => return ofText text
    | .error fault => return .error (.file fault)

end Settings

end UnitCalculator
