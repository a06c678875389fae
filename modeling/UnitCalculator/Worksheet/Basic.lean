import UnitCalculator.Text.Lines
import UnitCalculator.Worksheet.Evaluation

/-!
# Worksheets

A worksheet holds lines of equations that share their variables. Lines can be changed one by one or
all together; the variables are those of the last evaluation.
-/

namespace UnitCalculator

/-- Lines of equations with the variables of the last evaluation. -/
structure Worksheet where
  lines : List String := []
  table : Table := []
  figures : Int := Quantity.defaultFigures
  catalogue : Catalogue := .standard

namespace Worksheet

/-- The position that an index means: a negative one counts from the end. -/
def position? (sheet : Worksheet) (index : Int) : Option Nat :=
  let position := if index < 0 then index + sheet.lines.length else index
  if 0 ≤ position ∧ position < sheet.lines.length then some position.toNat else none

/-- The worksheet with other lines. -/
def setLines (sheet : Worksheet) (lines : List String) : Worksheet := { sheet with lines }

/-- The worksheet with a line added at the end. -/
def add (sheet : Worksheet) (line : String) : Worksheet := sheet.setLines (sheet.lines ++ [line])

/-- The worksheet with a line replaced. -/
def update (sheet : Worksheet) (index : Int) (line : String) : Outcome Worksheet :=
  match sheet.position? index with
  | some position => .ok (sheet.setLines (sheet.lines.set position line))
  | none => .error .indexOutOfRange

/-- The worksheet without one of its lines. -/
def remove (sheet : Worksheet) (index : Int) : Outcome Worksheet :=
  match sheet.position? index with
  | some position => .ok (sheet.setLines (sheet.lines.eraseIdx position))
  | none => .error .indexOutOfRange

/-- The worksheet without lines and variables. -/
def clear (sheet : Worksheet) : Worksheet := { sheet with lines := [], table := [] }

/-- The names that lines assign, in order. -/
def assignedNames (sheet : Worksheet) : List String :=
  Text.sortNames (sheet.lines.filterMap fun line => VariableName.assigned? line.toList)

/-- Evaluates the lines. -/
def evaluation (sheet : Worksheet) : Evaluation :=
  let scheduled := do
    let admission ←
      Admission.ofLines sheet.catalogue sheet.assignedNames [] sheet.lines.zipIdx
    let count := admission.entries.length
    let schedule ← Schedule.ofEntries sheet.figures (count + 1) admission.entries
    return (schedule.entries, admission.reports ++ schedule.reports)
  match scheduled with
  | .error failure => .ended [] failure
  | .ok (entries, reports) =>
    let evaluation := Evaluation.ofEntries sheet.figures [] entries
    { evaluation with
      reports := evaluation.reports.map fun evaluated =>
        Report.inLineOrder sheet.lines.length (reports ++ evaluated) }

/-- Evaluates the lines and keeps the variables. -/
def evaluate (sheet : Worksheet) : Worksheet × Outcome (List Report) :=
  let evaluation := sheet.evaluation
  ({ sheet with table := evaluation.table }, evaluation.reports)

/-- The variables with the texts of their values. -/
def variableTexts (sheet : Worksheet) : Outcome (List (String × String)) :=
  sheet.table.mapM fun (name, value) => do return (name, ← value.text sheet.figures)

/-- The lines of an equation file. -/
def linesOfText (text : String) : List String :=
  (Text.splitLines (Text.unifyNewlines text.toList)).map String.ofList

/-- The equation file that holds some lines. -/
def textOfLines (lines : List String) : String :=
  String.ofList (Text.joinLines (lines.map String.toList))

end Worksheet

end UnitCalculator
