import UnitCalculator.Worksheet.Dependency

/-!
# Reports on lines

Every line that is not blank gets one report. It carries either a value or a fault, and the equation
in LaTeX if the line compiles and conflicts with no earlier one.
-/

namespace UnitCalculator

/-- A value as it is shown. -/
structure Shown where
  text : String
  latex : String
  deriving DecidableEq

/-- What became of a line. -/
structure Report where
  index : Nat
  line : String
  assigned : Option String
  latex : Option String
  result : Except Fault Shown

namespace Report

/-- The line has a value. -/
def isOk (report : Report) : Bool :=
  match report.result with
  | .ok _ => true
  | .error _ => false

/-- Report on a line that is not evaluated. -/
def rejected (index : Nat) (line : String) (fault : Fault) : Report :=
  ⟨index, line, VariableName.assigned? line.toList, none, .error fault⟩

/-- Report on an entry that has no value. -/
def failed (figures : Int) (fault : Fault) (entry : Entry) : Outcome Report := do
  let latex ← entry.equation.latex figures
  return ⟨entry.place, entry.equation.source, entry.target?, some latex, .error fault⟩

/-- Report on an entry with its value. -/
def evaluated (figures : Int) (value : Quantity) (entry : Entry) : Outcome Report := do
  let text ← value.text figures
  let valueLatex ← value.latex figures
  let latex ← entry.equation.latex figures
  return ⟨entry.place, entry.equation.source, entry.target?, some latex, .ok ⟨text, valueLatex⟩⟩

/-- Reports in the order of the lines, of which there are `count`. -/
def inLineOrder (count : Nat) (reports : List Report) : List Report :=
  (List.range count).filterMap fun index => reports.find? fun report => report.index = index

end Report

end UnitCalculator
