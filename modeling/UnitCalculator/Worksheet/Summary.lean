import UnitCalculator.Json.Writing
import UnitCalculator.Worksheet.Basic

/-!
# Summaries

A summary holds the reports on all lines and the variables with the texts of their values, and has a
form in JSON.
-/

namespace UnitCalculator

/-- A fault in JSON. -/
def Fault.toJson (fault : Fault) : Json :=
  .object [("kind", .string fault.kind), ("code", .integer fault.code),
    ("message", .string fault.message)]

/-- A report in JSON. -/
def Report.toJson (report : Report) : Json :=
  let (text, latex, fault) := match report.result with
    | .ok shown => (Json.string shown.text, Json.string shown.latex, Json.null)
    | .error fault => (.null, .null, fault.toJson)
  .object [("index", .integer report.index), ("equation", .string report.line),
    ("variable", .ofString? report.assigned), ("value", text), ("value_latex", latex),
    ("latex", .ofString? report.latex), ("error", fault)]

/-- What an evaluation tells its callers. -/
structure Summary where
  reports : List Report
  values : List (String × String)

namespace Summary

/-- Evaluates a worksheet and sums up. -/
def ofWorksheet (sheet : Worksheet) : Outcome Summary := do
  let (evaluated, outcome) := sheet.evaluate
  let reports ← outcome
  return ⟨reports, ← evaluated.variableTexts⟩

/-- The reports on lines that have no value. -/
def failed (summary : Summary) : List Report := summary.reports.filter (!·.isOk)

/-- A summary in JSON. -/
def toJson (summary : Summary) : Json :=
  .object [("results", .array (summary.reports.map (·.toJson))),
    ("variables", .object (summary.values.map fun (name, text) => (name, .string text)))]

end Summary

end UnitCalculator
