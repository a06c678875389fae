import UnitCalculator.Worksheet.Report

/-!
# Evaluating lines together

Lines are compiled with every variable known that some line assigns. Entries on a cycle of
dependencies are set aside with the fault of the cycle, and all others are evaluated in the order of
their dependencies. A fault ends nothing but the entry it occurs in. The whole evaluation ends only
where a number in a line cannot be compiled, a number cannot be shown, or an exponent of a dimension
is too long to be written.
-/

namespace UnitCalculator

/-- Values of variables in the order of their assignment. -/
abbrev Table := List (String × Quantity)

/-- The bindings that a table makes. -/
def Table.bindings (table : Table) : Bindings := fun name => table.lookup name

/-- A table in which the variable that an entry assigns, if any, has a value. -/
def Table.assign (table : Table) (entry : Entry) (value : Quantity) : Table :=
  match entry.target? with
  | some name => table ++ [(name, value)]
  | none => table

/-- The lines that are evaluated and the reports on those that are not. -/
structure Admission where
  entries : List Entry
  reports : List Report

namespace Admission

/-- Admits one more entry in front. -/
def withEntry (entry : Entry) (others : Admission) : Admission :=
  { others with entries := entry :: others.entries }

/-- Rejects one more line. -/
def withReport (report : Report) (others : Admission) : Admission :=
  { others with reports := report :: others.reports }

/-- The equation of a line, or the fault that it is rejected for: it does not compile, or assigns a
variable that is assigned already. -/
def judge (catalogue : Catalogue) (known assigned : List String) (line : String) :
    Outcome (Except Fault Equation) :=
  match Equation.compile catalogue known line with
  | .error (.fault cause _) => .ok (.error cause)
  | .error failure => .error failure
  | .ok equation =>
    match equation.target? with
    | none => .ok (.ok equation)
    | some name =>
      .ok (if name ∈ assigned then .error (.conflictingDefinitions name) else .ok equation)

/-- Compiles lines given with their indexes, blank ones excepted. -/
def ofLines (catalogue : Catalogue) (known : List String) (assigned : List String) :
    List (String × Nat) → Outcome Admission
  | [] => .ok ⟨[], []⟩
  | (line, index) :: lines =>
    if Text.isBlankText line.toList then ofLines catalogue known assigned lines
    else do
      match ← judge catalogue known assigned line with
      | .error fault =>
        return (← ofLines catalogue known assigned lines).withReport (.rejected index line fault)
      | .ok equation =>
        let assigned := equation.target?.toList ++ assigned
        return (← ofLines catalogue known assigned lines).withEntry ⟨index, equation⟩

end Admission

/-- Entries in the order of their dependencies and the reports on those that have none. -/
structure Schedule where
  entries : List Entry
  reports : List Report

/-- Sets aside the entries of one cycle after the other until the remaining ones have an order.
Every cycle takes at least one entry away, so as many attempts as there are entries, and one more,
are enough. -/
def Schedule.ofEntries (figures : Int) : Nat → List Entry → Outcome Schedule
  | 0, _ => .ok ⟨[], []⟩
  | attempts + 1, entries =>
    match Dependency.order entries with
    | .ok ordered => .ok ⟨ordered, []⟩
    | .error (.conflict entry) => .error (Disorder.conflict entry).failure
    | .error (.cycle members) => do
      let reports ← members.mapM (Report.failed figures (Disorder.cycle members).fault)
      let rest ← ofEntries figures attempts (entries.filter (· ∉ members))
      return { rest with reports := reports ++ rest.reports }

/-- The value of an entry or its fault; a decimal signal is a fault here. -/
def Entry.value (table : Table) (entry : Entry) : Outcome (Except Fault Quantity) :=
  match entry.equation.evaluate table.bindings with
  | .ok value => .ok (.ok value)
  | .error (.fault cause _) => .ok (.error cause)
  | .error (.signal cause) => .ok (.error (.outsideDomain (.arithmetic cause)))
  | .error failure => .error failure

/-- Values of variables, and the reports unless a failure ended the evaluation. -/
structure Evaluation where
  table : Table
  reports : Outcome (List Report)

namespace Evaluation

/-- An evaluation that a failure ended. -/
def ended (table : Table) (failure : Failure) : Evaluation := ⟨table, .error failure⟩

/-- An evaluation with one more report in front. -/
def report (report : Report) (others : Evaluation) : Evaluation :=
  { others with reports := others.reports.map (report :: ·) }

/-- Evaluates entries in order, starting with a table. -/
def ofEntries (figures : Int) (table : Table) : List Entry → Evaluation
  | [] => ⟨table, .ok []⟩
  | entry :: entries =>
    match entry.value table with
    | .error failure => ended table failure
    | .ok (.error fault) =>
      match Report.failed figures fault entry with
      | .error failure => ended table failure
      | .ok report => (ofEntries figures table entries).report report
    | .ok (.ok value) =>
      match Report.evaluated figures value entry with
      | .error failure => ended (table.assign entry value) failure
      | .ok report => (ofEntries figures (table.assign entry value) entries).report report

end Evaluation

end UnitCalculator
