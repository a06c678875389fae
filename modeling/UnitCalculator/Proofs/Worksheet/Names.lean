import UnitCalculator.Proofs.Worksheet.Verdict

/-!
# Names that are known to all lines

The names that are known when a worksheet is compiled are collected from its lines before any of
them is compiled. They include every variable that a compiled line assigns, wherever that line
stands, and all lines are compiled with the same names.
-/

namespace UnitCalculator

namespace Worksheet

open VariableName

variable {sheet : Worksheet}

/-- A name is known if a line assigns it. -/
theorem mem_assignedNames {v : String} :
    v ∈ sheet.assignedNames ↔ ∃ line ∈ sheet.lines, assigned? line.toList = some v := by
  rw [assignedNames, Text.mem_sortNames, List.mem_filterMap]

/-- The variable of a line that compiles is known. -/
theorem mem_assignedNames_of_compile {known : List String} {line v : String} {e : Equation}
    (hl : line ∈ sheet.lines) (hc : Equation.compile sheet.catalogue known line = .ok e)
    (ht : e.target? = some v) : v ∈ sheet.assignedNames :=
  mem_assignedNames.mpr ⟨line, hl, (Equation.target?_of_compile hc).symm.trans ht⟩

/-- A report names the variable that its line assigns, and the line is compiled with the names
known that all lines assign, or fails to. -/
theorem Verdict.compiled {report : Report} (h : sheet.Verdict report) :
    report.assigned = assigned? report.line.toList ∧
      ((∃ e, Equation.compile sheet.catalogue sheet.assignedNames report.line = .ok e ∧
        e.target? = report.assigned) ∨
      ∃ fault source, Equation.compile sheet.catalogue sheet.assignedNames report.line =
        .error (.fault fault source) ∧ report.result = .error fault) := by
  cases h with
  | unread hc => exact ⟨rfl, .inr ⟨_, _, hc, rfl⟩⟩
  | again hc ht => exact ⟨rfl, .inl ⟨_, hc, Equation.target?_of_compile hc⟩⟩
  | @settled entry _ hm hs =>
    obtain ⟨-, hc⟩ := compile_of_mem_candidates hm
    have hline : report.line = entry.equation.source := congrArg Prod.fst hs.origin_eq
    rw [hs.assigned_eq, hline]
    exact ⟨Equation.target?_of_compile hc, .inl ⟨entry.equation, hc, rfl⟩⟩

/-- Names are found in lines by looking for an identifier in front of a sign of assignment, and by
cutting lines at the first such sign, and both find the same. So the variable of every line that
compiles is known, and read as that variable, and all lines are compiled with these names known: a
report names the variable that its line assigns, and the line either compiles so or is reported
with the fault it has then. -/
theorem assignedNames_spec :
    (∀ (line : List Char) (v : String),
      (assigned? line = some v ↔ Assigns line v.toList) ∧
      (assigned? line = some v ↔ '=' ∈ line ∧
        Text.trim (line.takeWhile (· ≠ '=')) = v.toList ∧ isIdentifier v.toList = true)) ∧
    (∀ (sheet : Worksheet) (known : List String) (line v : String) (e : Equation),
      line ∈ sheet.lines → Equation.compile sheet.catalogue known line = .ok e →
      e.target? = some v →
      v ∈ sheet.assignedNames ∧
        Scanner.wordAt? sheet.assignedNames v.toList = some (.reference v)) ∧
    ∀ (sheet : Worksheet) (reports : List Report), sheet.evaluate.2 = .ok reports →
      reports.map (·.origin) = sheet.written ∧
      ∀ report ∈ reports, report.assigned = assigned? report.line.toList ∧
        ((∃ e, Equation.compile sheet.catalogue sheet.assignedNames report.line = .ok e ∧
          e.target? = report.assigned) ∨
        ∃ fault source, Equation.compile sheet.catalogue sheet.assignedNames report.line =
          .error (.fault fault source) ∧ report.result = .error fault) := by
  refine ⟨fun line v => ⟨assigned?_eq_some_iff, assigned?_eq_some_iff_trim⟩,
    fun sheet known line v e hl hc ht => ?_, fun sheet reports h => ⟨?_, fun report hm => ?_⟩⟩
  · have hknown := mem_assignedNames_of_compile hl hc ht
    exact ⟨hknown, Scanner.wordAt?_of_isValid (Equation.isValid_of_compile hc ht) hknown⟩
  · obtain ⟨_, _, _, -, -, -, horigin, -⟩ := exists_account h
    exact horigin
  · exact (verdict_of_evaluate h hm).compiled

/-- A worksheet whose first line reads a variable that a line below assigns, behind a wide space
and in front of two signs of assignment, the second of which keeps that line from compiling. -/
def forward : Worksheet := { lines := ["y = x + 1", "x = 2", "\u2003w = x = y"] }

/-- A variable is known above the line that assigns it, and what a line that does not compile
assigns is known as well. -/
theorem assignedNames_spec_forward :
    assigned? "\u2003w = x = y".toList = some "w" ∧
    Scanner.wordAt? forward.assignedNames "x".toList = some (.reference "x") ∧
    ∃ reports, forward.evaluate.2 = .ok reports ∧ reports.map (·.origin) = forward.written := by
  obtain ⟨hnames, hknown, hreports⟩ := assignedNames_spec
  have htarget : (Equation.compile .standard [] "x = 2").toOption.bind (·.target?) =
      some "x" := by decide +kernel
  have hok : forward.evaluate.2.toOption.isSome = true := by decide +kernel
  refine ⟨(hnames _ "w").2.mpr (by decide), ?_, ?_⟩
  · cases h : Equation.compile .standard [] "x = 2" with
    | error failure =>
      rw [h] at htarget
      cases htarget
    | ok e =>
      rw [h] at htarget
      exact (hknown forward [] "x = 2" "x" e (by decide) h htarget).2
  · cases h : forward.evaluate.2 with
    | error failure =>
      rw [h] at hok
      cases hok
    | ok reports => exact ⟨reports, rfl, (hreports forward reports h).1⟩

end Worksheet

end UnitCalculator
