import UnitCalculator.Proofs.Expression.Name
import UnitCalculator.Proofs.Worksheet.Circularity
import UnitCalculator.Proofs.Worksheet.Reporting

/-!
# What a report says of its line

A line is reported without being evaluated if it does not compile or assigns a variable that an
earlier line assigns. Every other report is on an equation that is evaluated, or set aside in a
cycle, and says what the solution says: that the equation has no value, or which one it has. All
lines are compiled with the same names known.
-/

namespace UnitCalculator

namespace Report

/-- A report on an entry says what value it has with some bindings, or that it has none. -/
inductive Settles (figures : Int) (bindings : Bindings) (entry : Entry) : Report → Prop where
  /-- The entry has no value. -/
  | failed {fault : Fault} {report : Report} (hv : entry.value? bindings = none)
    (hr : Report.failed figures fault entry = .ok report) : Settles figures bindings entry report
  /-- The entry has the value that is shown. -/
  | evaluated {value : Quantity} {report : Report} (hv : entry.value? bindings = some value)
    (hr : Report.evaluated figures value entry = .ok report) :
    Settles figures bindings entry report

variable {figures : Int} {bindings : Bindings} {entry : Entry} {report : Report}

/-- A report on an entry is on its line. -/
theorem Settles.origin_eq (h : report.Settles figures bindings entry) :
    report.origin = entry.origin := by
  cases h with
  | failed hv hr => exact origin_of_failed hr
  | evaluated hv hr => exact origin_of_evaluated hr

/-- A report on an entry names the variable that the entry assigns. -/
theorem Settles.assigned_eq (h : report.Settles figures bindings entry) :
    report.assigned = entry.target? := by
  cases h with
  | failed hv hr =>
    obtain ⟨latex, -, rfl⟩ := failed_eq_ok_iff.mp hr
    rfl
  | evaluated hv hr =>
    obtain ⟨shown, latex, -, -, -, rfl⟩ := evaluated_eq_ok_iff.mp hr
    rfl

/-- What is shown of an entry is the text of its value in both forms. -/
theorem Settles.exists_value (h : report.Settles figures bindings entry) {shown : Shown}
    (hs : report.result = .ok shown) : ∃ value, entry.value? bindings = some value ∧
      value.text figures = .ok shown.text ∧ value.latex figures = .ok shown.latex := by
  cases h with
  | failed hv hr =>
    obtain ⟨latex, -, rfl⟩ := failed_eq_ok_iff.mp hr
    cases hs
  | @evaluated value _ hv hr =>
    obtain ⟨other, latex, ht, hl, -, rfl⟩ := evaluated_eq_ok_iff.mp hr
    obtain rfl := Except.ok.inj hs
    exact ⟨value, hv, ht, hl⟩

/-- An entry whose value can be shown is reported with it. -/
theorem Settles.result_eq (h : report.Settles figures bindings entry) {value : Quantity}
    (hv : entry.value? bindings = some value) {shown : Shown}
    (ht : value.text figures = .ok shown.text) (hl : value.latex figures = .ok shown.latex) :
    report.result = .ok shown := by
  cases h with
  | failed hnone hr =>
    rw [hv] at hnone
    cases hnone
  | evaluated hsome hr =>
    obtain rfl := Option.some.inj (hv.symm.trans hsome)
    obtain ⟨⟨text, valueLatex⟩, latex, htext, hlatex, -, rfl⟩ := evaluated_eq_ok_iff.mp hr
    obtain rfl : shown.text = text := Except.ok.inj (ht.symm.trans htext)
    obtain rfl : shown.latex = valueLatex := Except.ok.inj (hl.symm.trans hlatex)
    rfl

end Report

namespace Admission

variable {catalogue : Catalogue} {known assigned : List String}

/-- A line is rejected for the fault it does not compile for, or for a variable that it assigns
again. -/
theorem judge_error_cases {line : String} {fault : Fault}
    (h : judge catalogue known assigned line = .ok (.error fault)) :
    (∃ source, Equation.compile catalogue known line = .error (.fault fault source)) ∨
      ∃ equation name, Equation.compile catalogue known line = .ok equation ∧
        equation.target? = some name ∧ fault = .conflictingDefinitions name := by
  unfold judge at h
  cases hc : Equation.compile catalogue known line with
  | error failure =>
    rw [hc] at h
    cases failure with
    | fault cause source =>
      obtain rfl : cause = fault := by simpa using h
      exact .inl ⟨source, rfl⟩
    | _ => cases h
  | ok equation =>
    rw [hc] at h
    cases ht : equation.target? with
    | none => simp [ht] at h
    | some name =>
      by_cases hm : name ∈ assigned
      · refine .inr ⟨equation, name, rfl, ht, ?_⟩
        simpa [ht, hm, eq_comm] using h
      · simp [ht, hm] at h

/-- A report of an admission is on a line that is rejected. -/
theorem exists_judge_of_mem {lines : List (String × Nat)} {admission : Admission}
    (h : ofLines catalogue known assigned lines = .ok admission) {report : Report}
    (hm : report ∈ admission.reports) : ∃ index line fault before,
      judge catalogue known before line = .ok (.error fault) ∧
        report = .rejected index line fault := by
  induction lines generalizing assigned admission with
  | nil =>
    cases h
    cases hm
  | cons head rest ih =>
    obtain ⟨line, index⟩ := head
    rcases ofLines_cons_cases h with ⟨-, hr⟩ | ⟨fault, others, -, hj, hr, rfl⟩ |
      ⟨equation, others, -, -, hr, rfl⟩
    · exact ih hr hm
    · rcases List.mem_cons.mp hm with rfl | hm
      · exact ⟨index, line, fault, assigned, hj, rfl⟩
      · exact ih hr hm
    · exact ih hr hm

end Admission

namespace Evaluation

/-- Evaluating the scheduled entries one after the other reports on each what the solution says. -/
theorem settles_of_mem {figures : Int} {candidates scheduled : List Entry}
    (ha : Entry.Agreeing candidates) (hp : ∀ e ∈ candidates, e.Plain)
    (hs : scheduled ⊆ candidates) (hd : scheduled.Nodup)
    (hsorted : Graph.Sorted (Entry.dependents scheduled) scheduled)
    (haside : ∀ entry ∈ candidates, entry ∉ scheduled →
      entry.value? (Entry.solution candidates) = none)
    {done rest : List Entry} (hsplit : done ++ rest = scheduled) {table : Table}
    (ht : table.Holds (Entry.solution candidates) done) {reports : List Report}
    (h : (ofEntries figures table rest).reports = .ok reports) {report : Report}
    (hm : report ∈ reports) :
    ∃ entry ∈ rest, report.Settles figures (Entry.solution candidates) entry := by
  induction rest generalizing done table reports with
  | nil =>
    cases h
    cases hm
  | cons entry rest ih =>
    -- what the entry reads is bound in the table as in the solution, so it has the same value
    have hread : entry.value? table.bindings = entry.value? (Entry.solution candidates) :=
      Entry.value?_congr fun name =>
        bindings_eq_of_reads ha hp hd hsorted haside hsplit ht
    obtain ⟨first, next, others, hstep, ho, rfl⟩ := exists_step h
    have hnext := holds_of_step ha hp hs hd hsplit ht hread hstep
    rcases List.mem_cons.mp hm with rfl | hm
    · refine ⟨entry, List.mem_cons_self, ?_⟩
      cases hstep with
      | failed hv hr => exact .failed (hread.symm.trans (Entry.value_ok hv)) hr
      | evaluated hv hr => exact .evaluated (hread.symm.trans (Entry.value_ok hv)) hr
    · obtain ⟨other, hother, hsettles⟩ := ih (by simp [← hsplit]) hnext ho hm
      exact ⟨other, List.mem_cons_of_mem _ hother, hsettles⟩

end Evaluation

namespace Worksheet

/-- What a report of a worksheet says of its line. -/
inductive Verdict (sheet : Worksheet) : Report → Prop where
  /-- The line does not compile. -/
  | unread {index : Nat} {line : String} {fault : Fault} {source : Option String}
    (hc : Equation.compile sheet.catalogue sheet.assignedNames line =
      .error (.fault fault source)) : Verdict sheet (.rejected index line fault)
  /-- The line assigns a variable again. -/
  | again {index : Nat} {line name : String} {equation : Equation}
    (hc : Equation.compile sheet.catalogue sheet.assignedNames line = .ok equation)
    (ht : equation.target? = some name) :
    Verdict sheet (.rejected index line (.conflictingDefinitions name))
  /-- The line is solved. -/
  | settled {entry : Entry} {report : Report} (hm : entry ∈ sheet.candidates)
    (hs : report.Settles sheet.figures sheet.solution entry) : Verdict sheet report

variable {sheet : Worksheet}

/-- Every report of an evaluation is a verdict on its line. -/
theorem verdict_of_evaluate {reports : List Report} (h : sheet.evaluate.2 = .ok reports)
    {report : Report} (hm : report ∈ reports) : sheet.Verdict report := by
  obtain ⟨admission, schedule, evaluated, hadmit, hschedule, hevaluated, -, hmem⟩ :=
    exists_account h
  rcases (hmem report).mp hm with hrejected | haside | hdone
  · obtain ⟨index, line, fault, before, hj, rfl⟩ :=
      Admission.exists_judge_of_mem hadmit hrejected
    rcases Admission.judge_error_cases hj with ⟨source, hc⟩ | ⟨equation, name, hc, ht, rfl⟩
    · exact .unread hc
    · exact .again hc ht
  · obtain ⟨members, hmembers, entry, he, hr⟩ := (Schedule.mem_reports_iff
      sheet.nodup_candidates sheet.not_conflicting hschedule report).mp haside
    have hcycle := sheet.unravels.cycle members hmembers
    have hsub := Entry.subset_of_isCycle hcycle
    have hnone : entry.value? sheet.solution = none :=
      Entry.value?_solution_eq_none sheet.not_conflicting (fun _ => plain_of_mem_candidates)
        hcycle hsub he
    exact .settled (hsub he) (.failed hnone hr)
  · have hscheduled : sheet.scheduled ⊆ sheet.candidates := fun entry he =>
      sheet.unravels.perm.subset (List.mem_append_right _ he)
    have hdistinct : sheet.scheduled.Nodup :=
      (List.nodup_append.mp (sheet.unravels.perm.nodup_iff.mpr sheet.nodup_candidates)).2.1
    rw [entries_of_schedule hschedule] at hevaluated
    obtain ⟨entry, he, hs⟩ := Evaluation.settles_of_mem sheet.not_conflicting
      (fun _ => plain_of_mem_candidates) hscheduled hdistinct sheet.unravels.sorted
      (fun _ => value?_eq_none_of_not_mem) (List.nil_append _) (Table.Holds.nil _)
      hevaluated hdone
    exact .settled (hscheduled he) hs

/-- A candidate is the equation of its line, compiled with every name known that a line assigns. -/
theorem compile_of_mem_candidates {entry : Entry} (h : entry ∈ sheet.candidates) :
    (entry.equation.source, entry.place) ∈ sheet.lines.zipIdx ∧
      Equation.compile sheet.catalogue sheet.assignedNames entry.equation.source =
        .ok entry.equation := by
  obtain ⟨line, hm, -, hc⟩ := Entry.mem_ofLines.mp (List.mem_of_mem_filter h)
  rw [Equation.source_of_compile hc]
  exact ⟨hm, hc⟩

end Worksheet

end UnitCalculator
