import UnitCalculator.Proofs.Expression.Failure
import UnitCalculator.Proofs.Worksheet.Account

/-!
# Reports on cycles

A circular dependency is reported on lines that lie on a cycle of dependencies, and on all lines of
that cycle. Of every cycle some line is reported so. Since taking one cycle away can break another
that shares a line with it, the other lines of that one may be left to fail when they are evaluated.
A cycle that shares lines with no other is reported on all of its lines.
-/

namespace UnitCalculator

/-- The fault is a circular dependency. -/
def Fault.isCircular : Fault → Bool
  | .circularDependency .. => true
  | _ => false

/-- The failure is no circular dependency. -/
def Failure.IsStraight : Failure → Prop
  | .fault cause _ => cause.isCircular = false
  | _ => True

/-- Operations find no circular dependency. -/
theorem Failure.IsOperational.straight {failure : Failure} (h : failure.IsOperational) :
    failure.IsStraight := by
  cases h with
  | numeric h => cases h <;> trivial
  | _ => trivial

/-- Evaluating an expression finds no circular dependency. -/
theorem Failure.IsEvaluative.straight {failure : Failure} (h : failure.IsEvaluative) :
    failure.IsStraight := by
  cases h with
  | operational h => exact h.straight
  | undefinedVariable name => rfl

/-- Reference data and joined tokens tell of no circular dependency. -/
theorem Failure.IsReferential.straight {failure : Failure} (h : failure.IsReferential) :
    failure.IsStraight := by
  cases h with
  | operational h => exact h.straight
  | _ => trivial

/-- Compiling a text finds no circular dependency. -/
theorem Failure.IsTextual.straight {position : Nat} {text : List Char} {failure : Failure}
    (h : failure.IsTextual position text) : failure.IsStraight := by
  cases h with
  | referential h => exact h.straight
  | unrecognizedInput h => rfl

/-- The report tells a circular dependency. -/
def Report.isCircular (report : Report) : Bool :=
  match report.result with
  | .error fault => fault.isCircular
  | .ok _ => false

/-- Some report on an entry tells a circular dependency. -/
def Entry.IsBlamed (reports : List Report) (entry : Entry) : Prop :=
  ∃ report ∈ reports, report.index = entry.place ∧ report.isCircular = true

/-- A line is not rejected for a circular dependency. -/
theorem Admission.isCircular_of_judge {catalogue : Catalogue} {known assigned : List String}
    {line : String} {fault : Fault}
    (h : judge catalogue known assigned line = .ok (.error fault)) : fault.isCircular = false := by
  have htextual := Equation.failsBy_compile catalogue known line
  unfold judge at h
  cases hc : Equation.compile catalogue known line with
  | error failure =>
    have hstraight := (htextual failure hc).straight
    cases failure with
    | fault cause source =>
      obtain rfl : cause = fault := by simpa [hc] using h
      exact hstraight
    | _ => simp [hc] at h
  | ok equation =>
    cases ht : equation.target? with
    | none => simp [hc, ht] at h
    | some name =>
      by_cases hm : name ∈ assigned
      · obtain rfl : .conflictingDefinitions name = fault := by simpa [hc, ht, hm] using h
        rfl
      · simp [hc, ht, hm] at h

/-- No rejected line is reported as circular. -/
theorem Admission.isCircular_eq_false {catalogue : Catalogue} {known assigned : List String}
    {lines : List (String × Nat)} {admission : Admission}
    (h : ofLines catalogue known assigned lines = .ok admission) :
    ∀ report ∈ admission.reports, report.isCircular = false := by
  induction lines generalizing assigned admission with
  | nil =>
    cases h
    simp
  | cons head rest ih =>
    obtain ⟨line, index⟩ := head
    rcases ofLines_cons_cases h with ⟨-, hr⟩ | ⟨fault, others, -, hj, hr, rfl⟩ |
      ⟨equation, others, -, -, hr, rfl⟩
    · exact ih hr
    · exact List.forall_mem_cons.mpr ⟨isCircular_of_judge hj, ih hr⟩
    · intro report hm
      exact ih hr report hm

/-- A report with a fault tells that fault. -/
theorem Report.result_of_failed {figures : Int} {fault : Fault} {entry : Entry} {report : Report}
    (h : failed figures fault entry = .ok report) : report.result = .error fault := by
  obtain ⟨latex, -, hr⟩ := bind_eq_ok_iff.mp h
  obtain rfl := pure_eq_ok_iff.mp hr
  rfl

/-- The fault of an entry that is evaluated is no circular dependency. -/
theorem Entry.isCircular_of_value {table : Table} {entry : Entry} {fault : Fault}
    (h : entry.value table = .ok (.error fault)) : fault.isCircular = false := by
  have hevaluative := Tree.failsBy_evaluate table.bindings entry.equation.expression
  unfold Entry.value at h
  cases hv : entry.equation.evaluate table.bindings with
  | ok value => simp [hv] at h
  | error failure =>
    have hstraight := (hevaluative failure hv).straight
    cases failure with
    | fault cause source =>
      obtain rfl : cause = fault := by simpa [hv] using h
      exact hstraight
    | signal cause =>
      obtain rfl : .outsideDomain (.arithmetic cause) = fault := by simpa [hv] using h
      rfl
    | _ => simp [hv] at h

/-- A report with a value tells that value. -/
theorem Report.exists_result_of_evaluated {figures : Int} {value : Quantity} {entry : Entry}
    {report : Report} (h : evaluated figures value entry = .ok report) :
    ∃ shown, report.result = .ok shown := by
  obtain ⟨shown, latex, -, -, -, rfl⟩ := evaluated_eq_ok_iff.mp h
  exact ⟨shown, rfl⟩

/-- No evaluated line is reported as circular. -/
theorem Evaluation.isCircular_eq_false {figures : Int} {table : Table} {entries : List Entry}
    {reports : List Report} (h : (ofEntries figures table entries).reports = .ok reports) :
    ∀ report ∈ reports, report.isCircular = false := by
  induction entries generalizing table reports with
  | nil =>
    cases h
    simp
  | cons entry rest ih =>
    obtain ⟨report, next, others, hstep, ho, rfl⟩ := exists_step h
    refine List.forall_mem_cons.mpr ⟨?_, ih ho⟩
    rw [Report.isCircular]
    cases hstep with
    | failed hv hr =>
      rw [Report.result_of_failed hr]
      exact Entry.isCircular_of_value hv
    | evaluated hv hr =>
      obtain ⟨shown, hs⟩ := Report.exists_result_of_evaluated hr
      rw [hs]

namespace Schedule

variable {figures : Int} {attempts : Nat} {entries : List Entry} {schedule : Schedule}

/-- The reports of a schedule are those on the members of the cycles that are set aside, each with
the fault of its cycle. -/
theorem mem_reports_iff (hd : entries.Nodup) (hc : ¬ Entry.Conflicting entries)
    (h : ofEntries figures attempts entries = .ok schedule) (report : Report) :
    report ∈ schedule.reports ↔
      ∃ members ∈ (Dependency.unravel attempts entries).1, ∃ entry ∈ members,
        Report.failed figures (Disorder.cycle members).fault entry = .ok report := by
  rw [ofEntries_eq figures hd hc] at h
  obtain ⟨reports, hr, h⟩ := bind_eq_ok_iff.mp h
  obtain rfl := pure_eq_ok_iff.mp h
  rw [List.mem_flatten]
  constructor
  · rintro ⟨told, ht, hm⟩
    obtain ⟨members, hmembers, htold⟩ := exists_of_mem_mapM hr ht
    exact ⟨members, hmembers, exists_of_mem_mapM htold hm⟩
  · rintro ⟨members, hmembers, entry, he, hf⟩
    obtain ⟨told, ht, htold⟩ := exists_mem_of_mapM hr hmembers
    obtain ⟨other, ho, hother⟩ := exists_mem_of_mapM htold he
    obtain rfl := Except.ok.inj (hf.symm.trans hother)
    exact ⟨told, ht, ho⟩

/-- Every member of a cycle that is set aside has a report. -/
theorem exists_report (hd : entries.Nodup) (hc : ¬ Entry.Conflicting entries)
    (h : ofEntries figures attempts entries = .ok schedule) {members : Graph.Cycle Entry}
    (hm : members ∈ (Dependency.unravel attempts entries).1) {entry : Entry}
    (he : entry ∈ members) :
    ∃ report, Report.failed figures (Disorder.cycle members).fault entry = .ok report := by
  rw [ofEntries_eq figures hd hc] at h
  obtain ⟨reports, hr, -⟩ := bind_eq_ok_iff.mp h
  obtain ⟨told, -, htold⟩ := exists_mem_of_mapM hr hm
  obtain ⟨report, -, hreport⟩ := exists_mem_of_mapM htold he
  exact ⟨report, hreport⟩

end Schedule

namespace Worksheet

variable {sheet : Worksheet} {reports : List Report}

/-- No two cycles that are set aside share a line. -/
theorem pairwise_cycles (sheet : Worksheet) : sheet.cycles.Pairwise List.Disjoint := by
  have hd := sheet.unravels.perm.nodup_iff.mpr sheet.nodup_candidates
  exact (List.nodup_flatten.mp (List.nodup_append.mp hd).1).2

/-- Every cycle shares a line with one that is set aside. -/
theorem exists_mem_cycles (sheet : Worksheet) {other : Graph.Cycle Entry}
    (ho : Graph.IsCycle (Entry.dependents sheet.candidates) other) :
    ∃ members ∈ sheet.cycles, ¬ members.Disjoint other := by
  obtain ⟨members, hm, entry, he, hin⟩ := sheet.unravels.exists_aside sheet.nodup_candidates ho
  exact ⟨members, hm, fun hd => hd he hin⟩

/-- Circular dependencies are told on the cycles that are set aside, and on nothing else. -/
theorem isCircular_iff (h : sheet.evaluate.2 = .ok reports) (report : Report) :
    report ∈ reports ∧ report.isCircular = true ↔
      ∃ members ∈ sheet.cycles, ∃ entry ∈ members,
        Report.failed sheet.figures (Disorder.cycle members).fault entry = .ok report := by
  obtain ⟨admission, schedule, evaluated, hadmit, hschedule, hevaluated, -, hmem⟩ :=
    exists_account h
  have haside := Schedule.mem_reports_iff sheet.nodup_candidates sheet.not_conflicting hschedule
    report
  rw [cycles, ← haside, hmem]
  constructor
  · rintro ⟨hr | hr | hr, hcircular⟩
    · rw [Admission.isCircular_eq_false hadmit report hr] at hcircular
      cases hcircular
    · exact hr
    · rw [Evaluation.isCircular_eq_false hevaluated report hr] at hcircular
      cases hcircular
  · intro hr
    obtain ⟨members, -, entry, -, hf⟩ := haside.mp hr
    refine ⟨.inr (.inl hr), ?_⟩
    rw [Report.isCircular, Report.result_of_failed hf]
    rfl

/-- On every member of a cycle that is set aside its fault is told. -/
theorem tells_of_mem_cycles (h : sheet.evaluate.2 = .ok reports) {members : Graph.Cycle Entry}
    (hm : members ∈ sheet.cycles) {entry : Entry} (he : entry ∈ members) :
    ∃ report ∈ reports, report.index = entry.place ∧
      report.result = .error (Disorder.cycle members).fault := by
  obtain ⟨admission, schedule, evaluated, -, hschedule, -, -, -⟩ := exists_account h
  obtain ⟨report, hf⟩ := Schedule.exists_report sheet.nodup_candidates sheet.not_conflicting
    hschedule hm he
  have hr := ((isCircular_iff h report).mpr ⟨members, hm, entry, he, hf⟩).1
  have hplace : report.index = entry.place :=
    congrArg Prod.snd (Report.origin_of_failed hf)
  exact ⟨report, hr, hplace, Report.result_of_failed hf⟩

/-- Where circular dependencies are told: on the lines of some cycles of dependencies that share no
line with each other and between them a line with every cycle, and nowhere else. On a cycle that
shares lines only with cycles that run through all of its lines, one is told on every line. -/
theorem circular_reports_spec (h : sheet.evaluate.2 = .ok reports) :
    (∃ cycles : List (Graph.Cycle Entry),
      cycles.Pairwise List.Disjoint ∧
      (∀ members ∈ cycles, Graph.IsCycle (Entry.dependents sheet.candidates) members) ∧
      (∀ other, Graph.IsCycle (Entry.dependents sheet.candidates) other →
        ∃ members ∈ cycles, ¬ members.Disjoint other) ∧
      (∀ members ∈ cycles, ∀ entry ∈ members, ∃ report ∈ reports,
        report.index = entry.place ∧ report.result = .error (Disorder.cycle members).fault) ∧
      ∀ report ∈ reports, report.isCircular = true →
        ∃ members ∈ cycles, ∃ entry ∈ members, report.index = entry.place) ∧
    ∀ members, Graph.IsCycle (Entry.dependents sheet.candidates) members →
      (∀ other, Graph.IsCycle (Entry.dependents sheet.candidates) other →
        ¬ members.Disjoint other → members ⊆ other) →
      ∀ entry ∈ members, entry.IsBlamed reports := by
  have htold : ∀ members ∈ sheet.cycles, ∀ entry ∈ members, ∃ report ∈ reports,
      report.index = entry.place ∧ report.result = .error (Disorder.cycle members).fault :=
    fun _ hm _ he => tells_of_mem_cycles h hm he
  refine ⟨⟨sheet.cycles, sheet.pairwise_cycles, sheet.unravels.cycle, fun other ho => ?_, htold,
    fun report hr hcircular => ?_⟩, fun members hm hapart entry he => ?_⟩
  · exact sheet.exists_mem_cycles ho
  · obtain ⟨members, hm, entry, he, hf⟩ := (isCircular_iff h report).mp ⟨hr, hcircular⟩
    exact ⟨members, hm, entry, he, congrArg Prod.snd (Report.origin_of_failed hf)⟩
  · obtain ⟨aside, haside, hshared⟩ := sheet.exists_mem_cycles hm
    have hsub : members ⊆ aside :=
      hapart aside (sheet.unravels.cycle aside haside) fun hd => hshared (List.disjoint_symm hd)
    obtain ⟨report, hr, hindex, hresult⟩ := htold aside haside entry (hsub he)
    refine ⟨report, hr, hindex, ?_⟩
    rw [Report.isCircular, hresult]
    rfl

/-- A worksheet in which the first line lies on a cycle with each of the others. -/
def knotted : Worksheet := { lines := ["a = b + c", "b = a", "c = a"] }

/-- The first two lines of the knotted worksheet. -/
def loop : Graph.Cycle Entry := knotted.candidates.take 2

/-- The first two lines of the knotted worksheet are a cycle. -/
theorem isCycle_loop : Graph.IsCycle (Entry.dependents knotted.candidates) loop where
  nonempty := by decide +kernel
  distinct := by decide +kernel
  steps := by decide +kernel
  closes := by decide +kernel

/-- In the knotted worksheet a line on each cycle is told of, but not every line: the cycle of the
last line is set aside first, and the second line is left behind without the variable it reads. -/
theorem circular_reports_spec_knotted : ∃ reports, knotted.evaluate.2 = .ok reports ∧
    (∃ entry ∈ loop, entry.IsBlamed reports) ∧ ∃ entry ∈ loop, ¬ entry.IsBlamed reports := by
  have hok : knotted.evaluate.2.toOption.map (·.map fun report =>
      (report.index, report.isCircular)) = some [(0, true), (1, false), (2, true)] := by
    decide +kernel
  have hplace : ∃ entry ∈ loop, entry.place = 1 := by decide +kernel
  cases h : knotted.evaluate.2 with
  | error failure =>
    rw [h] at hok
    cases hok
  | ok reports =>
    rw [h] at hok
    have hmap : reports.map (fun report => (report.index, report.isCircular)) =
        [(0, true), (1, false), (2, true)] := Option.some.inj hok
    obtain ⟨cycles, -, -, hmeets, htold, -⟩ := (circular_reports_spec h).1
    obtain ⟨members, hm, hshared⟩ := hmeets loop isCycle_loop
    obtain ⟨entry, he, hin⟩ : ∃ entry, entry ∈ members ∧ entry ∈ loop := by
      simpa [List.Disjoint] using hshared
    obtain ⟨report, hr, hindex, hresult⟩ := htold members hm entry he
    refine ⟨reports, rfl, ⟨entry, hin, report, hr, hindex, ?_⟩, ?_⟩
    · rw [Report.isCircular, hresult]
      rfl
    · obtain ⟨entry, he, hentry⟩ := hplace
      refine ⟨entry, he, ?_⟩
      rintro ⟨report, hr, hindex, hcircular⟩
      have hpair : (report.index, report.isCircular) ∈ [(0, true), (1, false), (2, true)] :=
        hmap ▸ List.mem_map_of_mem hr
      rw [hindex, hentry, hcircular] at hpair
      simp at hpair

end Worksheet

end UnitCalculator
