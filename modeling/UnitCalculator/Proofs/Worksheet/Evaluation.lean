import UnitCalculator.Proofs.Worksheet.Solution
import UnitCalculator.Proofs.Worksheet.Unravelling
import UnitCalculator.Worksheet.Basic

/-!
# Evaluating a worksheet

The equations of a worksheet are those of its lines that compile, except for later assignments of a
variable that is assigned already. Sorting them by their dependencies, setting cycles aside and
evaluating one after the other computes the solution of these equations.
-/

namespace UnitCalculator

namespace Entry

/-- The entry assigns nothing, or is the first that assigns its variable. -/
def isFirst (entries : List Entry) (entry : Entry) : Bool :=
  match entry.target? with
  | none => true
  | some name => entries.find? (·.target? = some name) = some entry

/-- The compiled equations of lines that are given with their indexes, blank ones excepted. -/
def ofLines (catalogue : Catalogue) (known : List String) (lines : List (String × Nat)) :
    List Entry :=
  lines.filterMap fun (line, index) =>
    if Text.isBlankText line.toList then none
    else (Equation.compile catalogue known line).toOption.map fun equation => ⟨index, equation⟩

end Entry

namespace Worksheet

/-- The lines that compile, with every variable known that a line assigns. -/
def compiled (sheet : Worksheet) : List Entry :=
  Entry.ofLines sheet.catalogue sheet.assignedNames sheet.lines.zipIdx

/-- The lines that compile and assign no variable which an earlier one of them assigns. -/
def candidates (sheet : Worksheet) : List Entry :=
  sheet.compiled.filter (Entry.isFirst sheet.compiled)

/-- The least solution of the lines that are evaluated. -/
def solution (sheet : Worksheet) : Bindings := Entry.solution sheet.candidates

end Worksheet

namespace Report

/-- A report with a fault shows the equation of its entry. -/
theorem failed_eq_ok_iff {figures : Int} {fault : Fault} {entry : Entry} {report : Report} :
    failed figures fault entry = .ok report ↔ ∃ latex, entry.equation.latex figures = .ok latex ∧
      report =
        ⟨entry.place, entry.equation.source, entry.target?, some latex, .error fault⟩ := by
  constructor
  · intro h
    obtain ⟨latex, hlatex, hr⟩ := bind_eq_ok_iff.mp h
    exact ⟨latex, hlatex, (pure_eq_ok_iff.mp hr).symm⟩
  · rintro ⟨latex, hlatex, rfl⟩
    exact bind_eq_ok_iff.mpr ⟨latex, hlatex, rfl⟩

/-- A report with a value shows the value and the equation of its entry. -/
theorem evaluated_eq_ok_iff {figures : Int} {value : Quantity} {entry : Entry}
    {report : Report} :
    evaluated figures value entry = .ok report ↔ ∃ (shown : Shown) (latex : String),
      value.text figures = .ok shown.text ∧ value.latex figures = .ok shown.latex ∧
      entry.equation.latex figures = .ok latex ∧
      report = ⟨entry.place, entry.equation.source, entry.target?, some latex, .ok shown⟩ := by
  constructor
  · intro h
    obtain ⟨text, ht, h⟩ := bind_eq_ok_iff.mp h
    obtain ⟨valueLatex, hl, h⟩ := bind_eq_ok_iff.mp h
    obtain ⟨latex, hlatex, hr⟩ := bind_eq_ok_iff.mp h
    exact ⟨⟨text, valueLatex⟩, latex, ht, hl, hlatex, (pure_eq_ok_iff.mp hr).symm⟩
  · rintro ⟨⟨text, valueLatex⟩, latex, ht, hl, hlatex, rfl⟩
    exact bind_eq_ok_iff.mpr ⟨text, ht, bind_eq_ok_iff.mpr ⟨valueLatex, hl,
      bind_eq_ok_iff.mpr ⟨latex, hlatex, rfl⟩⟩⟩

/-- A report on the line of an entry gives the text of its value with some bindings, or a fault if
it has none. -/
def Tells (figures : Int) (bindings : Bindings) (report : Report) (entry : Entry) : Prop :=
  report.index = entry.place ∧
    match entry.value? bindings with
    | some value => ∃ shown, report.result = .ok shown ∧ value.text figures = .ok shown.text
    | none => ∃ fault, report.result = .error fault

/-- Reports tell of some entries: of every one of them, and of nothing else. -/
structure Cover (figures : Int) (bindings : Bindings) (reports : List Report)
    (entries : List Entry) : Prop where
  /-- Every entry has a report. -/
  every : ∀ entry ∈ entries, ∃ report ∈ reports, report.Tells figures bindings entry
  /-- Every report is on an entry. -/
  only : ∀ report ∈ reports, ∃ entry ∈ entries, report.Tells figures bindings entry

variable {figures : Int} {bindings : Bindings}

/-- No reports are needed for no entries. -/
theorem Cover.nil : Cover figures bindings [] [] := ⟨by simp, by simp⟩

/-- One more report for one more entry. -/
theorem Cover.cons {report : Report} {entry : Entry} {reports : List Report}
    {entries : List Entry} (h : report.Tells figures bindings entry)
    (hc : Cover figures bindings reports entries) :
    Cover figures bindings (report :: reports) (entry :: entries) where
  every := by
    intro other ho
    rcases List.mem_cons.mp ho with rfl | ho
    · exact ⟨report, List.mem_cons_self, h⟩
    · obtain ⟨found, hf, ht⟩ := hc.every other ho
      exact ⟨found, List.mem_cons_of_mem _ hf, ht⟩
  only := by
    intro other ho
    rcases List.mem_cons.mp ho with rfl | ho
    · exact ⟨entry, List.mem_cons_self, h⟩
    · obtain ⟨found, hf, ht⟩ := hc.only other ho
      exact ⟨found, List.mem_cons_of_mem _ hf, ht⟩

/-- The reports on some entries beside those on others. -/
theorem Cover.append {reports others : List Report} {entries more : List Entry}
    (h : Cover figures bindings reports entries) (ho : Cover figures bindings others more) :
    Cover figures bindings (reports ++ others) (entries ++ more) where
  every := by
    intro entry he
    rcases List.mem_append.mp he with he | he
    · obtain ⟨report, hr, ht⟩ := h.every entry he
      exact ⟨report, List.mem_append_left _ hr, ht⟩
    · obtain ⟨report, hr, ht⟩ := ho.every entry he
      exact ⟨report, List.mem_append_right _ hr, ht⟩
  only := by
    intro report hr
    rcases List.mem_append.mp hr with hr | hr
    · obtain ⟨entry, he, ht⟩ := h.only report hr
      exact ⟨entry, List.mem_append_left _ he, ht⟩
    · obtain ⟨entry, he, ht⟩ := ho.only report hr
      exact ⟨entry, List.mem_append_right _ he, ht⟩

/-- A report with a fault tells of an entry without a value. -/
theorem tells_of_failed {fault : Fault} {entry : Entry} {report : Report}
    (h : failed figures fault entry = .ok report) (hv : entry.value? bindings = none) :
    report.Tells figures bindings entry := by
  obtain ⟨latex, -, rfl⟩ := failed_eq_ok_iff.mp h
  rw [Tells, hv]
  exact ⟨rfl, fault, rfl⟩

/-- A report with a value tells of the entry that has it. -/
theorem tells_of_evaluated {value : Quantity} {entry : Entry} {report : Report}
    (h : evaluated figures value entry = .ok report) (hv : entry.value? bindings = some value) :
    report.Tells figures bindings entry := by
  obtain ⟨shown, latex, ht, -, -, rfl⟩ := evaluated_eq_ok_iff.mp h
  rw [Tells, hv]
  exact ⟨rfl, shown, rfl, ht⟩

/-- Reports with faults on groups of entries that have no value. -/
theorem cover_of_mapM_failed {fault : List Entry → Fault} {groups : List (List Entry)}
    {reports : List (List Report)}
    (h : groups.mapM (fun members => members.mapM (failed figures (fault members))) = .ok reports)
    (hv : ∀ entry ∈ groups.flatten, entry.value? bindings = none) :
    Cover figures bindings reports.flatten groups.flatten where
  every := by
    intro entry he
    obtain ⟨members, hm, hin⟩ := List.mem_flatten.mp he
    obtain ⟨group, hgroup, hmembers⟩ := exists_mem_of_mapM h hm
    obtain ⟨report, hr, hf⟩ := exists_mem_of_mapM hmembers hin
    exact ⟨report, List.mem_flatten.mpr ⟨group, hgroup, hr⟩, tells_of_failed hf (hv entry he)⟩
  only := by
    intro report hr
    obtain ⟨group, hgroup, hin⟩ := List.mem_flatten.mp hr
    obtain ⟨members, hm, hmembers⟩ := exists_of_mem_mapM h hgroup
    obtain ⟨entry, he, hf⟩ := exists_of_mem_mapM hmembers hin
    have hentry := List.mem_flatten.mpr ⟨members, hm, he⟩
    exact ⟨entry, hentry, tells_of_failed hf (hv entry hentry)⟩

end Report

namespace Entry

/-- The compiled equations of the lines behind a first one. -/
theorem ofLines_cons {catalogue : Catalogue} {known : List String} {line : String} {index : Nat}
    {lines : List (String × Nat)} :
    ofLines catalogue known ((line, index) :: lines) =
      (if Text.isBlankText line.toList then []
        else (Equation.compile catalogue known line).toOption.toList.map (⟨index, ·⟩)) ++
        ofLines catalogue known lines := by
  rw [ofLines, List.filterMap_cons, ← ofLines]
  by_cases hb : Text.isBlankText line.toList = true
  · simp [hb]
  · cases hr : (Equation.compile catalogue known line).toOption <;> simp [hb, hr]

/-- Compiled lines are the equations of lines that are not blank and compile. -/
theorem mem_ofLines {catalogue : Catalogue} {known : List String}
    {lines : List (String × Nat)} {entry : Entry} :
    entry ∈ ofLines catalogue known lines ↔
      ∃ line, (line, entry.place) ∈ lines ∧ Text.isBlankText line.toList = false ∧
        Equation.compile catalogue known line = .ok entry.equation := by
  induction lines with
  | nil => simp [ofLines]
  | cons head rest ih =>
    obtain ⟨line, index⟩ := head
    obtain ⟨place, equation⟩ := entry
    rw [ofLines_cons, List.mem_append, ih]
    constructor
    · rintro (h | ⟨other, hm, hb, hc⟩)
      · by_cases hb : Text.isBlankText line.toList = true
        · simp [hb] at h
        · cases hr : Equation.compile catalogue known line with
          | error failure => simp [hb, hr, Except.toOption] at h
          | ok other =>
            obtain ⟨rfl, rfl⟩ : place = index ∧ equation = other := by
              simpa [hb, hr, Except.toOption] using h
            exact ⟨line, by simp, by simpa using hb, hr⟩
      · exact ⟨other, List.mem_cons_of_mem _ hm, hb, hc⟩
    · rintro ⟨other, hm, hb, hc⟩
      rcases List.mem_cons.mp hm with he | hm
      · obtain ⟨rfl, rfl⟩ : other = line ∧ place = index := by simpa using he
        left
        simp [hb, hc, Except.toOption]
      · exact .inr ⟨other, hm, hb, hc⟩

/-- Compiled lines keep their indexes. -/
theorem place_mem_of_mem_ofLines {catalogue : Catalogue} {known : List String}
    {lines : List (String × Nat)} {entry : Entry} (h : entry ∈ ofLines catalogue known lines) :
    entry.place ∈ lines.map (·.2) := by
  obtain ⟨line, hm, -, -⟩ := mem_ofLines.mp h
  exact List.mem_map.mpr ⟨_, hm, rfl⟩

/-- Compiled lines assign nothing inside their expressions. -/
theorem plain_of_mem_ofLines {catalogue : Catalogue} {known : List String}
    {lines : List (String × Nat)} {entry : Entry} (h : entry ∈ ofLines catalogue known lines) :
    entry.Plain := by
  obtain ⟨line, -, -, hc⟩ := mem_ofLines.mp h
  exact Equation.plain_of_compile hc

/-- An entry behind another one is the first to assign its variable if it is so among the entries
behind that one, which does not assign it. -/
theorem isFirst_cons {first entry : Entry} {entries : List Entry} (hne : entry ≠ first) :
    isFirst (first :: entries) entry =
      (isFirst entries entry && entry.target?.all (· ∉ first.target?.toList)) := by
  cases ht : entry.target? with
  | none => simp [isFirst, ht]
  | some name =>
    by_cases hf : first.target? = some name
    · simp [isFirst, ht, hf, hne.symm]
    · have hnot : name ∉ first.target?.toList := by
        rw [Option.mem_toList]
        exact hf
      simp [isFirst, ht, hf]

/-- A first entry that assigns a new variable or none is kept, and behind it those entries that
do not assign its variable. -/
theorem filter_isFirst_of_new {first : Entry} {entries : List Entry} {assigned : List String}
    (hfresh : first ∉ entries) (hnew : first.target?.all (· ∉ assigned) = true) :
    (first :: entries).filter (fun entry =>
        isFirst (first :: entries) entry && entry.target?.all (· ∉ assigned)) =
      first :: entries.filter (fun entry => isFirst entries entry &&
        entry.target?.all (· ∉ first.target?.toList ++ assigned)) := by
  have hself : isFirst (first :: entries) first = true := by
    cases ht : first.target? <;> simp [isFirst, ht]
  rw [List.filter_cons_of_pos (by rw [hself, hnew]; rfl)]
  congr 1
  refine List.filter_congr fun entry hm => ?_
  have hne : entry ≠ first := fun he => hfresh (he ▸ hm)
  rw [isFirst_cons hne]
  cases entry.target? <;> simp [Bool.and_assoc]

/-- A first entry that assigns a variable again is dropped, and takes no other entry with it. -/
theorem filter_isFirst_of_old {first : Entry} {entries : List Entry} {assigned : List String}
    (hfresh : first ∉ entries) (hold : first.target?.all (· ∉ assigned) = false) :
    (first :: entries).filter (fun entry =>
        isFirst (first :: entries) entry && entry.target?.all (· ∉ assigned)) =
      entries.filter (fun entry => isFirst entries entry &&
        entry.target?.all (· ∉ assigned)) := by
  obtain ⟨name, ht, hassigned⟩ : ∃ name, first.target? = some name ∧ name ∈ assigned := by
    cases ht : first.target? <;> simp_all
  rw [List.filter_cons_of_neg (by rw [hold, Bool.and_false]; exact Bool.false_ne_true)]
  refine List.filter_congr fun entry hm => ?_
  have hne : entry ≠ first := fun he => hfresh (he ▸ hm)
  rw [isFirst_cons hne]
  cases entry.target? with
  | none => simp
  | some other => by_cases ho : other = name <;> simp [ht, ho, hassigned]

/-- Among the first entries that assign their variables, none conflict. -/
theorem agreeing_filter_isFirst (entries : List Entry) :
    Agreeing (entries.filter (isFirst entries)) := by
  rintro ⟨a, ha, b, hb, hne, name, hta, htb⟩
  have hfa := (List.mem_filter.mp ha).2
  have hfb := (List.mem_filter.mp hb).2
  simp only [isFirst, hta, decide_eq_true_eq] at hfa
  simp only [isFirst, htb, decide_eq_true_eq] at hfb
  rw [hfa] at hfb
  exact hne (Option.some.inj hfb)

end Entry

namespace Admission

variable {catalogue : Catalogue} {known assigned : List String}

/-- An equation is accepted if its line compiles to it and it assigns a new variable or none. -/
theorem judge_ok {line : String} {equation : Equation}
    (h : judge catalogue known assigned line = .ok (.ok equation)) :
    Equation.compile catalogue known line = .ok equation ∧
      equation.target?.all (· ∉ assigned) = true := by
  unfold judge at h
  cases hc : Equation.compile catalogue known line with
  | error failure => cases failure <;> simp [hc] at h
  | ok other =>
    cases ht : other.target? with
    | none =>
      obtain rfl : other = equation := by simpa [hc, ht] using h
      simp [ht]
    | some name =>
      by_cases hm : name ∈ assigned
      · simp [hc, ht, hm] at h
      · obtain rfl : other = equation := by simpa [hc, ht, hm] using h
        simp [ht, hm]

/-- A line is rejected only if it does not compile or assigns a variable that is assigned
already. -/
theorem judge_error {line : String} {fault : Fault}
    (h : judge catalogue known assigned line = .ok (.error fault)) {equation : Equation}
    (hc : Equation.compile catalogue known line = .ok equation) :
    equation.target?.all (· ∉ assigned) = false := by
  unfold judge at h
  rw [hc] at h
  cases ht : equation.target? with
  | none => simp [ht] at h
  | some name =>
    by_cases hm : name ∈ assigned
    · simp [hm]
    · simp [ht, hm] at h

/-- What becomes of a first line: it is blank, or rejected, or admitted. -/
theorem ofLines_cons_cases {line : String} {index : Nat} {lines : List (String × Nat)}
    {admission : Admission}
    (h : ofLines catalogue known assigned ((line, index) :: lines) = .ok admission) :
    (Text.isBlankText line.toList = true ∧
      ofLines catalogue known assigned lines = .ok admission) ∨
    (∃ fault others, Text.isBlankText line.toList = false ∧
      judge catalogue known assigned line = .ok (.error fault) ∧
      ofLines catalogue known assigned lines = .ok others ∧
      admission = others.withReport (.rejected index line fault)) ∨
    ∃ equation others, Text.isBlankText line.toList = false ∧
      judge catalogue known assigned line = .ok (.ok equation) ∧
      ofLines catalogue known (equation.target?.toList ++ assigned) lines = .ok others ∧
      admission = others.withEntry ⟨index, equation⟩ := by
  rw [ofLines] at h
  by_cases hb : Text.isBlankText line.toList = true
  · rw [if_pos hb] at h
    exact .inl ⟨hb, h⟩
  · rw [if_neg hb] at h
    replace hb := Bool.eq_false_iff.mpr hb
    right
    obtain ⟨judged, hj, h⟩ := bind_eq_ok_iff.mp h
    cases judged with
    | error fault =>
      obtain ⟨others, ho, h⟩ := bind_eq_ok_iff.mp h
      exact .inl ⟨fault, others, hb, hj, ho, (pure_eq_ok_iff.mp h).symm⟩
    | ok equation =>
      obtain ⟨others, ho, h⟩ := bind_eq_ok_iff.mp h
      exact .inr ⟨equation, others, hb, hj, ho, (pure_eq_ok_iff.mp h).symm⟩

/-- The entries and the reports of an admission have the indexes of different lines. -/
theorem subperm_of_ofLines {lines : List (String × Nat)} {admission : Admission}
    (h : ofLines catalogue known assigned lines = .ok admission) :
    (admission.entries.map (·.place) ++ admission.reports.map (·.index)).Subperm
      (lines.map (·.2)) := by
  induction lines generalizing assigned admission with
  | nil =>
    cases h
    exact List.Subperm.refl _
  | cons head rest ih =>
    obtain ⟨line, index⟩ := head
    rcases ofLines_cons_cases h with ⟨-, hr⟩ | ⟨fault, others, -, -, hr, rfl⟩ |
      ⟨equation, others, -, -, hr, rfl⟩
    · exact (ih hr).trans (List.sublist_cons_self _ _).subperm
    · exact List.perm_middle.subperm.trans ((List.subperm_cons index).mpr (ih hr))
    · exact (List.subperm_cons index).mpr (ih hr)

/-- The entries of an admission are the first ones of the lines to assign their variables. -/
theorem entries_of_ofLines {lines : List (String × Nat)} (hd : (lines.map (·.2)).Nodup)
    {admission : Admission} (h : ofLines catalogue known assigned lines = .ok admission) :
    admission.entries = (Entry.ofLines catalogue known lines).filter fun entry =>
      Entry.isFirst (Entry.ofLines catalogue known lines) entry &&
        entry.target?.all (· ∉ assigned) := by
  induction lines generalizing assigned admission with
  | nil =>
    cases h
    rfl
  | cons head rest ih =>
    obtain ⟨line, index⟩ := head
    obtain ⟨hindex, hdrest⟩ := List.nodup_cons.mp hd
    have hfresh : ∀ equation, (⟨index, equation⟩ : Entry) ∉ Entry.ofLines catalogue known rest :=
      fun equation hm => hindex (Entry.place_mem_of_mem_ofLines hm)
    rw [Entry.ofLines_cons]
    rcases ofLines_cons_cases h with ⟨hb, hr⟩ | ⟨fault, others, hb, hj, hr, rfl⟩ |
      ⟨equation, others, hb, hj, hr, rfl⟩
    · rw [if_pos hb]
      exact ih hdrest hr
    · cases hc : Equation.compile catalogue known line with
      | error failure =>
        simpa [hb, Except.toOption, withReport] using ih hdrest hr
      | ok equation =>
        have hfilter := Entry.filter_isFirst_of_old (hfresh equation) (judge_error hj hc)
        simpa [hb, Except.toOption, withReport] using (ih hdrest hr).trans hfilter.symm
    · obtain ⟨hc, hnew⟩ := judge_ok hj
      have hfilter := Entry.filter_isFirst_of_new (hfresh equation) hnew
      have hothers := congrArg (⟨index, equation⟩ :: ·) (ih hdrest hr)
      simpa [hb, hc, Except.toOption, withEntry] using hothers.trans hfilter.symm

end Admission

namespace Schedule

/-- A schedule splits entries into those that are set aside, which have no value with the solution
of all, and the others, which it sorts by their dependencies. -/
theorem ofEntries_spec {figures : Int} {candidates : List Entry}
    (ha : Entry.Agreeing candidates) (hp : ∀ e ∈ candidates, e.Plain) {attempts : Nat}
    {entries : List Entry} (hs : entries ⊆ candidates) (hd : entries.Nodup)
    (hl : entries.length < attempts) {schedule : Schedule}
    (h : ofEntries figures attempts entries = .ok schedule) :
    ∃ aside, (aside ++ schedule.entries).Perm entries ∧
      (∀ entry ∈ aside, entry.value? (Entry.solution candidates) = none) ∧
      Report.Cover figures (Entry.solution candidates) schedule.reports aside ∧
      Graph.Sorted (Entry.dependents schedule.entries) schedule.entries := by
  have hc : ¬ Entry.Conflicting entries := Dependency.not_conflicting_mono ha hs
  have hu := Dependency.unravels hd hc hl
  rw [ofEntries_eq figures hd hc] at h
  obtain ⟨reports, hr, h⟩ := bind_eq_ok_iff.mp h
  obtain rfl := pure_eq_ok_iff.mp h
  have hnone : ∀ entry ∈ (Dependency.unravel attempts entries).1.flatten,
      entry.value? (Entry.solution candidates) = none := by
    intro entry he
    obtain ⟨members, hm, he⟩ := List.mem_flatten.mp he
    have hcycle := (hu.cycle members hm).mono (Entry.dependents_mono hs)
    exact Entry.value?_solution_eq_none ha hp hcycle (Entry.subset_of_isCycle hcycle) he
  exact ⟨_, hu.perm, hnone, Report.cover_of_mapM_failed hr hnone, hu.sorted⟩

end Schedule

/-- A table binds what some entries assign to its values in some bindings, and nothing else. -/
structure Table.Holds (table : Table) (bindings : Bindings) (entries : List Entry) : Prop where
  /-- Variables that the entries assign are bound alike. -/
  assigned : ∀ entry ∈ entries, ∀ name, entry.target? = some name →
    table.bindings name = bindings name
  /-- No other variable is bound. -/
  fresh : ∀ name, (∀ entry ∈ entries, entry.target? ≠ some name) → table.bindings name = none
  /-- No variable is bound twice. -/
  distinct : (table.map Prod.fst).Nodup

namespace Table

/-- An empty table holds nothing. -/
theorem Holds.nil (bindings : Bindings) : Holds [] bindings [] :=
  ⟨by simp, fun _ _ => rfl, .nil⟩

/-- A variable without a value is no name of a table. -/
theorem not_mem_of_bindings {table : Table} {name : String} (h : table.bindings name = none) :
    name ∉ table.map Prod.fst := by
  intro hm
  obtain ⟨⟨other, value⟩, hp, rfl⟩ := List.mem_map.mp hm
  have hne := List.lookup_eq_none_iff.mp h _ hp
  simp at hne

/-- A table with one more assignment at the end. -/
theorem bindings_append {table : Table} {name other : String} {value : Quantity} :
    bindings (table ++ [(name, value)]) other =
      (table.bindings other).or (if other = name then some value else none) := by
  rw [bindings, List.lookup_append, bindings]
  by_cases ho : other = name
  · rw [ho, List.lookup_cons_self, if_pos rfl]
  · have hb : (other == name) = false := beq_eq_false_iff_ne.mpr ho
    rw [List.lookup_cons, hb, List.lookup_nil, if_neg ho]

/-- Evaluating one more entry keeps that a table holds the values of the entries before. -/
theorem Holds.assign {table : Table} {bindings : Bindings} {entries : List Entry}
    (h : table.Holds bindings entries) {entry : Entry}
    (hnew : ∀ name, entry.target? = some name → ∀ other ∈ entries, other.target? ≠ some name)
    {value : Quantity}
    (hv : ∀ name, entry.target? = some name → bindings name = some value) :
    (table.assign entry value).Holds bindings (entries ++ [entry]) := by
  cases ht : entry.target? with
  | none =>
    rw [Table.assign, ht]
    refine ⟨fun other ho name hto => ?_, fun name hn => ?_, h.distinct⟩
    · rcases List.mem_append.mp ho with ho | ho
      · exact h.assigned other ho name hto
      · obtain rfl := List.mem_singleton.mp ho
        rw [ht] at hto
        cases hto
    · exact h.fresh name fun other ho => hn other (List.mem_append_left _ ho)
  | some target =>
    have hfresh := h.fresh target (hnew target ht)
    rw [Table.assign, ht]
    refine ⟨fun other ho name hto => ?_, fun name hn => ?_, ?_⟩
    · rw [bindings_append]
      rcases List.mem_append.mp ho with ho | ho
      · have hne : name ≠ target := fun he => hnew target ht other ho (he ▸ hto)
        rw [if_neg hne, Option.or_none, h.assigned other ho name hto]
      · obtain rfl := List.mem_singleton.mp ho
        obtain rfl : target = name := Option.some.inj (ht.symm.trans hto)
        rw [if_pos rfl, hfresh, Option.none_or, hv target ht]
    · have hne : name ≠ target := fun he => hn entry (by simp) (he ▸ ht)
      have hnone := h.fresh name fun other ho => hn other (List.mem_append_left _ ho)
      rw [bindings_append, if_neg hne, hnone, Option.none_or]
    · rw [List.map_append, List.map_singleton]
      refine List.Nodup.append h.distinct (List.nodup_singleton _) fun name hm hs => ?_
      obtain rfl := List.mem_singleton.mp hs
      exact not_mem_of_bindings hfresh hm

/-- An entry without a value leaves its variable unbound. -/
theorem Holds.skip {table : Table} {bindings : Bindings} {entries : List Entry}
    (h : table.Holds bindings entries) {entry : Entry}
    (hnew : ∀ name, entry.target? = some name → ∀ other ∈ entries, other.target? ≠ some name)
    (hv : ∀ name, entry.target? = some name → bindings name = none) :
    table.Holds bindings (entries ++ [entry]) where
  assigned := by
    intro other ho name hto
    rcases List.mem_append.mp ho with ho | ho
    · exact h.assigned other ho name hto
    · obtain rfl := List.mem_singleton.mp ho
      rw [h.fresh name (hnew name hto), hv name hto]
  fresh := fun name hn => h.fresh name fun other ho => hn other (List.mem_append_left _ ho)
  distinct := h.distinct

end Table

/-- The value of an entry is that of its expression, and a fault stands for none. -/
theorem Entry.value_ok {table : Table} {entry : Entry} {result : Except Fault Quantity}
    (h : entry.value table = .ok result) :
    entry.value? table.bindings = result.toOption := by
  unfold Entry.value at h
  unfold Entry.value?
  cases he : entry.equation.evaluate table.bindings with
  | ok value =>
    rw [he] at h
    cases h
    rfl
  | error failure =>
    cases failure <;> rw [he] at h <;> cases h <;> rfl

namespace Evaluation

/-- What evaluating one entry leaves: the report on it and the table behind it. -/
inductive Step (figures : Int) (table : Table) (entry : Entry) : Report → Table → Prop where
  /-- A fault leaves the table as it is. -/
  | failed {fault : Fault} {report : Report} (hv : entry.value table = .ok (.error fault))
    (hr : Report.failed figures fault entry = .ok report) : Step figures table entry report table
  /-- A value is assigned. -/
  | evaluated {value : Quantity} {report : Report} (hv : entry.value table = .ok (.ok value))
    (hr : Report.evaluated figures value entry = .ok report) :
    Step figures table entry report (table.assign entry value)

/-- Behind one step the remaining entries are evaluated. -/
theorem ofEntries_of_step {figures : Int} {table next : Table} {entry : Entry} {report : Report}
    (h : Step figures table entry report next) (entries : List Entry) :
    ofEntries figures table (entry :: entries) =
      (ofEntries figures next entries).report report := by
  cases h with
  | failed hv hr => simp only [ofEntries, hv, hr]
  | evaluated hv hr => simp only [ofEntries, hv, hr]

/-- An evaluation that returns reports makes a first step and goes on behind it. -/
theorem exists_step {figures : Int} {table : Table} {entry : Entry} {entries : List Entry}
    {reports : List Report}
    (h : (ofEntries figures table (entry :: entries)).reports = .ok reports) :
    ∃ report next others, Step figures table entry report next ∧
      (ofEntries figures next entries).reports = .ok others ∧ reports = report :: others := by
  have hstep : ∃ report next, Step figures table entry report next := by
    rw [ofEntries] at h
    cases hv : entry.value table with
    | error failure => simp [hv, ended] at h
    | ok result =>
      rw [hv] at h
      cases result with
      | error fault =>
        cases hr : Report.failed figures fault entry with
        | error failure => simp [hr, ended] at h
        | ok report => exact ⟨report, _, .failed hv hr⟩
      | ok value =>
        cases hr : Report.evaluated figures value entry with
        | error failure => simp [hr, ended] at h
        | ok report => exact ⟨report, _, .evaluated hv hr⟩
  obtain ⟨report, next, hstep⟩ := hstep
  rw [ofEntries_of_step hstep] at h
  obtain ⟨others, ho, rfl⟩ := map_eq_ok_iff.mp h
  exact ⟨report, next, others, hstep, ho, rfl⟩

/-- What the solution binds is assigned by an entry that is not set aside. -/
theorem exists_scheduled {candidates : List Entry} (ha : Entry.Agreeing candidates)
    (hp : ∀ e ∈ candidates, e.Plain) {scheduled : List Entry}
    (haside : ∀ entry ∈ candidates, entry ∉ scheduled →
      entry.value? (Entry.solution candidates) = none) {name : String} {value : Quantity}
    (h : Entry.solution candidates name = some value) :
    ∃ entry ∈ scheduled, entry.target? = some name := by
  rw [← Entry.round_solution ha hp] at h
  obtain ⟨entry, he, ht, hv⟩ := (Entry.round_eq_some_iff ha).mp h
  refine ⟨entry, ?_, ht⟩
  by_contra hnot
  rw [haside entry he hnot] at hv
  cases hv

section

variable {figures : Int} {candidates : List Entry} (ha : Entry.Agreeing candidates)
  (hp : ∀ e ∈ candidates, e.Plain) {scheduled : List Entry} (hs : scheduled ⊆ candidates)
  (hd : scheduled.Nodup) (hsorted : Graph.Sorted (Entry.dependents scheduled) scheduled)
  (haside : ∀ entry ∈ candidates, entry ∉ scheduled →
    entry.value? (Entry.solution candidates) = none)

include ha hp

include hd hsorted haside in
/-- Before each scheduled entry the table binds what it reads as the solution does, if it holds what
the entries before assign. -/
theorem bindings_eq_of_reads {done rest : List Entry} {entry : Entry}
    (hsplit : done ++ entry :: rest = scheduled) {table : Table}
    (ht : table.Holds (Entry.solution candidates) done) {name : String}
    (hr : entry.reads name = true) : table.bindings name = Entry.solution candidates name := by
  have hm : entry ∈ scheduled := by simp [← hsplit]
  by_cases hdone : ∃ other ∈ done, other.target? = some name
  · obtain ⟨other, ho, hto⟩ := hdone
    exact ht.assigned other ho name hto
  · push Not at hdone
    rw [ht.fresh name hdone]
    cases hsol : Entry.solution candidates name with
    | none => rfl
    | some value =>
      obtain ⟨other, hscheduled, hto⟩ := exists_scheduled ha hp haside hsol
      have hfeeds := Entry.mem_dependents.mpr ⟨hm, name, hto, hr⟩
      rw [← hsplit] at hsorted hd hscheduled
      exact absurd hto (hdone other (hsorted.mem_front hd hscheduled (hsplit ▸ hfeeds)))

include hs hd in
/-- A step of an entry that has the same value with the table as with the solution keeps that the
table holds what is assigned. -/
theorem holds_of_step {done rest : List Entry} {entry : Entry}
    (hsplit : done ++ entry :: rest = scheduled) {table next : Table}
    (ht : table.Holds (Entry.solution candidates) done)
    (hread : entry.value? table.bindings = entry.value? (Entry.solution candidates))
    {report : Report} (hstep : Step figures table entry report next) :
    next.Holds (Entry.solution candidates) (done ++ [entry]) := by
  have hm : entry ∈ scheduled := by simp [← hsplit]
  have hnew : ∀ name, entry.target? = some name →
      ∀ other ∈ done, other.target? ≠ some name := by
    intro name hname other ho hto
    have hmo : other ∈ scheduled := hsplit ▸ List.mem_append_left _ ho
    obtain rfl := ha.eq (hs hmo) (hs hm) hto hname
    rw [← hsplit] at hd
    exact (List.disjoint_of_nodup_append hd) ho List.mem_cons_self
  have hvalue : ∀ name, entry.target? = some name →
      Entry.solution candidates name = entry.value? (Entry.solution candidates) := by
    intro name hname
    rw [← Entry.round_target ha (hs hm) hname, Entry.round_solution ha hp]
  cases hstep with
  | failed hv hr =>
    have hresult := (Entry.value_ok hv).symm.trans hread
    exact ht.skip hnew fun name hname => (hvalue name hname).trans hresult.symm
  | evaluated hv hr =>
    have hresult := (Entry.value_ok hv).symm.trans hread
    exact ht.assign hnew fun name hname => (hvalue name hname).trans hresult.symm

include hs hd hsorted haside

/-- Evaluating the scheduled entries one after the other computes the solution: before each entry
the table holds what those before it assign, and these are all it reads that have a value. -/
theorem ofEntries_spec {done rest : List Entry} (hsplit : done ++ rest = scheduled) {table : Table}
    (ht : table.Holds (Entry.solution candidates) done) {reports : List Report}
    (h : (ofEntries figures table rest).reports = .ok reports) :
    (ofEntries figures table rest).table.Holds (Entry.solution candidates) scheduled ∧
      Report.Cover figures (Entry.solution candidates) reports rest := by
  induction rest generalizing done table reports with
  | nil =>
    cases h
    rw [List.append_nil] at hsplit
    exact ⟨hsplit ▸ ht, .nil⟩
  | cons entry rest ih =>
    have hread : entry.value? table.bindings = entry.value? (Entry.solution candidates) :=
      Entry.value?_congr fun name =>
        bindings_eq_of_reads ha hp hd hsorted haside hsplit ht
    obtain ⟨report, next, others, hstep, ho, rfl⟩ := exists_step h
    have hnext := holds_of_step ha hp hs hd hsplit ht hread hstep
    rw [ofEntries_of_step hstep]
    obtain ⟨htable, hcover⟩ := ih (by simp [← hsplit]) hnext ho
    refine ⟨htable, .cons ?_ hcover⟩
    cases hstep with
    | failed hv hr =>
      exact Report.tells_of_failed hr (hread.symm.trans (Entry.value_ok hv))
    | evaluated hv hr =>
      exact Report.tells_of_evaluated hr (hread.symm.trans (Entry.value_ok hv))

end

end Evaluation

namespace Report

/-- A report in line order is one of the reports. -/
theorem mem_of_mem_inLineOrder {count : Nat} {reports : List Report} {report : Report}
    (h : report ∈ inLineOrder count reports) : report ∈ reports := by
  obtain ⟨index, -, hf⟩ := List.mem_filterMap.mp h
  exact List.mem_of_find?_eq_some hf

/-- A line with a report has one in line order. -/
theorem exists_mem_inLineOrder {count : Nat} {reports : List Report} {report : Report}
    (hm : report ∈ reports) (hc : report.index < count) :
    ∃ other ∈ inLineOrder count reports, other.index = report.index := by
  cases hf : reports.find? fun other => other.index = report.index with
  | none =>
    have hnot := List.find?_eq_none.mp hf report hm
    simp at hnot
  | some other =>
    have hindex : other.index = report.index := by simpa using List.find?_some hf
    exact ⟨other, List.mem_filterMap.mpr ⟨report.index, List.mem_range.mpr hc, hf⟩, hindex⟩

end Report

namespace Worksheet

/-- The indexes of lines count up. -/
theorem map_index (sheet : Worksheet) :
    sheet.lines.zipIdx.map (·.2) = List.range sheet.lines.length := by
  rw [List.range_eq_range']
  exact List.zipIdx_map_snd 0 sheet.lines

/-- The steps of an evaluation that returns reports. -/
theorem exists_of_evaluate {sheet : Worksheet} {reports : List Report}
    (h : sheet.evaluate.2 = .ok reports) :
    ∃ admission schedule evaluated,
      Admission.ofLines sheet.catalogue sheet.assignedNames [] sheet.lines.zipIdx =
        .ok admission ∧
      Schedule.ofEntries sheet.figures (admission.entries.length + 1) admission.entries =
        .ok schedule ∧
      (Evaluation.ofEntries sheet.figures [] schedule.entries).reports = .ok evaluated ∧
      sheet.evaluate.1.table = (Evaluation.ofEntries sheet.figures [] schedule.entries).table ∧
      reports = Report.inLineOrder sheet.lines.length
        (admission.reports ++ schedule.reports ++ evaluated) := by
  rw [evaluate] at h ⊢
  unfold evaluation at h ⊢
  cases ha : Admission.ofLines sheet.catalogue sheet.assignedNames [] sheet.lines.zipIdx with
  | error failure => simp [ha, bind, Except.bind, Evaluation.ended] at h
  | ok admission =>
    cases hs : Schedule.ofEntries sheet.figures (admission.entries.length + 1)
        admission.entries with
    | error failure => simp [ha, hs, bind, Except.bind, Evaluation.ended] at h
    | ok schedule =>
      simp only [ha, hs, bind, Except.bind, pure, Except.pure] at h ⊢
      obtain ⟨evaluated, he, rfl⟩ := map_eq_ok_iff.mp h
      exact ⟨admission, schedule, evaluated, rfl, hs, he, rfl, rfl⟩

/-- Evaluating a worksheet solves its equations. If it returns reports, the variables that are kept
are those of the least solution of the lines that compile and assign no variable again, and each of
these lines has one report, which gives the text of its value with the solution or a fault if it
has none. -/
theorem evaluate_spec {sheet : Worksheet} {reports : List Report}
    (h : sheet.evaluate.2 = .ok reports) :
    (sheet.evaluate.1.table.map Prod.fst).Nodup ∧
    (∀ name, sheet.evaluate.1.table.lookup name = sheet.solution name) ∧
    (Entry.round sheet.candidates sheet.solution = sheet.solution ∧
      ∀ bindings : Bindings, (Entry.round sheet.candidates bindings).Within bindings →
        sheet.solution.Within bindings) ∧
    ∀ entry ∈ sheet.candidates,
      (∃ report ∈ reports, report.index = entry.place) ∧
      ∀ report ∈ reports, report.index = entry.place →
        report.Tells sheet.figures sheet.solution entry := by
  obtain ⟨admission, schedule, evaluated, hadmit, hschedule, hevaluated, htable, rfl⟩ :=
    exists_of_evaluate h
  have hindexes : (sheet.lines.zipIdx.map (·.2)).Nodup := by
    rw [map_index]
    exact List.nodup_range
  have hentries : admission.entries = sheet.candidates := by
    rw [Admission.entries_of_ofLines hindexes hadmit, candidates, compiled]
    refine List.filter_congr fun entry _ => ?_
    cases entry.target? <;> simp
  have hplaces := Admission.subperm_of_ofLines hadmit
  rw [map_index, hentries] at hplaces
  rw [hentries] at hschedule
  have ha : Entry.Agreeing sheet.candidates := Entry.agreeing_filter_isFirst sheet.compiled
  have hp : ∀ e ∈ sheet.candidates, e.Plain := fun e he =>
    Entry.plain_of_mem_ofLines (List.mem_of_mem_filter he)
  have hd : (sheet.candidates.map (·.place) ++ admission.reports.map (·.index)).Nodup := by
    obtain ⟨permuted, hpermuted, hsublist⟩ := hplaces
    exact hpermuted.nodup_iff.mp (hsublist.nodup List.nodup_range)
  obtain ⟨hplace, -, hapart⟩ := List.nodup_append.mp hd
  have hdc : sheet.candidates.Nodup := hplace.of_map
  obtain ⟨aside, hperm, haside, hcover, hsorted⟩ :=
    Schedule.ofEntries_spec ha hp (List.Subset.refl _) hdc (Nat.lt_succ_self _) hschedule
  have hsub : schedule.entries ⊆ sheet.candidates := fun e he =>
    hperm.subset (List.mem_append_right _ he)
  have hnone : ∀ entry ∈ sheet.candidates, entry ∉ schedule.entries →
      entry.value? (Entry.solution sheet.candidates) = none := by
    intro entry he hnot
    exact haside entry ((List.mem_append.mp (hperm.mem_iff.mpr he)).resolve_right hnot)
  have hds := (List.nodup_append.mp (hperm.nodup_iff.mpr hdc)).2.1
  obtain ⟨hholds, hevaluation⟩ := Evaluation.ofEntries_spec ha hp hsub hds hsorted hnone
    (List.nil_append _) (Table.Holds.nil _) hevaluated
  have hall := hcover.append hevaluation
  rw [← htable] at hholds
  refine ⟨hholds.distinct, fun name => ?_, ⟨Entry.round_solution ha hp, fun bindings hb =>
    Entry.solution_within ha hp hb⟩, fun entry he => ⟨?_, fun report hr hindex => ?_⟩⟩
  · change sheet.evaluate.1.table.bindings name = Entry.solution sheet.candidates name
    by_cases hassigned : ∃ entry ∈ schedule.entries, entry.target? = some name
    · obtain ⟨entry, he, ht⟩ := hassigned
      exact hholds.assigned entry he name ht
    · rw [hholds.fresh name fun entry he ht => hassigned ⟨entry, he, ht⟩]
      cases hsol : Entry.solution sheet.candidates name with
      | none => rfl
      | some value => exact absurd (Evaluation.exists_scheduled ha hp hnone hsol) hassigned
  · obtain ⟨report, hr, hindex, -⟩ := hall.every entry (hperm.mem_iff.mpr he)
    have hcount : report.index < sheet.lines.length := by
      rw [hindex]
      exact List.mem_range.mp
        (hplaces.subset (List.mem_append_left _ (List.mem_map_of_mem he)))
    rw [← hindex]
    rw [List.append_assoc]
    exact Report.exists_mem_inLineOrder (List.mem_append_right _ hr) hcount
  · have hm := Report.mem_of_mem_inLineOrder hr
    rw [List.append_assoc] at hm
    rcases List.mem_append.mp hm with hrejected | hm
    · exact absurd hindex.symm (hapart _ (List.mem_map_of_mem he) _ (List.mem_map_of_mem hrejected))
    · obtain ⟨other, ho, htells⟩ := hall.only report hm
      have hsame : other = entry := by
        have hoc := hperm.mem_iff.mp ho
        exact List.inj_on_of_nodup_map hplace hoc he (htells.1.symm.trans hindex)
      exact hsame ▸ htells

/-- A worksheet in which one variable depends on another that is assigned below it, and two more
depend on each other. -/
def tangled : Worksheet := { lines := ["x = 2 y", "y = 3", "a = b", "b = a", "", "x + b"] }

/-- The tangled worksheet is evaluated to the solution of its lines. -/
theorem evaluate_spec_tangled : ∃ reports, tangled.evaluate.2 = .ok reports ∧
    ∀ name, tangled.evaluate.1.table.lookup name = tangled.solution name := by
  have hok : tangled.evaluate.2.toOption.isSome = true := by decide +kernel
  cases h : tangled.evaluate.2 with
  | error failure =>
    rw [h] at hok
    cases hok
  | ok reports => exact ⟨reports, rfl, (evaluate_spec h).2.1⟩

end Worksheet

end UnitCalculator
