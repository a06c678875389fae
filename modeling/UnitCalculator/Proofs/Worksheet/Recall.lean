import UnitCalculator.Proofs.Expression.Recall
import UnitCalculator.Proofs.Worksheet.Names

/-!
# Reading back what a line assigns

A line that holds nothing but a variable has the value that the variable is assigned. If the
assignment is reported with a value, that line is reported with the same value in the same form.
-/

namespace UnitCalculator

namespace Worksheet

open VariableName

variable {sheet : Worksheet} {v : String} {reports : List Report} {first second : Report}
variable {shown : Shown}

/-- A report with a value is on a candidate that has that value. -/
theorem Verdict.exists_settles (h : sheet.Verdict first) (hs : first.result = .ok shown) :
    ∃ entry ∈ sheet.candidates, first.Settles sheet.figures sheet.solution entry := by
  cases h with
  | unread hc => cases hs
  | again hc ht => cases hs
  | settled hm hs => exact ⟨_, hm, hs⟩

/-- The solution binds what a candidate assigns to its value. -/
theorem solution_eq_of_target {entry : Entry} (hm : entry ∈ sheet.candidates)
    (ht : entry.target? = some v) : sheet.solution v = entry.value? sheet.solution := by
  rw [solution, ← Entry.round_target sheet.not_conflicting hm ht,
    Entry.round_solution sheet.not_conflicting fun _ => plain_of_mem_candidates]

/-- A line that holds nothing but a variable is solved if the variable is known. -/
theorem Verdict.settles_name (hv : isValid v = true) (hk : v ∈ sheet.assignedNames)
    (h : sheet.Verdict second) (hl : second.line = v) : ∃ entry,
      entry.equation = .ofName v ∧ second.Settles sheet.figures sheet.solution entry := by
  have hname : Equation.compile sheet.catalogue sheet.assignedNames v = .ok (.ofName v) :=
    Equation.compile_name hv hk
  cases h with
  | @unread _ line _ _ hc =>
    have hline : line = v := hl
    rw [hline, hname] at hc
    cases hc
  | @again _ line _ _ hc ht =>
    have hline : line = v := hl
    rw [hline, hname] at hc
    obtain rfl := Except.ok.inj hc
    cases ht
  | @settled entry _ hm hs =>
    have hsource : entry.equation.source = v := (congrArg Prod.fst hs.origin_eq).symm.trans hl
    obtain ⟨-, hc⟩ := compile_of_mem_candidates hm
    rw [hsource, hname] at hc
    exact ⟨entry, (Except.ok.inj hc).symm, hs⟩

/-- A line that holds nothing but a variable is reported with the value that the line which assigns
the variable is reported with. -/
theorem result_of_name (hv : isValid v = true) (h : sheet.evaluate.2 = .ok reports)
    (hf : first ∈ reports) (ha : first.assigned = some v) (hr : first.result = .ok shown)
    (hm : second ∈ reports) (hl : second.line = v) : second.result = .ok shown := by
  obtain ⟨entry, he, hsettles⟩ := (verdict_of_evaluate h hf).exists_settles hr
  have htarget : entry.target? = some v := hsettles.assigned_eq.symm.trans ha
  obtain ⟨hline, hc⟩ := compile_of_mem_candidates he
  have hk : v ∈ sheet.assignedNames :=
    mem_assignedNames_of_compile (List.fst_mem_of_mem_zipIdx hline) hc htarget
  obtain ⟨value, hvalue, htext, hlatex⟩ := hsettles.exists_value hr
  obtain ⟨other, hother, hs⟩ := (verdict_of_evaluate h hm).settles_name hv hk hl
  have hsame : other.value? sheet.solution = some value := by
    rw [Entry.value?_eq_some_iff, hother, Equation.evaluate_ofName_eq_ok_iff,
      solution_eq_of_target he htarget, hvalue]
  exact hs.result_eq hsame htext hlatex

/-- A candidate that has a value does not read what it assigns itself. -/
theorem not_reads_target {entry : Entry} {value : Quantity} (hm : entry ∈ sheet.candidates)
    (hv : entry.value? sheet.solution = some value) (ht : entry.target? = some v) :
    entry.reads v = false := by
  by_contra hr
  have hcloses : entry ∈ Entry.dependents sheet.candidates entry :=
    Entry.mem_dependents.mpr ⟨hm, v, ht, Bool.eq_true_of_not_eq_false hr⟩
  have hcycle : Graph.IsCycle (Entry.dependents sheet.candidates) [entry] :=
    ⟨List.cons_ne_nil _ _, List.nodup_singleton entry, .singleton entry, hcloses⟩
  have hnone := Entry.value?_solution_eq_none sheet.not_conflicting
    (fun _ => plain_of_mem_candidates) hcycle (List.cons_subset.mpr ⟨hm, List.nil_subset _⟩)
    (List.mem_singleton_self entry)
  rw [solution, hnone] at hv
  cases hv

/-- A line that starts with an identifier is not blank. -/
theorem isBlankText_of_isIdentifier {name text : List Char} (h : isIdentifier name = true)
    (hp : name <+: text) : Text.isBlankText text = false := by
  obtain ⟨c, behind, rfl, -, -⟩ := exists_of_isIdentifier h
  have hm : c ∈ text := hp.subset List.mem_cons_self
  have hblank := isBlank_of_isIdentifier h c List.mem_cons_self
  exact List.all_eq_false.mpr ⟨c, hm, by simp [hblank]⟩

section

variable {line : String} {value : Quantity} {e : Equation}

/-- An equation that has a value on a worksheet of its own reads no variable. -/
theorem exists_of_alone (hl : sheet.lines = [line]) (h : sheet.evaluate.2 = .ok reports)
    (hf : first ∈ reports) (hr : first.result = .ok shown) : ∃ e value,
      Equation.compile sheet.catalogue sheet.assignedNames line = .ok e ∧
      (∀ name, Entry.reads ⟨0, e⟩ name = false) ∧
      e.evaluate (fun _ => none) = .ok value ∧
      Report.evaluated sheet.figures value ⟨0, e⟩ = .ok first := by
  obtain ⟨entry, he, hs⟩ := (verdict_of_evaluate h hf).exists_settles hr
  have hline : ∀ other ∈ sheet.candidates, other.equation.source = line ∧ other.place = 0 := by
    intro other ho
    obtain ⟨hm, -⟩ := compile_of_mem_candidates ho
    rw [hl, List.zipIdx_singleton, List.mem_singleton] at hm
    exact Prod.mk.inj hm
  have honly : ∀ other ∈ sheet.candidates, other = entry := fun other ho =>
    List.inj_on_of_nodup_map sheet.nodup_place ho he
      ((hline other ho).2.trans (hline entry he).2.symm)
  obtain ⟨value, hvalue, -, -⟩ := hs.exists_value hr
  -- what it reads would be bound by the equation itself
  have hreads : ∀ name, entry.reads name = false := by
    intro name
    by_contra hread
    obtain ⟨bound, hbound⟩ := Entry.exists_of_value? (plain_of_mem_candidates he) hvalue
      (Bool.eq_true_of_not_eq_false hread)
    rw [solution, ← Entry.round_solution sheet.not_conflicting
      fun _ => plain_of_mem_candidates] at hbound
    obtain ⟨other, ho, ht, -⟩ := (Entry.round_eq_some_iff sheet.not_conflicting).mp hbound
    obtain rfl := honly other ho
    exact hread (not_reads_target he hvalue ht)
  obtain ⟨place, equation⟩ := entry
  obtain ⟨hsource, rfl⟩ : equation.source = line ∧ place = 0 := hline _ he
  obtain ⟨-, hc⟩ := compile_of_mem_candidates he
  rw [hsource] at hc
  have hempty : Entry.value? (fun _ => none) ⟨0, equation⟩ = some value :=
    (Entry.value?_congr fun name hread => by rw [hreads name] at hread; cases hread).trans hvalue
  refine ⟨equation, value, hc, hreads, ?_, ?_⟩
  · exact Entry.value?_eq_some_iff.mp hempty
  · cases hs with
    | failed hnone hfailed =>
      rw [hvalue] at hnone
      cases hnone
    | evaluated hsome hevaluated =>
      rwa [Option.some.inj (hvalue.symm.trans hsome)]

/-- An assignment that reads nothing is in order in front of a line without assignment. -/
theorem sorted_of_not_reads {target name : Entry} (hn : name.target? = none)
    (hr : ∀ v, target.reads v = false) :
    Graph.Sorted (Entry.dependents [target, name]) [target, name] := by
  refine ⟨fun b hb => ?_, fun b hb => ?_, trivial⟩
  · obtain ⟨hm, v, -, hread⟩ := Entry.mem_dependents.mp hb
    rcases List.mem_cons.mp hm with rfl | hm
    · rw [hr v] at hread
      cases hread
    · exact hm
  · obtain ⟨-, v, hassigned, -⟩ := Entry.mem_dependents.mp hb
    rw [hn] at hassigned
    cases hassigned

/-- Behind an assignment that is reported with its value the name is reported with it as well. -/
theorem exists_reports_of_name {figures : Int} {target : Entry} (ht : target.target? = some v)
    (he : target.equation.evaluate (fun _ => none) = .ok value)
    (hr : Report.evaluated figures value target = .ok first) (place : Nat) :
    ∃ second, (Evaluation.ofEntries figures [] [target, ⟨place, .ofName v⟩]).reports =
      .ok [first, second] := by
  obtain ⟨shown, -, htext, hlatex, -, -⟩ := Report.evaluated_eq_ok_iff.mp hr
  have hassigned : Table.assign [] target value = [(v, value)] := by
    rw [Table.assign, ht]
    rfl
  have hfirst : Evaluation.Step figures [] target first (Table.assign [] target value) :=
    .evaluated (Entry.value_eq_ok_iff.mpr he) hr
  have hbound : Table.bindings [(v, value)] v = some value := by
    rw [Table.bindings, List.lookup_cons_self]
  have hvalue : Entry.value [(v, value)] ⟨place, .ofName v⟩ = .ok (.ok value) :=
    Entry.value_eq_ok_iff.mpr (Equation.evaluate_ofName_eq_ok_iff.mpr hbound)
  have hsecond := Evaluation.Step.evaluated hvalue
    (Report.evaluated_eq_ok_iff.mpr ⟨shown, v, htext, hlatex, rfl, rfl⟩)
  rw [Evaluation.ofEntries_of_step hfirst, hassigned, Evaluation.ofEntries_of_step hsecond]
  exact ⟨_, rfl⟩

/-- An assignment that reads nothing and is reported with its value on a worksheet of its own is
evaluated in front of a line that holds nothing but the name. -/
theorem exists_evaluate_name (hv : isValid v = true) (hl : sheet.lines = [line, v])
    (hb : Text.isBlankText line.toList = false)
    (hc : Equation.compile sheet.catalogue sheet.assignedNames line = .ok e)
    (ht : e.target? = some v) (hreads : ∀ name, Entry.reads ⟨0, e⟩ name = false)
    (he : e.evaluate (fun _ => none) = .ok value)
    (hr : Report.evaluated sheet.figures value ⟨0, e⟩ = .ok first) :
    ∃ reports, sheet.evaluate.2 = .ok reports ∧ first ∈ reports := by
  have hname : Equation.compile sheet.catalogue sheet.assignedNames v = .ok (.ofName v) :=
    Equation.compile_name hv (mem_assignedNames_of_compile (hl ▸ List.mem_cons_self) hc ht)
  have hblank : Text.isBlankText v.toList = false :=
    isBlankText_of_isIdentifier (isIdentifier_of_isValid hv) List.prefix_rfl
  have hcompiled : sheet.compiled = [⟨0, e⟩, ⟨1, .ofName v⟩] := by
    rw [compiled, hl]
    simp only [List.zipIdx_cons, List.zipIdx_nil, Entry.ofLines_cons, hb, hblank, hc, hname]
    rfl
  have hcandidates : sheet.candidates = [⟨0, e⟩, ⟨1, .ofName v⟩] := by
    rw [candidates, hcompiled]
    simp [Entry.isFirst, Entry.target?, ht, Equation.target?_ofName]
  obtain ⟨admission, hadmit⟩ : ∃ admission, Admission.ofLines sheet.catalogue
      sheet.assignedNames [] sheet.lines.zipIdx = .ok admission := by
    refine Admission.exists_ofLines_iff.mpr fun entered hm => ?_
    have hentered : entered = (line, 0) ∨ entered = (v, 1) := by
      simpa [hl] using (List.mem_filter.mp hm).1
    rcases hentered with rfl | rfl
    · exact hc ▸ failsBy_ok e
    · exact hname ▸ failsBy_ok _
  have horder : Dependency.order sheet.candidates = .ok sheet.candidates := by
    refine (Dependency.order_eq_ok_iff sheet.nodup_candidates).mpr
      ⟨sheet.not_conflicting, Graph.order_of_sorted ?_ sheet.nodup_candidates⟩
    rw [hcandidates]
    exact sorted_of_not_reads (Equation.target?_ofName v) hreads
  have hschedule : Schedule.ofEntries sheet.figures (sheet.candidates.length + 1)
      sheet.candidates = .ok ⟨sheet.candidates, []⟩ := by
    rw [Schedule.ofEntries, horder]
  have htarget : Entry.target? ⟨0, e⟩ = some v := ht
  obtain ⟨second, hevaluated⟩ := exists_reports_of_name htarget he hr 1
  rw [← hcandidates] at hevaluated
  obtain ⟨reports, h⟩ := exists_evaluate_iff.mpr
    ⟨admission, _, _, hadmit, hschedule, hevaluated⟩
  refine ⟨reports, h, ?_⟩
  obtain ⟨_, _, evaluated, -, hs, he, -, hmem⟩ := exists_account h
  obtain rfl := Except.ok.inj (hschedule.symm.trans hs)
  obtain rfl := Except.ok.inj (hevaluated.symm.trans he)
  exact (hmem first).mpr (.inr (.inr List.mem_cons_self))

end

section

variable {t : String}

/-- A name in front of a sign of assignment is assigned. -/
theorem assigned?_assignment (hv : isIdentifier v.toList = true) (t : String) :
    assigned? (v ++ " = " ++ t).toList = some v := by
  have htext : (v ++ " = " ++ t).toList = [] ++ v.toList ++ [' '] ++ '=' :: ' ' :: t.toList := by
    simp [String.toList_append]
  exact assigned?_eq_some_iff.mpr ⟨hv, [], [' '], ' ' :: t.toList, htext, List.forall_mem_nil _,
    List.forall_mem_singleton.mpr (by decide)⟩

/-- A line that assigns a name is not blank. -/
theorem isBlankText_assignment (hv : isIdentifier v.toList = true) (t : String) :
    Text.isBlankText (v ++ " = " ++ t).toList = false := by
  refine isBlankText_of_isIdentifier hv ?_
  rw [String.toList_append, String.toList_append, List.append_assoc]
  exact List.prefix_append _ _

/-- Neither a line that assigns a name nor one that holds the name alone is blank. -/
theorem written_of_name (hv : isIdentifier v.toList = true)
    (hl : sheet.lines = [v ++ " = " ++ t, v]) :
    sheet.written = [(v ++ " = " ++ t, 0), (v, 1)] := by
  have hline := isBlankText_assignment hv t
  have hname : Text.isBlankText v.toList = false :=
    isBlankText_of_isIdentifier hv List.prefix_rfl
  rw [written, hl]
  simp only [List.zipIdx_cons, List.zipIdx_nil, List.filter_cons, hline, hname]
  rfl

/-- A line that assigns a name and a line that holds it alone have one report each, the second one
with the value of the first if that has one. -/
theorem exists_reports (hv : isValid v = true) (hl : sheet.lines = [v ++ " = " ++ t, v])
    (h : sheet.evaluate.2 = .ok reports) : ∃ first second, reports = [first, second] ∧
      first.origin = (v ++ " = " ++ t, 0) ∧ second.origin = (v, 1) ∧
      ∀ shown, first.result = .ok shown → second.result = .ok shown := by
  have hname := isIdentifier_of_isValid hv
  obtain ⟨_, _, _, -, -, -, horigin, -⟩ := exists_account h
  rw [written_of_name hname hl] at horigin
  obtain ⟨first, rest, rfl, hfirst, hrest⟩ := List.map_eq_cons_iff.mp horigin
  obtain ⟨second, others, rfl, hsecond, hnil⟩ := List.map_eq_cons_iff.mp hrest
  obtain rfl := List.map_eq_nil_iff.mp hnil
  have hline : first.line = v ++ " = " ++ t := congrArg Prod.fst hfirst
  have hassigned : first.assigned = some v := by
    rw [(verdict_of_evaluate h List.mem_cons_self).compiled.1, hline, assigned?_assignment hname]
  exact ⟨first, second, rfl, hfirst, hsecond, fun shown hr => result_of_name hv h
    List.mem_cons_self hassigned hr (List.mem_cons_of_mem _ (List.mem_singleton_self second))
    (congrArg Prod.fst hsecond)⟩

/-- The names that are known to an assignment and a line that holds the name alone are those that
are known to the assignment on a worksheet of its own. -/
theorem assignedNames_of_name (hv : isIdentifier v.toList = true)
    (hl : sheet.lines = [v ++ " = " ++ t, v]) :
    sheet.assignedNames = (sheet.setLines [v ++ " = " ++ t]).assignedNames := by
  have hnone : assigned? v.toList = none := by
    rw [Option.eq_none_iff_forall_ne_some]
    exact fun name h => not_mem_of_isIdentifier hv (assigned?_eq_some_iff_trim.mp h).1
  rw [assignedNames, assignedNames, hl, setLines]
  simp only [List.filterMap_cons, List.filterMap_nil, hnone]

/-- An assignment that is reported with a value on a worksheet of its own is reported so in front
of a line that holds nothing but the name. -/
theorem exists_evaluate_of_alone (hv : isValid v = true)
    (hl : sheet.lines = [v ++ " = " ++ t, v])
    (h : (sheet.setLines [v ++ " = " ++ t]).evaluate.2 = .ok [first])
    (hr : first.result = .ok shown) :
    first.index = 0 ∧ ∃ reports, sheet.evaluate.2 = .ok reports ∧ first ∈ reports := by
  have hname := isIdentifier_of_isValid hv
  obtain ⟨e, value, hc, hreads, he, hevaluated⟩ :=
    exists_of_alone rfl h (List.mem_singleton_self first) hr
  rw [← assignedNames_of_name hname hl] at hc
  have ht : e.target? = some v :=
    (Equation.target?_of_compile hc).trans (assigned?_assignment hname t)
  have hblank := isBlankText_assignment hname t
  exact ⟨congrArg Prod.snd (Report.origin_of_evaluated hevaluated),
    exists_evaluate_name hv hl hblank hc ht hreads he hevaluated⟩

/-- Every name that can be assigned is read back. Where it is known it is one variable, alone and
between brackets, whatever other names are known. On a worksheet of two lines, one that assigns the
name and one that holds nothing but the name, both lines are reported, the second one with the
value of the first in the same texts if that has one. They are reported if the assignment on a
worksheet of its own is reported with a value. -/
theorem name_recall_spec (hv : isValid v = true) :
    (∀ (catalogue : Catalogue) (known : List String), v ∈ known →
      Equation.tokenize catalogue known v = .ok [⟨.reference v, 0⟩] ∧
      Equation.tokenize catalogue known ("(" ++ v ++ ")") =
        .ok [⟨.openBracket, 0⟩, ⟨.reference v, 1⟩, ⟨.closeBracket, 1 + v.length⟩]) ∧
    ∀ (t : String) (sheet : Worksheet), sheet.lines = [v ++ " = " ++ t, v] →
      (∀ reports, sheet.evaluate.2 = .ok reports → ∃ first second, reports = [first, second] ∧
        first.origin = (v ++ " = " ++ t, 0) ∧ second.origin = (v, 1) ∧
        ∀ shown, first.result = .ok shown → second.result = .ok shown) ∧
      ∀ first shown, (sheet.setLines [v ++ " = " ++ t]).evaluate.2 = .ok [first] →
        first.result = .ok shown →
        ∃ second, sheet.evaluate.2 = .ok [first, second] ∧ second.result = .ok shown := by
  refine ⟨fun catalogue known hk => ⟨Equation.tokenize_name hv hk,
    Equation.tokenize_bracketed_name hv hk⟩, fun t sheet hl => ⟨fun reports h =>
      exists_reports hv hl h, fun first shown h hr => ?_⟩⟩
  obtain ⟨hindex, reports, hreports, hm⟩ := exists_evaluate_of_alone hv hl h hr
  obtain ⟨front, second, rfl, -, hsecond, hsame⟩ := exists_reports hv hl hreports
  have hfront : first = front := by
    rcases List.mem_cons.mp hm with he | hm
    · exact he
    · obtain rfl := List.mem_singleton.mp hm
      have hone : first.index = 1 := congrArg Prod.snd hsecond
      omega
  subst hfront
  exact ⟨second, hreports, hsame shown hr⟩

/-- A mass in a variable whose name starts with the names of a unit, a function and another
variable. -/
def massSheet : Worksheet := { lines := ["logMm" ++ " = " ++ "3 kg", "logMm"] }

/-- The mass is read back, and the name is one variable in front of a closing bracket too. -/
theorem name_recall_spec_mass : isValid "logMm" = true ∧
    Equation.tokenize .standard ["l", "logM", "logMm", "log"] ("(" ++ "logMm" ++ ")") =
      .ok [⟨.openBracket, 0⟩, ⟨.reference "logMm", 1⟩, ⟨.closeBracket, 6⟩] ∧
    ∃ first second, massSheet.evaluate.2 = .ok [first, second] ∧
      second.result = .ok ⟨"3kg", "3kg"⟩ := by
  have hv : isValid "logMm" = true := by decide +kernel
  obtain ⟨htokens, hlines⟩ := name_recall_spec hv
  have hshown : massSheet.evaluate.2.toOption.map (fun reports =>
      reports.head?.map fun report => (report.result.toOption.map fun shown =>
        (shown.text, shown.latex))) = some (some (some ("3kg", "3kg"))) := by decide +kernel
  refine ⟨hv, (htokens .standard _ (by decide)).2, ?_⟩
  cases h : massSheet.evaluate.2 with
  | error failure =>
    rw [h] at hshown
    cases hshown
  | ok reports =>
    obtain ⟨first, second, rfl, -, -, hsame⟩ := (hlines "3 kg" massSheet rfl).1 reports h
    rw [h] at hshown
    refine ⟨first, second, rfl, hsame _ ?_⟩
    cases hr : first.result with
    | error fault => simp [Except.toOption, hr] at hshown
    | ok shown =>
      obtain ⟨text, latex⟩ := shown
      simpa [Except.toOption, hr] using hshown

end

end Worksheet

end UnitCalculator
