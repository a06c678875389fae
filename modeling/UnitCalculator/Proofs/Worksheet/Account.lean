import UnitCalculator.Proofs.Worksheet.Evaluation

/-!
# Accounting for lines

Every line that is not blank is either rejected or admitted, what is admitted is set aside or
scheduled, and what is scheduled is evaluated. Each of these steps writes one report on every line
it takes away and hands the others on, so in the end every line has exactly one report. The reports
are put in the order of the lines.
-/

namespace UnitCalculator

/-- The text and the index of the line of an entry. -/
def Entry.origin (entry : Entry) : String × Nat := (entry.equation.source, entry.place)

/-- The text and the index of the line that a report is on. -/
def Report.origin (report : Report) : String × Nat := (report.line, report.index)

/-- The lines that are not blank, with their indexes. -/
def Worksheet.written (sheet : Worksheet) : List (String × Nat) :=
  sheet.lines.zipIdx.filter fun line => !Text.isBlankText line.1.toList

/-- A compiled equation keeps its text. -/
theorem Equation.source_of_compile {catalogue : Catalogue} {known : List String}
    {source : String} {e : Equation} (h : compile catalogue known source = .ok e) :
    e.source = source := by
  obtain ⟨tokens, -, ho⟩ := bind_eq_ok_iff.mp h
  exact (ofTokens_eq_ok_iff.mp ho).2

/-- Compiled lines have the indexes of lines, in order. -/
theorem Entry.sublist_place (catalogue : Catalogue) (known : List String)
    (lines : List (String × Nat)) :
    ((ofLines catalogue known lines).map (·.place)).Sublist (lines.map (·.2)) := by
  induction lines with
  | nil => exact List.Sublist.refl _
  | cons head rest ih =>
    obtain ⟨line, index⟩ := head
    rw [ofLines_cons, List.map_append, List.map_cons]
    cases Text.isBlankText line.toList with
    | true => exact ih.cons index
    | false =>
      cases (Equation.compile catalogue known line).toOption with
      | none => exact ih.cons index
      | some equation => exact ih.cons_cons index

namespace Admission

/-- Every line that is not blank is admitted or rejected. -/
theorem perm_origin {catalogue : Catalogue} {known assigned : List String}
    {lines : List (String × Nat)} {admission : Admission}
    (h : ofLines catalogue known assigned lines = .ok admission) :
    (admission.entries.map (·.origin) ++ admission.reports.map (·.origin)).Perm
      (lines.filter fun line => !Text.isBlankText line.1.toList) := by
  induction lines generalizing assigned admission with
  | nil =>
    cases h
    exact .refl _
  | cons head rest ih =>
    obtain ⟨line, index⟩ := head
    rcases ofLines_cons_cases h with ⟨hb, hr⟩ | ⟨fault, others, hb, -, hr, rfl⟩ |
      ⟨equation, others, hb, hj, hr, rfl⟩
    · rw [List.filter_cons_of_neg (by simp [hb])]
      exact ih hr
    · rw [List.filter_cons_of_pos (by simp [hb])]
      exact List.perm_middle.trans ((ih hr).cons (line, index))
    · rw [List.filter_cons_of_pos (by simp [hb])]
      have horigin : Entry.origin ⟨index, equation⟩ = (line, index) := by
        rw [Entry.origin, Equation.source_of_compile (judge_ok hj).1]
      simpa [withEntry, horigin] using ih hr

end Admission

namespace Report

variable {figures : Int}

/-- A report with a fault is on the line of its entry. -/
theorem origin_of_failed {fault : Fault} {entry : Entry} {report : Report}
    (h : failed figures fault entry = .ok report) : report.origin = entry.origin := by
  obtain ⟨latex, -, rfl⟩ := failed_eq_ok_iff.mp h
  rfl

/-- A report with a value is on the line of its entry. -/
theorem origin_of_evaluated {value : Quantity} {entry : Entry} {report : Report}
    (h : evaluated figures value entry = .ok report) : report.origin = entry.origin := by
  obtain ⟨shown, latex, -, -, -, rfl⟩ := evaluated_eq_ok_iff.mp h
  rfl

end Report

namespace Schedule

/-- Every entry is set aside or remains. -/
theorem perm_origin {figures : Int} {attempts : Nat} {entries : List Entry}
    (hd : entries.Nodup) (hc : ¬ Entry.Conflicting entries) (hl : entries.length < attempts)
    {schedule : Schedule} (h : ofEntries figures attempts entries = .ok schedule) :
    (schedule.reports.map (·.origin) ++ schedule.entries.map (·.origin)).Perm
      (entries.map (·.origin)) := by
  rw [ofEntries_eq figures hd hc] at h
  obtain ⟨reports, hr, h⟩ := bind_eq_ok_iff.mp h
  obtain rfl := pure_eq_ok_iff.mp h
  have horigins := map_of_mapM (fun members reports =>
    map_of_mapM (k := (Entry.origin)) (l := Report.origin) fun _ _ => Report.origin_of_failed) hr
  have hperm := (Dependency.unravels hd hc hl).perm.map Entry.origin
  rw [List.map_append, List.map_flatten, ← horigins, ← List.map_flatten] at hperm
  exact hperm

end Schedule

namespace Evaluation

/-- The report on an entry is on its line. -/
theorem Step.origin_eq {figures : Int} {table next : Table} {entry : Entry} {report : Report}
    (h : Step figures table entry report next) : report.origin = entry.origin := by
  cases h with
  | failed hv hr => exact Report.origin_of_failed hr
  | evaluated hv hr => exact Report.origin_of_evaluated hr

/-- Every scheduled entry has a report, in the same order. -/
theorem map_origin {figures : Int} {table : Table} {entries : List Entry} {reports : List Report}
    (h : (ofEntries figures table entries).reports = .ok reports) :
    reports.map (·.origin) = entries.map (·.origin) := by
  induction entries generalizing table reports with
  | nil =>
    cases h
    rfl
  | cons entry rest ih =>
    obtain ⟨report, next, others, hstep, ho, rfl⟩ := exists_step h
    rw [List.map_cons, List.map_cons, ih ho, hstep.origin_eq]

end Evaluation

namespace Report

variable {count : Nat} {reports : List Report} {lines : List (String × Nat)}

/-- Reports in line order have increasing indexes. -/
theorem pairwise_inLineOrder (count : Nat) (reports : List Report) :
    ((inLineOrder count reports).map (·.origin)).Pairwise fun a b => a.2 < b.2 := by
  rw [List.pairwise_map, inLineOrder, List.pairwise_filterMap]
  refine List.pairwise_lt_range.imp fun {i j} hlt a ha b hb => ?_
  have hi : a.index = i := by simpa using List.find?_some ha
  have hj : b.index = j := by simpa using List.find?_some hb
  change a.index < b.index
  omega

/-- No report is lost in line order if no two are on one line. -/
theorem mem_inLineOrder_iff (hd : (reports.map (·.index)).Nodup)
    (hc : ∀ report ∈ reports, report.index < count) {report : Report} :
    report ∈ inLineOrder count reports ↔ report ∈ reports := by
  refine ⟨mem_of_mem_inLineOrder, fun hm => ?_⟩
  obtain ⟨other, ho, hindex⟩ := exists_mem_inLineOrder hm (hc report hm)
  rwa [← List.inj_on_of_nodup_map hd (mem_of_mem_inLineOrder ho) hm hindex]

/-- Reports on some lines, one on each, have the indexes of these lines. -/
theorem nodup_index (hs : lines.Pairwise fun a b => a.2 < b.2)
    (hp : (reports.map (·.origin)).Perm lines) : (reports.map (·.index)).Nodup := by
  have hindexes : (reports.map (·.index)).Perm (lines.map (·.2)) := by
    have hmap := hp.map Prod.snd
    rw [List.map_map] at hmap
    exact hmap
  refine hindexes.nodup_iff.mpr (List.pairwise_map.mpr (hs.imp fun hlt => ?_))
  exact Nat.ne_of_lt hlt

/-- Reports on some lines, one on each, are put in the order of the lines. -/
theorem map_origin_inLineOrder (hs : lines.Pairwise fun a b => a.2 < b.2)
    (hc : ∀ line ∈ lines, line.2 < count) (hp : (reports.map (·.origin)).Perm lines) :
    (inLineOrder count reports).map (·.origin) = lines := by
  have hd := nodup_index hs hp
  have hcount : ∀ report ∈ reports, report.index < count := fun report hm =>
    hc _ (hp.mem_iff.mp (List.mem_map_of_mem hm))
  have hsorted := pairwise_inLineOrder count reports
  have hdistinct : (inLineOrder count reports).Nodup := by
    refine (List.pairwise_map.mp hsorted).imp fun hlt he => ?_
    exact Nat.lt_irrefl _ (he ▸ hlt)
  have hsame : (inLineOrder count reports).Perm reports :=
    (List.perm_ext_iff_of_nodup hdistinct hd.of_map).mpr fun report =>
      mem_inLineOrder_iff hd hcount
  refine ((hsame.map _).trans hp).eq_of_pairwise (fun a b _ _ hab hba => ?_) hsorted hs
  exact absurd hab (Nat.lt_asymm hba)

end Report

namespace Worksheet

/-- The lines that are not blank are in order. -/
theorem pairwise_written (sheet : Worksheet) :
    sheet.written.Pairwise fun a b => a.2 < b.2 := by
  have hall : sheet.lines.zipIdx.Pairwise fun a b => a.2 < b.2 := by
    have hindexes : (sheet.lines.zipIdx.map (·.2)).Pairwise (· < ·) := by
      rw [map_index]
      exact List.pairwise_lt_range
    exact List.pairwise_map.mp hindexes
  exact hall.filter _

/-- The lines that are not blank are lines. -/
theorem index_lt_of_mem_written {sheet : Worksheet} {line : String × Nat}
    (h : line ∈ sheet.written) : line.2 < sheet.lines.length := by
  have hm : line.2 ∈ sheet.lines.zipIdx.map (·.2) :=
    List.mem_map_of_mem (List.mem_of_mem_filter h)
  rw [map_index] at hm
  exact List.mem_range.mp hm

/-- The candidates do not conflict. -/
theorem not_conflicting (sheet : Worksheet) : ¬ Entry.Conflicting sheet.candidates :=
  Entry.agreeing_filter_isFirst sheet.compiled

/-- The candidates assign nothing inside their expressions. -/
theorem plain_of_mem_candidates {sheet : Worksheet} {entry : Entry}
    (h : entry ∈ sheet.candidates) : entry.Plain :=
  Entry.plain_of_mem_ofLines (List.mem_of_mem_filter h)

/-- What is admitted are the candidates. -/
theorem entries_of_admission {sheet : Worksheet} {admission : Admission}
    (h : Admission.ofLines sheet.catalogue sheet.assignedNames [] sheet.lines.zipIdx =
      .ok admission) : admission.entries = sheet.candidates := by
  have hindexes : (sheet.lines.zipIdx.map (·.2)).Nodup := by
    rw [map_index]
    exact List.nodup_range
  rw [Admission.entries_of_ofLines hindexes h, candidates, compiled]
  refine List.filter_congr fun entry _ => ?_
  cases entry.target? <;> simp

/-- The places of the candidates are distinct. -/
theorem nodup_place (sheet : Worksheet) : (sheet.candidates.map (·.place)).Nodup := by
  have hcompiled : (sheet.compiled.map (·.place)).Nodup := by
    refine (Entry.sublist_place _ _ _).nodup ?_
    rw [map_index]
    exact List.nodup_range
  exact (List.filter_sublist.map _).nodup hcompiled

/-- The candidates are distinct. -/
theorem nodup_candidates (sheet : Worksheet) : sheet.candidates.Nodup :=
  sheet.nodup_place.of_map

/-- The cycles of candidates that are set aside. -/
def cycles (sheet : Worksheet) : List (Graph.Cycle Entry) :=
  (Dependency.unravel (sheet.candidates.length + 1) sheet.candidates).1

/-- The candidates that are evaluated, in order. -/
def scheduled (sheet : Worksheet) : List Entry :=
  (Dependency.unravel (sheet.candidates.length + 1) sheet.candidates).2

/-- The candidates are either set aside in cycles or scheduled. -/
theorem unravels (sheet : Worksheet) :
    Dependency.Unravels sheet.candidates sheet.cycles sheet.scheduled :=
  Dependency.unravels sheet.nodup_candidates sheet.not_conflicting (Nat.lt_succ_self _)

/-- The steps of an evaluation that returns reports, which are one on each line that is not blank,
in order. -/
theorem exists_account {sheet : Worksheet} {reports : List Report}
    (h : sheet.evaluate.2 = .ok reports) :
    ∃ admission schedule evaluated,
      Admission.ofLines sheet.catalogue sheet.assignedNames [] sheet.lines.zipIdx =
        .ok admission ∧
      Schedule.ofEntries sheet.figures (sheet.candidates.length + 1) sheet.candidates =
        .ok schedule ∧
      (Evaluation.ofEntries sheet.figures [] schedule.entries).reports = .ok evaluated ∧
      reports.map (·.origin) = sheet.written ∧
      ∀ report, report ∈ reports ↔
        report ∈ admission.reports ∨ report ∈ schedule.reports ∨ report ∈ evaluated := by
  obtain ⟨admission, schedule, evaluated, hadmit, hschedule, hevaluated, -, rfl⟩ :=
    exists_of_evaluate h
  rw [entries_of_admission hadmit] at hschedule
  have hadmitted := Admission.perm_origin hadmit
  rw [entries_of_admission hadmit, ← written] at hadmitted
  have hscheduled := Schedule.perm_origin sheet.nodup_candidates sheet.not_conflicting
    (Nat.lt_succ_self _) hschedule
  rw [← Evaluation.map_origin hevaluated, ← List.map_append] at hscheduled
  have hall : ((admission.reports ++ schedule.reports ++ evaluated).map (·.origin)).Perm
      sheet.written := by
    rw [List.append_assoc, List.map_append]
    refine List.perm_append_comm.trans ?_
    exact (hscheduled.append_right _).trans hadmitted
  have hcount : ∀ line ∈ sheet.written, line.2 < sheet.lines.length :=
    fun _ hm => index_lt_of_mem_written hm
  refine ⟨admission, schedule, evaluated, hadmit, hschedule, hevaluated,
    Report.map_origin_inLineOrder sheet.pairwise_written hcount hall, fun report => ?_⟩
  have hd := Report.nodup_index sheet.pairwise_written hall
  rw [Report.mem_inLineOrder_iff hd fun report hm =>
    hcount _ (hall.mem_iff.mp (List.mem_map_of_mem hm))]
  simp only [List.mem_append, or_assoc]

end Worksheet

end UnitCalculator
