import UnitCalculator.Proofs.Worksheet.Circularity

/-!
# Finding a schedule

A schedule is found by starting again without the members of a cycle as long as there is one. Every
member assigns a variable, so the search starts again at most as often as there are assignments. It
ends with every entry either scheduled or reported as circular.
-/

namespace UnitCalculator

namespace Dependency

/-- Without the members of a reported cycle there are fewer assignments. -/
theorem length_targets_filter {entries : List Entry} {members : Graph.Cycle Entry}
    (hd : entries.Nodup) (ho : order entries = .error (.cycle members)) :
    ((entries.filter (· ∉ members)).filterMap (·.target?)).length <
      (entries.filterMap (·.target?)).length := by
  obtain ⟨hcycle, hsub⟩ := isCycle_of_order_error ho
  have hsplit := ((perm_append_filter hd hcycle.distinct hsub).filterMap (·.target?)).length_eq
  have hmembers := congrArg List.length (map_target (exists_target_of_isCycle hcycle))
  have hpos := List.length_pos_iff.mpr hcycle.nonempty
  rw [List.filterMap_append, List.length_append] at hsplit
  rw [List.length_map, List.length_map] at hmembers
  omega

end Dependency

namespace Schedule

/-- The search for a schedule ends after starting again so many times, each time without the members
of the cycle it met and with reports on them. -/
inductive Found (figures : Int) : Nat → List Entry → Schedule → Prop
  | ordered {entries ordered : List Entry} (ho : Dependency.order entries = .ok ordered) :
    Found figures 0 entries ⟨ordered, []⟩
  | again {retries : Nat} {entries : List Entry} {members : Graph.Cycle Entry}
    {reports : List Report} {rest : Schedule}
    (ho : Dependency.order entries = .error (.cycle members))
    (hr : members.mapM (Report.failed figures (Disorder.cycle members).fault) = .ok reports)
    (h : Found figures retries (entries.filter (· ∉ members)) rest) :
    Found figures (retries + 1) entries { rest with reports := reports ++ rest.reports }

variable {figures : Int} {retries : Nat} {entries : List Entry} {schedule : Schedule}

/-- With more attempts than the search starts again, the schedule is the one it ends with. -/
theorem Found.ofEntries_eq (h : Found figures retries entries schedule) {attempts : Nat}
    (ha : retries < attempts) : ofEntries figures attempts entries = .ok schedule := by
  induction h generalizing attempts with
  | ordered ho =>
    obtain ⟨attempts, rfl⟩ := Nat.exists_eq_add_one_of_ne_zero (Nat.ne_of_gt ha)
    rw [ofEntries, ho]
  | again ho hr _ ih =>
    obtain ⟨attempts, rfl⟩ := Nat.exists_eq_add_one_of_ne_zero (Nat.ne_zero_of_lt ha)
    rw [ofEntries, ho]
    simp only [hr, ih (Nat.lt_of_succ_lt_succ ha)]
    rfl

/-- Reports can be made on entries whose equations can be written. -/
theorem exists_reports {members : List Entry} (fault : Fault)
    (hl : ∀ entry ∈ members, ∃ latex, entry.equation.latex figures = .ok latex) :
    ∃ reports, members.mapM (Report.failed figures fault) = .ok reports := by
  refine exists_mapM_iff.mpr fun entry he => ?_
  obtain ⟨latex, hlatex⟩ := hl entry he
  exact ⟨_, Report.failed_eq_ok_iff.mpr ⟨latex, hlatex, rfl⟩⟩

/-- The search ends for entries that do not conflict and can be written, and starts again at most as
often as they assign a variable. -/
theorem exists_found (hd : entries.Nodup) (hc : ¬ Entry.Conflicting entries)
    (hl : ∀ entry ∈ entries, ∃ latex, entry.equation.latex figures = .ok latex) :
    ∃ retries schedule, retries ≤ (entries.filterMap (·.target?)).length ∧
      Found figures retries entries schedule := by
  induction hn : (entries.filterMap (·.target?)).length using Nat.strong_induction_on
    generalizing entries with
  | h n ih =>
    rcases Dependency.order_cases hd hc with ⟨ordered, ho⟩ | ⟨members, ho⟩
    · exact ⟨0, _, Nat.zero_le _, .ordered ho⟩
    · have hless := Dependency.length_targets_filter hd ho
      have hfewer : entries.filter (· ∉ members) ⊆ entries := List.filter_subset_self _
      have hsub := (Dependency.isCycle_of_order_error ho).2
      obtain ⟨reports, hr⟩ := exists_reports (Disorder.cycle members).fault
        fun entry he => hl entry (hsub he)
      obtain ⟨retries, rest, hle, hfound⟩ := ih _ (hn ▸ hless) (hd.filter _)
        (Dependency.not_conflicting_mono hc hfewer) (fun entry he => hl entry (hfewer he)) rfl
      exact ⟨retries + 1, _, by omega, .again ho hr hfound⟩

/-- An entry is scheduled once, and there is no report on it. -/
def Keeps (schedule : Schedule) (entry : Entry) : Prop :=
  schedule.entries.count entry = 1 ∧ ∀ report ∈ schedule.reports, report.index ≠ entry.place

/-- An entry is not scheduled, and there is one report on it, which tells a cycle among given
entries that it lies on. -/
def SetsAside (schedule : Schedule) (entries : List Entry) (entry : Entry) : Prop :=
  entry ∉ schedule.entries ∧ (schedule.reports.map (·.index)).count entry.place = 1 ∧
    ∃ members, Graph.IsCycle (Entry.dependents entries) members ∧ entry ∈ members ∧
      ∃ report ∈ schedule.reports, report.index = entry.place ∧
        report.result = .error (Disorder.cycle members).fault

/-- The places of reports and scheduled entries are those of all entries. -/
theorem perm_place (hd : entries.Nodup) (hc : ¬ Entry.Conflicting entries)
    (h : ofEntries figures (entries.length + 1) entries = .ok schedule) :
    (schedule.reports.map (·.index) ++ schedule.entries.map (·.place)).Perm
      (entries.map (·.place)) := by
  have hperm := (perm_origin hd hc (Nat.lt_succ_self _) h).map Prod.snd
  rw [List.map_append, List.map_map, List.map_map, List.map_map] at hperm
  exact hperm

/-- What is not taken away with a cycle is scheduled. -/
theorem entries_eq (hd : entries.Nodup) (hc : ¬ Entry.Conflicting entries) {attempts : Nat}
    (h : ofEntries figures attempts entries = .ok schedule) :
    schedule.entries = (Dependency.unravel attempts entries).2 := by
  rw [ofEntries_eq figures hd hc] at h
  obtain ⟨reports, -, h⟩ := bind_eq_ok_iff.mp h
  obtain rfl := pure_eq_ok_iff.mp h
  rfl

/-- Every entry is scheduled once or reported once, and not both. -/
theorem keeps_or_setsAside (hp : (entries.map (·.place)).Nodup)
    (hc : ¬ Entry.Conflicting entries)
    (h : ofEntries figures (entries.length + 1) entries = .ok schedule) {entry : Entry}
    (he : entry ∈ entries) : schedule.Keeps entry ∨ schedule.SetsAside entries entry := by
  have hd : entries.Nodup := hp.of_map
  have hsplit := Dependency.unravels hd hc (Nat.lt_succ_self _)
  have hapart := List.nodup_append.mp (hsplit.perm.nodup_iff.mpr hd)
  rcases List.mem_append.mp (hsplit.perm.mem_iff.mpr he) with haside | hremains
  · right
    obtain ⟨members, hm, hin⟩ := List.mem_flatten.mp haside
    obtain ⟨report, hf⟩ := exists_report hd hc h hm hin
    have hr := (mem_reports_iff hd hc h report).mpr ⟨members, hm, entry, hin, hf⟩
    have hindex : report.index = entry.place := congrArg Prod.snd (Report.origin_of_failed hf)
    have hindexes := (List.nodup_append.mp ((perm_place hd hc h).nodup_iff.mpr hp)).1
    refine ⟨fun hs => ?_, ?_, members, hsplit.cycle members hm, hin, report, hr, hindex,
      Report.result_of_failed hf⟩
    · rw [entries_eq hd hc h] at hs
      exact hapart.2.2 entry haside entry hs rfl
    · exact List.count_eq_one_of_mem hindexes (hindex ▸ List.mem_map_of_mem hr)
  · left
    rw [Keeps, entries_eq hd hc h]
    refine ⟨List.count_eq_one_of_mem hapart.2.1 hremains, fun report hr hindex => ?_⟩
    obtain ⟨members, hm, other, ho, hf⟩ := (mem_reports_iff hd hc h report).mp hr
    have hother : other.place = entry.place :=
      (congrArg Prod.snd (Report.origin_of_failed hf)).symm.trans hindex
    have hflat : other ∈ (Dependency.unravel (entries.length + 1) entries).1.flatten :=
      List.mem_flatten.mpr ⟨members, hm, ho⟩
    have hsame := List.inj_on_of_nodup_map hp
      (hsplit.perm.mem_iff.mp (List.mem_append_left _ hflat)) he hother
    exact hapart.2.2 other hflat entry hremains hsame

/-- The search for a schedule of entries that assign different variables and can be written ends. It
starts again at most as often as there are assignments and meets no conflict, whatever the number of
attempts beyond that. No entry is lost, and none is there twice: each is either scheduled once and
not reported, or reported once, for a cycle of all the entries' dependencies that it lies on, and
not scheduled. There is nothing else in the schedule. -/
theorem found_spec (hp : (entries.map (·.place)).Nodup)
    (ht : (entries.filterMap (·.target?)).Nodup)
    (hl : ∀ entry ∈ entries, ∃ latex, entry.equation.latex figures = .ok latex) :
    ∃ retries schedule, retries ≤ (entries.filterMap (·.target?)).length ∧
      Found figures retries entries schedule ∧
      (∀ attempts, retries < attempts → ofEntries figures attempts entries = .ok schedule) ∧
      (∀ entry ∈ entries, schedule.Keeps entry ∨ schedule.SetsAside entries entry) ∧
      schedule.entries ⊆ entries ∧ schedule.reports.map (·.index) ⊆ entries.map (·.place) := by
  have hd : entries.Nodup := hp.of_map
  have hc : ¬ Entry.Conflicting entries := (Entry.nodup_targets hd).mp ht
  obtain ⟨retries, schedule, hle, hfound⟩ := exists_found hd hc hl
  have hlength : retries < entries.length + 1 :=
    Nat.lt_succ_of_le (hle.trans (List.length_filterMap_le _ _))
  have h := hfound.ofEntries_eq hlength
  refine ⟨retries, schedule, hle, hfound, fun attempts ha => hfound.ofEntries_eq ha,
    fun entry he => keeps_or_setsAside hp hc h he, ?_, ?_⟩
  · rw [entries_eq hd hc h]
    have hsplit := Dependency.unravels hd hc (Nat.lt_succ_self entries.length)
    exact fun entry he => hsplit.perm.subset (List.mem_append_right _ he)
  · exact fun place hm => (perm_place hd hc h).subset (List.mem_append_left _ hm)

/-- Two pairs of variables, each defined by each other, beside one that reads a variable of both. -/
def doublyMutualEntries : List Entry :=
  Entry.ofEquations [Dependency.assignment "x" (.reference "y"),
    Dependency.assignment "v" (.reference "w"), Dependency.assignment "z" (.reference "x"),
    Dependency.assignment "y" (.reference "x"), Dependency.assignment "w" (.reference "v")]

/-- The search for a schedule of two cycles and an entry behind them starts again at most five
times. It schedules that entry and sets the members of the cycles aside. -/
theorem found_spec_doublyMutual : ∃ retries schedule, retries ≤ 5 ∧
    Found Quantity.defaultFigures retries doublyMutualEntries schedule ∧
    schedule.entries.map (·.place) = [2] ∧
    ∀ entry ∈ doublyMutualEntries, entry.place ≠ 2 →
      schedule.SetsAside doublyMutualEntries entry := by
  have hp : (doublyMutualEntries.map (·.place)).Nodup := by decide +kernel
  have ht : (doublyMutualEntries.filterMap (·.target?)).Nodup := by decide +kernel
  have hsome : ∀ entry ∈ doublyMutualEntries,
      (entry.equation.latex Quantity.defaultFigures).toOption.isSome = true := by decide +kernel
  have hl : ∀ entry ∈ doublyMutualEntries,
      ∃ latex, entry.equation.latex Quantity.defaultFigures = .ok latex := by
    intro entry he
    have hentry := hsome entry he
    cases h : entry.equation.latex Quantity.defaultFigures with
    | error failure => simp [h, Except.toOption] at hentry
    | ok latex => exact ⟨latex, rfl⟩
  have hmap : (ofEntries Quantity.defaultFigures 6 doublyMutualEntries).toOption.map
      (·.entries.map (·.place)) = some [2] := by decide +kernel
  obtain ⟨retries, schedule, hle, hfound, hrun, hall, -, -⟩ := found_spec hp ht hl
  have hfive : retries ≤ 5 := hle
  rw [hrun 6 (by omega)] at hmap
  have hscheduled : schedule.entries.map (·.place) = [2] := Option.some.inj hmap
  refine ⟨retries, schedule, hfive, hfound, hscheduled, fun entry he hplace => ?_⟩
  rcases hall entry he with ⟨hcount, -⟩ | haside
  · have hin : entry.place ∈ schedule.entries.map (·.place) :=
      List.mem_map_of_mem (List.count_pos_iff.mp (by omega))
    rw [hscheduled, List.mem_singleton] at hin
    exact absurd hin hplace
  · exact haside

end Schedule

end UnitCalculator
