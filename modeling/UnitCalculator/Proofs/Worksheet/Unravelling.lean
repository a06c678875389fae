import UnitCalculator.Proofs.Worksheet.Dependency
import UnitCalculator.Worksheet.Evaluation

/-!
# Setting cycles aside

A schedule sets one cycle of entries aside after the other until the remaining entries have an
order. What it takes away are cycles of the dependencies of all entries, and what remains has none.
Apart from the reports, which may be impossible to write, nothing else happens.
-/

namespace UnitCalculator

namespace Entry

/-- Dependents among fewer entries are fewer. -/
theorem dependents_mono {entries others : List Entry} (hs : entries ⊆ others) (entry : Entry) :
    dependents entries entry ⊆ dependents others entry := by
  intro other ho
  obtain ⟨hm, hf⟩ := mem_dependents.mp ho
  exact mem_dependents.mpr ⟨hs hm, hf⟩

/-- The members of a cycle of dependencies are entries. -/
theorem subset_of_isCycle {entries : List Entry} {members : Graph.Cycle Entry}
    (h : Graph.IsCycle (dependents entries) members) : members ⊆ entries := by
  intro entry hm
  obtain ⟨before, -, hb⟩ := h.exists_previous hm
  exact (mem_dependents.mp hb).1

/-- A cycle whose members are among fewer entries is one of their dependencies. -/
theorem isCycle_of_subset {entries others : List Entry} {members : Graph.Cycle Entry}
    (h : Graph.IsCycle (dependents others) members) (hs : members ⊆ entries) :
    Graph.IsCycle (dependents entries) members where
  nonempty := h.nonempty
  distinct := h.distinct
  steps := h.steps.imp_of_mem_imp fun _ _ _ hb hab =>
    mem_dependents.mpr ⟨hs hb, (mem_dependents.mp hab).2⟩
  closes := mem_dependents.mpr
    ⟨hs (List.head_mem h.nonempty), (mem_dependents.mp h.closes).2⟩

end Entry

namespace Dependency

/-- The cycles that are set aside one after the other, and the entries that remain, in order. Every
cycle takes at least one entry away, so one attempt more than there are entries is enough. -/
def unravel : Nat → List Entry → List (Graph.Cycle Entry) × List Entry
  | 0, _ => ([], [])
  | attempts + 1, entries =>
    match order entries with
    | .ok ordered => ([], ordered)
    | .error (.conflict _) => ([], [])
    | .error (.cycle members) =>
      let rest := unravel attempts (entries.filter (· ∉ members))
      (members :: rest.1, rest.2)

/-- Entries are split into cycles of their dependencies and others without any. -/
structure Unravels (entries : List Entry) (cycles : List (Graph.Cycle Entry))
    (ordered : List Entry) : Prop where
  /-- No entry is lost or occurs twice. -/
  perm : (cycles.flatten ++ ordered).Perm entries
  /-- What is set aside are cycles. -/
  cycle : ∀ members ∈ cycles, Graph.IsCycle (Entry.dependents entries) members
  /-- What remains is sorted. -/
  sorted : Graph.Sorted (Entry.dependents ordered) ordered

/-- Taking a cycle away leaves the entries that are no members. -/
theorem perm_append_filter {entries : List Entry} {members : Graph.Cycle Entry}
    (hd : entries.Nodup) (hm : members.Nodup) (hs : members ⊆ entries) :
    (members ++ entries.filter (· ∉ members)).Perm entries := by
  have hdisjoint : (members ++ entries.filter (· ∉ members)).Nodup := by
    refine List.Nodup.append hm (hd.filter _) fun entry hmem hf => ?_
    exact (of_decide_eq_true (List.mem_filter.mp hf).2) hmem
  refine (List.perm_ext_iff_of_nodup hdisjoint hd).mpr fun entry => ?_
  rw [List.mem_append, List.mem_filter]
  by_cases hmem : entry ∈ members
  · simp [hmem, hs hmem]
  · simp [hmem]

/-- Fewer entries do not conflict either. -/
theorem not_conflicting_mono {entries others : List Entry} (hc : ¬ Entry.Conflicting others)
    (hs : entries ⊆ others) : ¬ Entry.Conflicting entries := by
  rintro ⟨a, ha, b, hb, h⟩
  exact hc ⟨a, hs ha, b, hs hb, h⟩

/-- Entries that do not conflict are ordered or have a cycle. -/
theorem order_cases {entries : List Entry} (hd : entries.Nodup)
    (hc : ¬ Entry.Conflicting entries) :
    (∃ ordered, order entries = .ok ordered) ∨
      ∃ members, order entries = .error (.cycle members) := by
  rw [order_of_not_conflicting hd hc]
  cases Graph.order entries (Entry.dependents entries) with
  | ok ordered => exact .inl ⟨ordered, rfl⟩
  | error members => exact .inr ⟨members, rfl⟩

/-- Setting cycles aside splits entries that do not conflict. -/
theorem unravels {attempts : Nat} {entries : List Entry} (hd : entries.Nodup)
    (hc : ¬ Entry.Conflicting entries) (hl : entries.length < attempts) :
    Unravels entries (unravel attempts entries).1 (unravel attempts entries).2 := by
  induction attempts generalizing entries with
  | zero => omega
  | succ attempts ih =>
    rw [unravel]
    rcases order_cases hd hc with ⟨ordered, ho⟩ | ⟨members, ho⟩
    · rw [ho]
      obtain ⟨hperm, hsorted⟩ := perm_of_order_ok hd ho
      exact ⟨hperm, by simp, hsorted.mono (Entry.dependents_mono hperm.subset)⟩
    · rw [ho]
      obtain ⟨hcycle, hsub⟩ := isCycle_of_order_error ho
      have hsplit := perm_append_filter hd hcycle.distinct hsub
      have hless : (entries.filter (· ∉ members)).length < attempts := by
        have hsum := hsplit.length_eq
        have hpos := List.length_pos_iff.mpr hcycle.nonempty
        rw [List.length_append] at hsum
        omega
      have hfewer : entries.filter (· ∉ members) ⊆ entries := List.filter_subset_self _
      have hrest := ih (hd.filter _) (not_conflicting_mono hc hfewer) hless
      refine ⟨?_, ?_, hrest.sorted⟩
      · rw [List.flatten_cons, List.append_assoc]
        exact (hrest.perm.append_left members).trans hsplit
      · refine List.forall_mem_cons.mpr ⟨hcycle, fun other ho => ?_⟩
        exact (hrest.cycle other ho).mono (Entry.dependents_mono hfewer)

/-- Some member of every cycle of dependencies is set aside. -/
theorem Unravels.exists_aside {entries ordered : List Entry} {cycles : List (Graph.Cycle Entry)}
    (h : Unravels entries cycles ordered) (hd : entries.Nodup) {members : Graph.Cycle Entry}
    (hm : Graph.IsCycle (Entry.dependents entries) members) :
    ∃ aside ∈ cycles, ∃ entry ∈ aside, entry ∈ members := by
  by_contra hnone
  push Not at hnone
  have hremain : members ⊆ ordered := by
    intro entry he
    have hentry := h.perm.mem_iff.mpr (Entry.subset_of_isCycle hm he)
    rcases List.mem_append.mp hentry with haside | hordered
    · obtain ⟨aside, ha, hin⟩ := List.mem_flatten.mp haside
      exact absurd he (hnone aside ha entry hin)
    · exact hordered
  have hcycle := Entry.isCycle_of_subset hm hremain
  have hdistinct := (List.nodup_append.mp (h.perm.nodup_iff.mpr hd)).2.1
  exact h.sorted.not_transGen hdistinct (hremain (List.head_mem hm.nonempty)) hcycle.transGen

end Dependency

/-- A schedule holds what remains of entries, and reports the fault of a cycle on each member. -/
theorem Schedule.ofEntries_eq (figures : Int) {attempts : Nat} {entries : List Entry}
    (hd : entries.Nodup) (hc : ¬ Entry.Conflicting entries) :
    ofEntries figures attempts entries = do
      let reports ← (Dependency.unravel attempts entries).1.mapM fun members =>
        members.mapM (Report.failed figures (Disorder.cycle members).fault)
      return ⟨(Dependency.unravel attempts entries).2, reports.flatten⟩ := by
  induction attempts generalizing entries with
  | zero => rfl
  | succ attempts ih =>
    rw [ofEntries, Dependency.unravel]
    rcases Dependency.order_cases hd hc with ⟨ordered, ho⟩ | ⟨members, ho⟩
    · rw [ho]
      rfl
    · have hfewer : entries.filter (· ∉ members) ⊆ entries := List.filter_subset_self _
      rw [ho]
      simp only [ih (hd.filter _) (Dependency.not_conflicting_mono hc hfewer), List.mapM_cons,
        bind_assoc, pure_bind, List.flatten_cons]

end UnitCalculator
