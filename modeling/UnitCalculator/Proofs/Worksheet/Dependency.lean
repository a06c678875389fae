import UnitCalculator.Proofs.Failure
import UnitCalculator.Proofs.Graph.Order
import UnitCalculator.Worksheet.Dependency

/-!
# Ordering equations

Equations are ordered unless two of them assign one variable or some of them depend on each other
in a cycle. The cycle that is reported consists of distinct assignments, each of which reads what
the one before it assigns. Entries that are in order already are left as they are, and those that
depend on none of the others keep their order.
-/

namespace UnitCalculator

namespace Entry

/-- An entry assigns a variable that another one reads. -/
def Feeds (a b : Entry) : Prop := ∃ name, a.target? = some name ∧ b.reads name = true

/-- Two different entries assign the same variable. -/
def Conflicting (entries : List Entry) : Prop :=
  ∃ a ∈ entries, ∃ b ∈ entries, a ≠ b ∧ ∃ name, a.target? = some name ∧ b.target? = some name

/-- Some entry depends on itself, directly or through others. -/
def Circular (entries : List Entry) : Prop :=
  ∃ a ∈ entries, Relation.TransGen (fun a b => b ∈ entries ∧ a.Feeds b) a a

/-- An entry reads no variable that one of some entries assigns. -/
def isIndependent (entries : List Entry) (entry : Entry) : Bool :=
  entries.all fun other => other.target?.all fun name => !entry.reads name

/-- The dependents of an entry are the entries it feeds. -/
theorem mem_dependents {entries : List Entry} {a b : Entry} :
    b ∈ dependents entries a ↔ b ∈ entries ∧ a.Feeds b := by
  unfold dependents Feeds
  cases a.target? <;> simp

/-- What an entry feeds is not independent. -/
theorem not_isIndependent {entries : List Entry} {a b : Entry} (ha : a ∈ entries)
    (hf : a.Feeds b) : isIndependent entries b = false := by
  obtain ⟨name, hname, hreads⟩ := hf
  refine List.all_eq_false.mpr ⟨a, ha, ?_⟩
  simp [hname, hreads]

/-- The variables that entries assign are distinct unless some of the entries conflict. -/
theorem nodup_targets {entries : List Entry} (hd : entries.Nodup) :
    (entries.filterMap (·.target?)).Nodup ↔ ¬ Conflicting entries := by
  have hsymm : Std.Symm fun a b : Entry => ∀ name, a.target? = some name →
      b.target? ≠ some name := ⟨fun a b h name hb ha => h name ha hb⟩
  have hp : (entries.filterMap (·.target?)).Nodup ↔
      entries.Pairwise fun a b => ∀ name, a.target? = some name → b.target? ≠ some name := by
    rw [List.Nodup, List.pairwise_filterMap]
    constructor
    · intro h
      exact h.imp fun hab name ha hb => hab name ha name hb rfl
    · intro h
      refine h.imp fun hab name ha other hb he => ?_
      exact hab name ha (he.symm ▸ hb)
  rw [hp]
  constructor
  · rintro h ⟨a, ha, b, hb, hne, name, hta, htb⟩
    exact h.forall ha hb hne name hta htb
  · intro h
    exact hd.pairwise_of_forall_ne fun a ha b hb hne name hta htb =>
      h ⟨a, ha, b, hb, hne, name, hta, htb⟩

end Entry

namespace Dependency

/-- No conflict is found exactly when all assigned variables are distinct and none of them is
assigned before. -/
theorem conflict?_eq_none {assigned : List String} {entries : List Entry} :
    conflict? assigned entries = none ↔
      (entries.filterMap (·.target?)).Nodup ∧
        ∀ name ∈ entries.filterMap (·.target?), name ∉ assigned := by
  induction entries generalizing assigned with
  | nil => simp [conflict?]
  | cons entry rest ih =>
    rw [conflict?]
    cases ht : entry.target? with
    | none => simp only [List.filterMap_cons, ht, ih]
    | some name =>
      simp only [List.filterMap_cons, ht, List.nodup_cons, List.forall_mem_cons]
      by_cases hm : name ∈ assigned
      · simp [hm]
      · rw [if_neg hm, ih]
        simp only [List.mem_cons, not_or]
        constructor
        · rintro ⟨hn, hrest⟩
          exact ⟨⟨fun h => (hrest name h).1 rfl, hn⟩, hm, fun other ho => (hrest other ho).2⟩
        · rintro ⟨⟨hname, hn⟩, -, hrest⟩
          exact ⟨hn, fun other ho => ⟨fun he => hname (he ▸ ho), hrest other ho⟩⟩

/-- An entry is reported as conflicting exactly when two entries conflict. -/
theorem conflict?_isSome {entries : List Entry} (hd : entries.Nodup) :
    (∃ entry, conflict? [] entries = some entry) ↔ Entry.Conflicting entries := by
  rw [← Option.isSome_iff_exists, ← not_iff_not, Option.not_isSome_iff_eq_none,
    conflict?_eq_none, ← Entry.nodup_targets hd]
  simp

/-- Without conflict the order of entries is that of the graph of their dependencies. -/
theorem order_of_not_conflicting {entries : List Entry} (hd : entries.Nodup)
    (hc : ¬ Entry.Conflicting entries) :
    order entries = (Graph.order entries (Entry.dependents entries)).mapError .cycle := by
  have hn : conflict? [] entries = none := by
    rw [← Option.not_isSome_iff_eq_none, Option.isSome_iff_exists, conflict?_isSome hd]
    exact hc
  rw [order, hn]

/-- Dependents are entries. -/
theorem dependents_subset (entries : List Entry) :
    ∀ a ∈ entries, Entry.dependents entries a ⊆ entries :=
  fun _ _ _ hb => (Entry.mem_dependents.mp hb).1

/-- Ordered entries are all entries, those that assign a variable before those that read it. -/
theorem perm_of_order_ok {entries ordered : List Entry} (hd : entries.Nodup)
    (ho : order entries = .ok ordered) :
    ordered.Perm entries ∧ Graph.Sorted (Entry.dependents entries) ordered := by
  rw [order] at ho
  cases hn : conflict? [] entries with
  | some entry => simp [hn] at ho
  | none =>
    rw [hn] at ho
    cases hg : Graph.order entries (Entry.dependents entries) with
    | error members => simp [hg, Except.mapError] at ho
    | ok nodes =>
      have he : nodes = ordered := by simpa [hg, Except.mapError] using ho
      exact Graph.perm_of_order_ok (dependents_subset entries) hd (he ▸ hg)

/-- The entries that are reported as a cycle are one of the graph of dependencies. -/
theorem isCycle_of_order_error {entries : List Entry} {members : Graph.Cycle Entry}
    (ho : order entries = .error (.cycle members)) :
    Graph.IsCycle (Entry.dependents entries) members ∧ members ⊆ entries := by
  have hv := Graph.visited_order (dependents_subset entries)
  rw [order] at ho
  cases hn : conflict? [] entries with
  | some entry => simp [hn] at ho
  | none =>
    rw [hn] at ho
    cases hg : Graph.order entries (Entry.dependents entries) with
    | ok nodes => simp [hg, Except.mapError] at ho
    | error found =>
      have he : found = members := by simpa [hg, Except.mapError] using ho
      rw [hg] at hv
      exact he ▸ hv

/-- Some entries have no order because of a cycle exactly when they do not conflict and one of
them depends on itself. -/
theorem order_error_cycle_iff {entries : List Entry} (hd : entries.Nodup)
    (hc : ¬ Entry.Conflicting entries) :
    (∃ members, order entries = .error (.cycle members)) ↔ Entry.Circular entries := by
  have hg := Graph.order_error_iff (dependents_subset entries) hd
  simp only [Entry.mem_dependents] at hg
  rw [Entry.Circular, ← hg, order_of_not_conflicting hd hc]
  cases Graph.order entries (Entry.dependents entries) <;> simp [Except.mapError]

/-- Every member of a cycle of dependencies assigns a variable. -/
theorem exists_target_of_isCycle {entries : List Entry} {members : Graph.Cycle Entry}
    (h : Graph.IsCycle (Entry.dependents entries) members) :
    ∀ a ∈ members, ∃ name, a.target? = some name := by
  intro a ha
  obtain ⟨b, -, hb⟩ := h.exists_next ha
  obtain ⟨name, hname, -⟩ := (Entry.mem_dependents.mp hb).2
  exact ⟨name, hname⟩

/-- Entries that all assign a variable have as many variables. -/
theorem map_target {entries : List Entry} (h : ∀ a ∈ entries, ∃ name, a.target? = some name) :
    entries.map (·.target?) = (entries.filterMap (·.target?)).map some := by
  induction entries with
  | nil => rfl
  | cons a rest ih =>
    obtain ⟨name, hname⟩ := h a (by simp)
    have hrest := ih fun b hb => h b (List.mem_cons_of_mem _ hb)
    rw [List.map_cons, hname, hrest, List.filterMap_cons_some hname, List.map_cons]

/-- Ordering distinct entries: two that assign one variable are a conflict; without one, a cycle of
dependencies is reported if there is any; otherwise the entries are permuted so that every variable
is assigned before it is read. A reported cycle consists of distinct assignments, each of which
reads what the one before it assigns, the first what the last assigns, and it is told by their
variables, the first one again at the end. -/
theorem order_spec {entries : List Entry} (hd : entries.Nodup) :
    ((∃ entry, order entries = .error (.conflict entry)) ↔ Entry.Conflicting entries) ∧
    (¬ Entry.Conflicting entries →
      ((∃ members, order entries = .error (.cycle members)) ↔ Entry.Circular entries)) ∧
    (¬ Entry.Conflicting entries → ¬ Entry.Circular entries →
      ∃ ordered, order entries = .ok ordered ∧ ordered.Perm entries ∧
        ∀ a ∈ ordered, ∀ b ∈ ordered, a.Feeds b → ordered.idxOf a < ordered.idxOf b) ∧
    ∀ members, order entries = .error (.cycle members) →
      members.Nodup ∧ members ⊆ entries ∧ members.IsChain Entry.Feeds ∧
      (∀ last ∈ members.getLast?, ∀ first ∈ members.head?, last.Feeds first) ∧
      ∃ first others, members.map (·.target?) = (first :: others).map some ∧
        (Disorder.cycle members).fault =
          .circularDependency first (first :: others ++ [first]) := by
  refine ⟨?_, order_error_cycle_iff hd, ?_, ?_⟩
  · rw [← conflict?_isSome hd, order]
    cases hn : conflict? [] entries with
    | some entry => simp
    | none =>
      cases Graph.order entries (Entry.dependents entries) <;> simp [Except.mapError]
  · intro hc hacyclic
    cases ho : order entries with
    | error disorder =>
      cases disorder with
      | conflict entry =>
        rw [order_of_not_conflicting hd hc] at ho
        cases hg : Graph.order entries (Entry.dependents entries) <;>
          simp [hg, Except.mapError] at ho
      | cycle members =>
        exact absurd ((order_error_cycle_iff hd hc).mp ⟨members, ho⟩) hacyclic
    | ok ordered =>
      obtain ⟨hperm, hs⟩ := perm_of_order_ok hd ho
      refine ⟨ordered, rfl, hperm, fun a ha b hb hab => ?_⟩
      exact hs.idxOf_lt (hperm.nodup_iff.mpr hd) ha
        (Entry.mem_dependents.mpr ⟨hperm.mem_iff.mp hb, hab⟩)
  · intro members ho
    obtain ⟨hcycle, hsub⟩ := isCycle_of_order_error ho
    have htargets := exists_target_of_isCycle hcycle
    refine ⟨hcycle.distinct, hsub, ?_, ?_, ?_⟩
    · exact hcycle.steps.imp fun a b hb => (Entry.mem_dependents.mp hb).2
    · intro last hlast head hhead
      obtain ⟨hne, rfl⟩ := List.mem_getLast?_eq_getLast hlast
      rw [List.head?_eq_some_head hne] at hhead
      cases hhead
      exact (Entry.mem_dependents.mp hcycle.closes).2
    · cases members with
      | nil => exact absurd rfl hcycle.nonempty
      | cons a rest =>
        obtain ⟨name, hname⟩ := htargets a (by simp)
        refine ⟨name, rest.filterMap (·.target?), ?_, ?_⟩
        · rw [map_target htargets, List.filterMap_cons_some hname]
        · simp [Disorder.fault, Disorder.path, Disorder.entry?, hname]

/-- The assignment of one operand to a variable. -/
def assignment (name : String) (lexeme : Lexeme) : Equation :=
  ⟨.binary .assign 2 (.leaf ⟨.reference name, 0⟩) (.leaf ⟨lexeme, 4⟩), name ++ " = " ++ lexeme.text⟩

/-- Two variables that are defined by each other, beside one that is not. -/
def mutualEntries : List Entry :=
  Entry.ofEquations [assignment "x" (.reference "y"),
    assignment "z" (.number "1" (.number (.ofNat 1))), assignment "y" (.reference "x")]

/-- Two variables that are defined by each other are the members of a cycle. -/
theorem order_spec_mutual :
    mutualEntries.Nodup ∧ ∃ members, order mutualEntries = .error (.cycle members) ∧
      members.Nodup ∧ members.IsChain Entry.Feeds := by
  have hd : mutualEntries.Nodup := by decide +kernel
  have hsome : (match order mutualEntries with
    | .error (.cycle _) => true
    | _ => false) = true := by decide +kernel
  cases ho : order mutualEntries with
  | ok ordered => simp [ho] at hsome
  | error disorder =>
    cases disorder with
    | conflict entry => simp [ho] at hsome
    | cycle members =>
      have h := (order_spec hd).2.2.2 members ho
      exact ⟨hd, members, rfl, h.1, h.2.2.1⟩

/-- Entries have an order exactly when they do not conflict and the graph of their dependencies has
that order. -/
theorem order_eq_ok_iff {entries ordered : List Entry} (hd : entries.Nodup) :
    order entries = .ok ordered ↔ ¬ Entry.Conflicting entries ∧
      Graph.order entries (Entry.dependents entries) = .ok ordered := by
  by_cases hc : Entry.Conflicting entries
  · obtain ⟨entry, hn⟩ := (conflict?_isSome hd).mpr hc
    simp [order, hn, hc]
  · rw [order_of_not_conflicting hd hc]
    cases Graph.order entries (Entry.dependents entries) <;> simp [Except.mapError, hc]

/-- Ordering is stable. Entries that do not conflict are left as they are if every variable is
assigned before it is read, and so is every order that is found. The entries that read no variable
assigned among them stand in the order that is found as they do in the given one. -/
theorem order_stable_spec {entries : List Entry} (hd : entries.Nodup) :
    (¬ Entry.Conflicting entries →
      (∀ a ∈ entries, ∀ b ∈ entries, a.Feeds b → entries.idxOf a < entries.idxOf b) →
      order entries = .ok entries) ∧
    ∀ ordered, order entries = .ok ordered → order ordered = .ok ordered ∧
      ordered.filter (Entry.isIndependent entries) =
        entries.filter (Entry.isIndependent entries) := by
  constructor
  · intro hc hsorted
    refine (order_eq_ok_iff hd).mpr ⟨hc, Graph.order_of_sorted ?_ hd⟩
    refine Graph.sorted_of_idxOf_lt hd fun a ha b hb => ?_
    obtain ⟨hm, hf⟩ := Entry.mem_dependents.mp hb
    exact ⟨hm, hsorted a ha b hm hf⟩
  · intro ordered ho
    obtain ⟨hperm, hs⟩ := perm_of_order_ok hd ho
    obtain ⟨hc, hg⟩ := (order_eq_ok_iff hd).mp ho
    constructor
    · -- the graph of the ordered entries has the same dependencies, though in another order
      have hdo : ordered.Nodup := hperm.nodup_iff.mpr hd
      have hco : ¬ Entry.Conflicting ordered := by
        rintro ⟨a, ha, b, hb, hab⟩
        exact hc ⟨a, hperm.mem_iff.mp ha, b, hperm.mem_iff.mp hb, hab⟩
      have hsub : ∀ a, Entry.dependents ordered a ⊆ Entry.dependents entries a := by
        intro a b hb
        obtain ⟨hm, hf⟩ := Entry.mem_dependents.mp hb
        exact Entry.mem_dependents.mpr ⟨hperm.mem_iff.mp hm, hf⟩
      exact (order_eq_ok_iff hdo).mpr ⟨hco, Graph.order_of_sorted (hs.mono hsub) hdo⟩
    · refine Graph.filter_order (dependents_subset entries) (fun a ha b hb => ?_) hd hg
      exact Entry.not_isIndependent ha (Entry.mem_dependents.mp hb).2

/-- Definitions that stand in front of what they define. -/
def settledEntries : List Entry :=
  Entry.ofEquations [assignment "w" (.number "2" (.number (.ofNat 2))),
    assignment "x" (.reference "w"), assignment "z" (.number "1" (.number (.ofNat 1))),
    assignment "y" (.reference "x")]

/-- Definitions in reverse, with one that stands alone among them. -/
def reversedEntries : List Entry :=
  Entry.ofEquations [assignment "y" (.reference "x"), assignment "x" (.reference "w"),
    assignment "z" (.number "1" (.number (.ofNat 1))),
    assignment "w" (.number "2" (.number (.ofNat 2)))]

/-- Settled definitions are left as they are. Those in reverse are put in order behind the one that
stands alone, and stay there. -/
theorem order_stable_spec_reversed :
    order settledEntries = .ok settledEntries ∧
    ∃ ordered, order reversedEntries = .ok ordered ∧
      ordered.map (·.place) = [2, 3, 1, 0] ∧ order ordered = .ok ordered ∧
      (ordered.filter (Entry.isIndependent reversedEntries)).map (·.place) = [2, 3] := by
  constructor
  · have hd : settledEntries.Nodup := by decide +kernel
    have hc : ¬ Entry.Conflicting settledEntries :=
      (Entry.nodup_targets hd).mp (by decide +kernel)
    have hsorted : ∀ a ∈ settledEntries, ∀ b ∈ Entry.dependents settledEntries a,
        settledEntries.idxOf a < settledEntries.idxOf b := by decide +kernel
    exact (order_stable_spec hd).1 hc fun a ha b hb hf =>
      hsorted a ha b (Entry.mem_dependents.mpr ⟨hb, hf⟩)
  · have hd : reversedEntries.Nodup := by decide +kernel
    have hplaces : (order reversedEntries).map (·.map (·.place)) = .ok [2, 3, 1, 0] := by
      decide +kernel
    obtain ⟨ordered, ho, hm⟩ := map_eq_ok_iff.mp hplaces
    obtain ⟨hstays, hfilter⟩ := (order_stable_spec hd).2 ordered ho
    have halone : (reversedEntries.filter (Entry.isIndependent reversedEntries)).map (·.place) =
        [2, 3] := by decide +kernel
    exact ⟨ordered, ho, hm, hstays, hfilter ▸ halone⟩

end Dependency

end UnitCalculator
