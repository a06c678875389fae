import Mathlib.Order.Monotone.Basic
import UnitCalculator.Proofs.Expression.Evaluation
import UnitCalculator.Proofs.Worksheet.Dependency

/-!
# The solution of some equations

In rounds, every variable takes the value of an equation that assigns it and has a value with the
variables of the round before. Variables keep their values in later rounds, and after as many
rounds as there are equations nothing changes any more. What is reached is the least solution of
the equations. Variables on a cycle of dependencies have no value in it.
-/

namespace UnitCalculator

/-- Every variable that is bound has the same value in other bindings. -/
def Bindings.Within (bindings others : Bindings) : Prop :=
  ∀ name value, bindings name = some value → others name = some value

namespace Entry

/-- The value of an entry with some bindings, unless it fails. -/
def value? (bindings : Bindings) (entry : Entry) : Option Quantity :=
  (entry.equation.evaluate bindings).toOption

/-- The values of those entries' variables whose expressions have one with some bindings. -/
def round (entries : List Entry) (bindings : Bindings) : Bindings := fun name =>
  entries.findSome? fun entry =>
    if entry.target? = some name then entry.value? bindings else none

/-- The bindings after some rounds, the first of which starts without any. -/
def rounds (entries : List Entry) : Nat → Bindings
  | 0 => fun _ => none
  | count + 1 => round entries (rounds entries count)

/-- The bindings after as many rounds as there are entries. -/
def solution (entries : List Entry) : Bindings := rounds entries entries.length

/-- The entry assigns a variable that is bound. -/
def isBound (bindings : Bindings) (entry : Entry) : Bool :=
  (entry.target?.bind bindings).isSome

/-- No assignment stands in the expression of an entry. -/
def Plain (entry : Entry) : Prop := entry.equation.expression.Plain

/-- Two entries that assign one variable are the same. -/
def Agreeing (entries : List Entry) : Prop := ¬ Conflicting entries

/-- The value of an entry is what its expression evaluates to. -/
theorem value?_eq_some_iff {entry : Entry} {bindings : Bindings} {value : Quantity} :
    entry.value? bindings = some value ↔ entry.equation.evaluate bindings = .ok value := by
  rw [value?]
  cases entry.equation.evaluate bindings <;> simp [Except.toOption]

/-- Bindings that agree on what an entry reads give its expression the same outcome. -/
theorem evaluate_congr {entry : Entry} {bindings others : Bindings}
    (h : ∀ name, entry.reads name = true → bindings name = others name) :
    entry.equation.evaluate bindings = entry.equation.evaluate others := by
  refine Tree.evaluate_congr fun name hn => h name ?_
  rw [reads, List.contains_iff_mem, Equation.mem_usage]
  exact hn

/-- Bindings that agree on what an entry reads give it the same value. -/
theorem value?_congr {entry : Entry} {bindings others : Bindings}
    (h : ∀ name, entry.reads name = true → bindings name = others name) :
    entry.value? bindings = entry.value? others := by
  rw [value?, value?, evaluate_congr h]

/-- What an entry reads is bound if the entry has a value. -/
theorem exists_of_value? {entry : Entry} (hp : entry.Plain) {bindings : Bindings}
    {value : Quantity} (h : entry.value? bindings = some value) {name : String}
    (hr : entry.reads name = true) : ∃ bound, bindings name = some bound := by
  have he : entry.equation.expression.evaluate bindings = .ok value := value?_eq_some_iff.mp h
  rw [reads, List.contains_iff_mem, Equation.mem_usage] at hr
  exact Option.isSome_iff_exists.mp (Tree.isSome_of_evaluate hp he name hr)

/-- More bindings keep the value of an entry. -/
theorem value?_mono {entry : Entry} (hp : entry.Plain) {bindings others : Bindings}
    (hw : bindings.Within others) {value : Quantity} (h : entry.value? bindings = some value) :
    entry.value? others = some value := by
  rw [← h]
  refine (value?_congr fun name hr => ?_).symm
  obtain ⟨bound, hb⟩ := exists_of_value? hp h hr
  rw [hb, hw name bound hb]

/-- Only one entry assigns a variable. -/
theorem Agreeing.eq {entries : List Entry} (ha : Agreeing entries) {a b : Entry}
    (hma : a ∈ entries) (hmb : b ∈ entries) {name : String} (hta : a.target? = some name)
    (htb : b.target? = some name) : a = b := by
  by_contra hne
  exact ha ⟨a, hma, b, hmb, hne, name, hta, htb⟩

/-- A round binds a variable to the value of the entry that assigns it. -/
theorem round_eq_some_iff {entries : List Entry} (ha : Agreeing entries) {bindings : Bindings}
    {name : String} {value : Quantity} :
    round entries bindings name = some value ↔
      ∃ entry ∈ entries, entry.target? = some name ∧ entry.value? bindings = some value := by
  have hfound : ∀ found, round entries bindings name = some found →
      ∃ entry ∈ entries, entry.target? = some name ∧ entry.value? bindings = some found := by
    intro found h
    obtain ⟨entry, hm, he⟩ := List.exists_of_findSome?_eq_some h
    by_cases ht : entry.target? = some name
    · exact ⟨entry, hm, ht, by simpa [ht] using he⟩
    · simp [ht] at he
  refine ⟨hfound value, ?_⟩
  rintro ⟨entry, hm, ht, hv⟩
  cases hr : round entries bindings name with
  | none =>
    have hnone := List.findSome?_eq_none_iff.mp hr entry hm
    rw [if_pos ht, hv] at hnone
    cases hnone
  | some found =>
    obtain ⟨other, hmo, hto, hvo⟩ := hfound found hr
    obtain rfl := ha.eq hmo hm hto ht
    rw [← hvo, hv]

/-- A round binds the variable of an entry to its value, if it has one. -/
theorem round_target {entries : List Entry} (ha : Agreeing entries) {bindings : Bindings}
    {entry : Entry} (hm : entry ∈ entries) {name : String} (ht : entry.target? = some name) :
    round entries bindings name = entry.value? bindings := by
  cases hv : entry.value? bindings with
  | some value => exact (round_eq_some_iff ha).mpr ⟨entry, hm, ht, hv⟩
  | none =>
    cases hr : round entries bindings name with
    | none => rfl
    | some found =>
      obtain ⟨other, hmo, hto, hvo⟩ := (round_eq_some_iff ha).mp hr
      obtain rfl := ha.eq hmo hm hto ht
      rw [hv] at hvo
      cases hvo

/-- A round with more bindings binds more. -/
theorem round_mono {entries : List Entry} (ha : Agreeing entries) (hp : ∀ e ∈ entries, e.Plain)
    {bindings others : Bindings} (hw : bindings.Within others) :
    (round entries bindings).Within (round entries others) := by
  intro name value h
  obtain ⟨entry, hm, ht, hv⟩ := (round_eq_some_iff ha).mp h
  exact (round_eq_some_iff ha).mpr ⟨entry, hm, ht, value?_mono (hp entry hm) hw hv⟩

/-- Later rounds keep the values of earlier ones. -/
theorem rounds_within_succ {entries : List Entry} (ha : Agreeing entries)
    (hp : ∀ e ∈ entries, e.Plain) (count : Nat) :
    (rounds entries count).Within (rounds entries (count + 1)) := by
  induction count with
  | zero => exact fun name value h => by cases h
  | succ count ih => exact round_mono ha hp ih

/-- Entries whose variables are bound keep them bound by more bindings. -/
theorem isBound_mono {bindings others : Bindings} (hw : bindings.Within others) {entry : Entry}
    (h : entry.isBound bindings = true) : entry.isBound others = true := by
  obtain ⟨value, hv⟩ := Option.isSome_iff_exists.mp h
  obtain ⟨name, ht, hb⟩ := Option.bind_eq_some_iff.mp hv
  rw [isBound, ht, Option.bind_some, hw name value hb]
  rfl

/-- A round that binds the variables of no more entries changes nothing. -/
theorem rounds_succ_eq {entries : List Entry} (ha : Agreeing entries)
    (hp : ∀ e ∈ entries, e.Plain) {count : Nat}
    (hc : entries.countP (isBound (rounds entries count)) =
      entries.countP (isBound (rounds entries (count + 1)))) :
    rounds entries (count + 1) = rounds entries count := by
  have hw := rounds_within_succ ha hp count
  have hsame : entries.filter (isBound (rounds entries count)) =
      entries.filter (isBound (rounds entries (count + 1))) := by
    have hsub := List.monotone_filter_right entries
      fun entry (h : entry.isBound (rounds entries count) = true) => isBound_mono hw h
    refine hsub.eq_of_length ?_
    rw [← List.countP_eq_length_filter, ← List.countP_eq_length_filter, hc]
  funext name
  cases hb : rounds entries count name with
  | some value => exact hw name value hb
  | none =>
    cases hr : rounds entries (count + 1) name with
    | none => rfl
    | some value =>
      obtain ⟨entry, hm, ht, -⟩ := (round_eq_some_iff ha).mp hr
      have hlater : entry ∈ entries.filter (isBound (rounds entries (count + 1))) :=
        List.mem_filter.mpr ⟨hm, by rw [isBound, ht, Option.bind_some, hr]; rfl⟩
      rw [← hsame] at hlater
      have hbound := (List.mem_filter.mp hlater).2
      rw [isBound, ht, Option.bind_some, hb] at hbound
      cases hbound

/-- After as many rounds as there are entries nothing changes any more. -/
theorem round_solution {entries : List Entry} (ha : Agreeing entries)
    (hp : ∀ e ∈ entries, e.Plain) : round entries (solution entries) = solution entries := by
  have hmono : Monotone fun count => entries.countP (isBound (rounds entries count)) :=
    monotone_nat_of_le_succ fun count => List.countP_mono_left fun _ _ h =>
      isBound_mono (rounds_within_succ ha hp count) h
  have hstable : ∀ count, entries.countP (isBound (rounds entries count)) =
      entries.countP (isBound (rounds entries (count + 1))) →
      entries.countP (isBound (rounds entries (count + 1))) =
        entries.countP (isBound (rounds entries (count + 1 + 1))) := by
    intro count hc
    have he := rounds_succ_eq ha hp hc
    rw [rounds, rounds, he, ← rounds]
  have hfinal := Nat.stabilises_of_monotone hmono (fun count => List.countP_le_length)
    hstable entries.length.le_succ
  exact rounds_succ_eq ha hp hfinal.symm

/-- Bindings that a round keeps bind all that the solution binds. -/
theorem solution_within {entries : List Entry} (ha : Agreeing entries)
    (hp : ∀ e ∈ entries, e.Plain) {bindings : Bindings}
    (hb : (round entries bindings).Within bindings) : (solution entries).Within bindings := by
  have hall : ∀ count, (rounds entries count).Within bindings := by
    intro count
    induction count with
    | zero => exact fun name value h => by cases h
    | succ count ih =>
      intro name value h
      exact hb name value (round_mono ha hp ih name value h)
  exact hall entries.length

/-- In no round a variable is bound that a member of a cycle assigns. -/
theorem rounds_eq_none {entries : List Entry} (ha : Agreeing entries)
    (hp : ∀ e ∈ entries, e.Plain) {members : Graph.Cycle Entry}
    (hc : Graph.IsCycle (dependents entries) members) (hs : members ⊆ entries) (count : Nat) :
    ∀ a ∈ members, ∀ name, a.target? = some name → rounds entries count name = none := by
  induction count with
  | zero => intros; rfl
  | succ count ih =>
    intro a hma name ht
    obtain ⟨b, hmb, hba⟩ := hc.exists_previous hma
    obtain ⟨read, hread, hreads⟩ := (mem_dependents.mp hba).2
    rw [rounds, round_target ha (hs hma) ht]
    cases hv : a.value? (rounds entries count) with
    | none => rfl
    | some value =>
      obtain ⟨bound, hbound⟩ := exists_of_value? (hp a (hs hma)) hv hreads
      rw [ih b hmb read hread] at hbound
      cases hbound

/-- The members of a cycle have no value with the solution. -/
theorem value?_solution_eq_none {entries : List Entry} (ha : Agreeing entries)
    (hp : ∀ e ∈ entries, e.Plain) {members : Graph.Cycle Entry}
    (hc : Graph.IsCycle (dependents entries) members) (hs : members ⊆ entries) {a : Entry}
    (hm : a ∈ members) : a.value? (solution entries) = none := by
  obtain ⟨name, ht⟩ := Dependency.exists_target_of_isCycle hc a hm
  rw [← round_target ha (hs hm) ht, round_solution ha hp]
  exact rounds_eq_none ha hp hc hs _ a hm name ht

end Entry

end UnitCalculator
