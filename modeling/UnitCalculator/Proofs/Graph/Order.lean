import Mathlib.Data.List.Chain
import Mathlib.Data.List.Nodup
import Mathlib.Data.List.Perm.Subperm
import Mathlib.Logic.Relation
import UnitCalculator.Graph.Order

/-!
# The depth-first order of a graph

A search keeps a path of open nodes, each a successor of the next outer one, and the finished nodes,
whose successors all stand behind them. Visiting a node keeps this or closes a cycle. The order of a
graph is therefore a list of all its nodes before their successors, and it is missing exactly when
the graph has a cycle. Later nodes are visited first, so sorted nodes are left as they are, and the
nodes that are no successors keep their order among any others.
-/

namespace UnitCalculator.Graph

variable {α : Type}

/-- Every successor of a listed node stands behind it. -/
def Sorted (successors : α → List α) : List α → Prop
  | [] => True
  | a :: rest => (∀ b ∈ successors a, b ∈ rest) ∧ Sorted successors rest

/-- Distinct nodes, each a successor of the one before it and the first of the last. -/
structure IsCycle (successors : α → List α) (members : Cycle α) : Prop where
  /-- A cycle has a node. -/
  nonempty : members ≠ []
  /-- No node occurs twice. -/
  distinct : members.Nodup
  /-- Every node but the first is a successor of the one before it. -/
  steps : members.IsChain fun a b => b ∈ successors a
  /-- The first node is a successor of the last. -/
  closes : members.head nonempty ∈ successors (members.getLast nonempty)

/-- A path of open nodes, the innermost first, beside the finished nodes. -/
structure Searching (nodes : List α) (successors : α → List α) (path finished : List α) :
    Prop where
  /-- Open nodes belong to the graph. -/
  path_subset : path ⊆ nodes
  /-- No node is open twice. -/
  path_nodup : path.Nodup
  /-- Every open node but the outermost is a successor of the next outer one. -/
  path_chain : path.IsChain fun inner outer => inner ∈ successors outer
  /-- Finished nodes belong to the graph. -/
  finished_subset : finished ⊆ nodes
  /-- No node is finished twice. -/
  finished_nodup : finished.Nodup
  /-- Finished nodes stand before their successors. -/
  finished_sorted : Sorted successors finished
  /-- An open node is not finished. -/
  apart : path.Disjoint finished

/-- A search starts with nothing open and nothing finished. -/
theorem Searching.start (nodes : List α) (successors : α → List α) :
    Searching nodes successors [] [] :=
  ⟨by simp, .nil, .nil, by simp, .nil, trivial, by simp⟩

/-- A path has at most as many nodes as the graph. -/
theorem Searching.path_length {nodes : List α} {successors : α → List α}
    {path finished : List α} (h : Searching nodes successors path finished) :
    path.length ≤ nodes.length :=
  (h.path_nodup.subperm h.path_subset).length_le

/-- Opening a node that is neither open nor finished. -/
theorem Searching.descend {nodes : List α} {successors : α → List α}
    {path finished : List α} {node : α} (h : Searching nodes successors path finished)
    (hn : node ∈ nodes) (hs : ∀ outer ∈ path.head?, node ∈ successors outer)
    (hp : node ∉ path) (hf : node ∉ finished) :
    Searching nodes successors (node :: path) finished where
  path_subset := List.cons_subset.mpr ⟨hn, h.path_subset⟩
  path_nodup := List.nodup_cons.mpr ⟨hp, h.path_nodup⟩
  path_chain := List.isChain_cons.mpr ⟨hs, h.path_chain⟩
  finished_subset := h.finished_subset
  finished_nodup := h.finished_nodup
  finished_sorted := h.finished_sorted
  apart := List.disjoint_cons_left.mpr ⟨hf, h.apart⟩

/-- Finishing the innermost open node once its successors are finished. -/
theorem Searching.ascend {nodes : List α} {successors : α → List α}
    {path finished : List α} {node : α}
    (h : Searching nodes successors (node :: path) finished)
    (hs : ∀ b ∈ successors node, b ∈ finished) :
    Searching nodes successors path (node :: finished) where
  path_subset := (List.cons_subset.mp h.path_subset).2
  path_nodup := (List.nodup_cons.mp h.path_nodup).2
  path_chain := h.path_chain.tail
  finished_subset := List.cons_subset.mpr
    ⟨(List.cons_subset.mp h.path_subset).1, h.finished_subset⟩
  finished_nodup := List.nodup_cons.mpr
    ⟨(List.disjoint_cons_left.mp h.apart).1, h.finished_nodup⟩
  finished_sorted := ⟨hs, h.finished_sorted⟩
  apart := List.disjoint_cons_right.mpr
    ⟨(List.nodup_cons.mp h.path_nodup).1, (List.disjoint_cons_left.mp h.apart).2⟩

/-- Steps along a chain lead from its first node to every other one. -/
theorem transGen_of_isChain {r : α → α → Prop} {a : α} {rest : List α}
    (h : (a :: rest).IsChain r) {b : α} (hb : b ∈ rest) : Relation.TransGen r a b := by
  induction rest generalizing a with
  | nil => simp at hb
  | cons c rest ih =>
    obtain ⟨hac, hc⟩ := List.isChain_cons_cons.mp h
    rcases List.mem_cons.mp hb with rfl | hb
    · exact .single hac
    · exact .head hac (ih hc hb)

/-- Every node of a cycle leads back to itself, seen from the first one. -/
theorem IsCycle.transGen {successors : α → List α} {members : Cycle α}
    (h : IsCycle successors members) :
    Relation.TransGen (fun a b => b ∈ successors a) (members.head h.nonempty)
      (members.head h.nonempty) := by
  obtain ⟨hn, hd, hs, hc⟩ := h
  cases members with
  | nil => contradiction
  | cons a rest =>
    rcases List.eq_nil_or_concat rest with rfl | ⟨inner, last, rfl⟩
    · exact .single hc
    · have hl : Relation.TransGen (fun a b => b ∈ successors a) a last :=
        transGen_of_isChain hs (by simp)
      exact hl.tail (by simpa using hc)

/-- A cycle of a graph is one of every larger graph. -/
theorem IsCycle.mono {successors others : α → List α} {members : Cycle α}
    (h : IsCycle successors members) (hm : ∀ a, successors a ⊆ others a) :
    IsCycle others members where
  nonempty := h.nonempty
  distinct := h.distinct
  steps := h.steps.imp fun a _ hb => hm a hb
  closes := hm _ h.closes

/-- Every node of a cycle has a successor in it. -/
theorem IsCycle.exists_next {successors : α → List α} {members : Cycle α}
    (h : IsCycle successors members) {a : α} (ha : a ∈ members) :
    ∃ b ∈ members, b ∈ successors a := by
  obtain ⟨before, behind, rfl⟩ := List.append_of_mem ha
  cases behind with
  | nil => exact ⟨_, List.head_mem h.nonempty, by simpa using h.closes⟩
  | cons b behind => exact ⟨b, by simp, h.steps.right_of_append.rel⟩

/-- Every node of a cycle is a successor of one in it. -/
theorem IsCycle.exists_previous {successors : α → List α} {members : Cycle α}
    (h : IsCycle successors members) {a : α} (ha : a ∈ members) :
    ∃ b ∈ members, a ∈ successors b := by
  obtain ⟨before, behind, rfl⟩ := List.append_of_mem ha
  rcases List.eq_nil_or_concat before with rfl | ⟨inner, b, rfl⟩
  · exact ⟨_, List.getLast_mem h.nonempty, by simpa using h.closes⟩
  · have hsteps := h.steps
    rw [List.concat_eq_append, List.append_assoc] at hsteps
    exact ⟨b, by simp, hsteps.right_of_append.rel⟩

/-- The successors of sorted nodes are among them. -/
theorem Sorted.mem {successors : α → List α} {nodes : List α} (hs : Sorted successors nodes)
    {a b : α} (ha : a ∈ nodes) (hb : b ∈ successors a) : b ∈ nodes := by
  induction nodes with
  | nil => simp at ha
  | cons first rest ih =>
    obtain ⟨hfirst, hrest⟩ := hs
    rcases List.mem_cons.mp ha with rfl | ha
    · exact List.mem_cons_of_mem _ (hfirst b hb)
    · exact List.mem_cons_of_mem _ (ih hrest ha)

/-- Nodes sorted by their successors are sorted by fewer successors. -/
theorem Sorted.mono {successors others : α → List α} {nodes : List α}
    (hs : Sorted successors nodes) (hm : ∀ a, others a ⊆ successors a) : Sorted others nodes := by
  induction nodes with
  | nil => trivial
  | cons first rest ih => exact ⟨fun b hb => hs.1 b (hm first hb), ih hs.2⟩

/-- In a sorted list without repetition a node stands behind those that it is a successor of. -/
theorem Sorted.mem_front {successors : α → List α} {front back : List α} {a b : α}
    (hs : Sorted successors (front ++ a :: back)) (hd : (front ++ a :: back).Nodup)
    (hb : b ∈ front ++ a :: back) (ha : a ∈ successors b) : b ∈ front := by
  induction front with
  | nil =>
    have hfirst := (List.nodup_cons.mp hd).1
    rcases List.mem_cons.mp hb with rfl | hback
    · exact absurd (hs.1 _ ha) hfirst
    · exact absurd (hs.2.mem hback ha) hfirst
  | cons first rest ih =>
    rcases List.mem_cons.mp hb with rfl | hb
    · exact List.mem_cons_self
    · exact List.mem_cons_of_mem _ (ih hs.2 (List.nodup_cons.mp hd).2 hb)

/-- What visiting some nodes leaves: all of them finished besides those finished before, or a
cycle of the graph. -/
def Visited (nodes : List α) (successors : α → List α) (path targets finished : List α) :
    Except (Cycle α) (List α) → Prop
  | .ok later => Searching nodes successors path later ∧ finished <:+ later ∧ targets ⊆ later
  | .error members => IsCycle successors members ∧ members ⊆ nodes

/-- Visiting nodes one after the other, the last one first. -/
theorem visited_foldrM {nodes : List α} {successors : α → List α} {path : List α}
    {step : α → List α → Except (Cycle α) (List α)} {targets : List α}
    (hstep : ∀ node ∈ targets, ∀ finished, Searching nodes successors path finished →
      Visited nodes successors path [node] finished (step node finished))
    {finished : List α} (h : Searching nodes successors path finished) :
    Visited nodes successors path targets finished (targets.foldrM step finished) := by
  induction targets with
  | nil => exact ⟨h, List.suffix_refl _, by simp⟩
  | cons node rest ih =>
    have hrest := ih fun n hn => hstep n (List.mem_cons_of_mem _ hn)
    rw [List.foldrM_cons]
    cases hr : rest.foldrM step finished with
    | error members =>
      rw [hr] at hrest
      exact hrest
    | ok later =>
      rw [hr] at hrest
      obtain ⟨hl, hsuffix, hsub⟩ := hrest
      have hn := hstep node (by simp) later hl
      change Visited nodes successors path (node :: rest) finished (step node later)
      cases hv : step node later with
      | error members =>
        rw [hv] at hn
        exact hn
      | ok last =>
        rw [hv] at hn
        obtain ⟨hl', hsuffix', hsub'⟩ := hn
        refine ⟨hl', hsuffix.trans hsuffix', List.cons_subset.mpr ⟨hsub' (by simp), ?_⟩⟩
        exact List.Subset.trans hsub hsuffix'.subset

/-- Steps that finish no node of a kind keep the finished nodes of that kind. -/
theorem filter_foldrM {p : α → Bool} {step : α → List α → Except (Cycle α) (List α)}
    {targets finished later : List α}
    (hstep : ∀ node ∈ targets, ∀ finished later, step node finished = .ok later →
      later.filter p = finished.filter p)
    (h : targets.foldrM step finished = .ok later) : later.filter p = finished.filter p := by
  induction targets generalizing later with
  | nil => rw [Except.ok.inj h]
  | cons node rest ih =>
    rw [List.foldrM_cons] at h
    cases hr : rest.foldrM step finished with
    | error members =>
      rw [hr] at h
      cases h
    | ok middle =>
      rw [hr] at h
      rw [hstep node (by simp) middle later h,
        ih (fun n hn => hstep n (List.mem_cons_of_mem _ hn)) hr]

variable [DecidableEq α]

/-- In a sorted list without repetition every node stands before its successors. -/
theorem Sorted.idxOf_lt {successors : α → List α} {nodes : List α}
    (hs : Sorted successors nodes) (hd : nodes.Nodup) {a b : α} (ha : a ∈ nodes)
    (hb : b ∈ successors a) : nodes.idxOf a < nodes.idxOf b := by
  induction nodes with
  | nil => simp at ha
  | cons first rest ih =>
    obtain ⟨hfirst, hrest⟩ := hs
    obtain ⟨hnot, hdrest⟩ := List.nodup_cons.mp hd
    rcases List.mem_cons.mp ha with rfl | ha
    · have hne : a ≠ b := fun he => hnot (he ▸ hfirst b hb)
      rw [List.idxOf_cons_self, List.idxOf_cons_ne _ hne]
      omega
    · have hlt := ih hrest hdrest ha
      have hfa : first ≠ a := fun he => hnot (he ▸ ha)
      have hfb : first ≠ b := fun he => hnot (he ▸ hrest.mem ha hb)
      rw [List.idxOf_cons_ne _ hfa, List.idxOf_cons_ne _ hfb]
      omega

/-- Distinct nodes that stand before their successors are sorted. -/
theorem sorted_of_idxOf_lt {successors : α → List α} {nodes : List α} (hd : nodes.Nodup)
    (h : ∀ a ∈ nodes, ∀ b ∈ successors a, b ∈ nodes ∧ nodes.idxOf a < nodes.idxOf b) :
    Sorted successors nodes := by
  induction nodes with
  | nil => trivial
  | cons first rest ih =>
    obtain ⟨hnot, hdrest⟩ := List.nodup_cons.mp hd
    -- what stands behind any node stands behind the first one
    have hrest : ∀ a ∈ first :: rest, ∀ b ∈ successors a, b ∈ rest ∧ first ≠ b := by
      intro a ha b hb
      obtain ⟨hm, hlt⟩ := h a ha b hb
      have hne : first ≠ b := by
        rintro rfl
        rw [List.idxOf_cons_self] at hlt
        omega
      exact ⟨(List.mem_cons.mp hm).resolve_left hne.symm, hne⟩
    refine ⟨fun b hb => (hrest first (by simp) b hb).1, ih hdrest fun a ha b hb => ?_⟩
    obtain ⟨hm, hne⟩ := hrest a (List.mem_cons_of_mem _ ha) b hb
    have hlt := (h a (List.mem_cons_of_mem _ ha) b hb).2
    have hfa : first ≠ a := fun he => hnot (he ▸ ha)
    rw [List.idxOf_cons_ne _ hfa, List.idxOf_cons_ne _ hne] at hlt
    exact ⟨hm, by omega⟩

/-- No node of a sorted list without repetition leads back to itself. -/
theorem Sorted.not_transGen {successors : α → List α} {nodes : List α}
    (hs : Sorted successors nodes) (hd : nodes.Nodup) {a : α} (ha : a ∈ nodes) :
    ¬ Relation.TransGen (fun a b => b ∈ successors a) a a := by
  have hstep : ∀ b, Relation.TransGen (fun a b => b ∈ successors a) a b →
      b ∈ nodes ∧ nodes.idxOf a < nodes.idxOf b := by
    intro b h
    induction h with
    | single hb => exact ⟨hs.mem ha hb, hs.idxOf_lt hd ha hb⟩
    | tail _ hb ih => exact ⟨hs.mem ih.1 hb, ih.2.trans (hs.idxOf_lt hd ih.1 hb)⟩
  intro h
  exact lt_irrefl _ (hstep a h).2

/-- A step from the innermost open node back to an open node closes a cycle. -/
theorem Searching.isCycle_closeCycle {nodes : List α} {successors : α → List α}
    {path finished : List α} {node : α} (h : Searching nodes successors path finished)
    (hs : ∀ outer ∈ path.head?, node ∈ successors outer) (hp : node ∈ path) :
    IsCycle successors (closeCycle path node) ∧ closeCycle path node ⊆ nodes := by
  obtain ⟨inner, outer, rfl, hi⟩ := List.eq_append_cons_of_mem hp
  have he : closeCycle (inner ++ node :: outer) node = (inner ++ [node]).reverse := by
    have ht : (inner ++ node :: outer).takeWhile (· ≠ node) = inner := by
      have hall : ∀ a ∈ inner, decide (a ≠ node) = true := by
        intro a ha
        exact decide_eq_true fun he => hi (he ▸ ha)
      rw [List.takeWhile_append_of_pos hall]
      simp
    rw [closeCycle, ht, List.reverse_append]
    rfl
  have hsub : (inner ++ [node]).Sublist (inner ++ node :: outer) := by simp
  rw [he]
  refine ⟨⟨by simp, ?_, ?_, ?_⟩, ?_⟩
  · exact List.nodup_reverse.mpr (hsub.nodup h.path_nodup)
  · rw [List.isChain_reverse]
    exact h.path_chain.prefix ⟨outer, by simp⟩
  · cases inner with
    | nil => simpa using hs node (by simp)
    | cons first rest => simpa using hs first (by simp)
  · intro a ha
    exact h.path_subset (hsub.subset (List.mem_reverse.mp ha))

/-- A visit finishes its node or finds a cycle. The path grows with every level of the search, so
its length bounds the depth that is needed. -/
theorem visited_visit {nodes : List α} {successors : α → List α}
    (hc : ∀ a ∈ nodes, successors a ⊆ nodes) (depth : Nat) {path finished : List α} {node : α}
    (h : Searching nodes successors path finished) (hn : node ∈ nodes)
    (hs : ∀ outer ∈ path.head?, node ∈ successors outer)
    (hd : nodes.length < depth + path.length) :
    Visited nodes successors path [node] finished
      (visit successors depth path node finished) := by
  induction depth generalizing path finished node with
  | zero =>
    have hl := h.path_length
    omega
  | succ depth ih =>
    rw [visit]
    by_cases hp : node ∈ path
    · rw [if_pos hp]
      exact h.isCycle_closeCycle hs hp
    · rw [if_neg hp]
      by_cases hf : node ∈ finished
      · rw [if_pos hf]
        exact ⟨h, List.suffix_refl _, by simpa using hf⟩
      · rw [if_neg hf]
        have hinner := h.descend hn hs hp hf
        have hstep : ∀ next ∈ successors node, ∀ later,
            Searching nodes successors (node :: path) later →
            Visited nodes successors (node :: path) [next] later
              (visit successors depth (node :: path) next later) := by
          intro next hnext later hl
          exact ih hl (hc node hn hnext) (by simpa using hnext)
            (by rw [List.length_cons]; omega)
        have hv := visited_foldrM hstep hinner
        cases hr : (successors node).foldrM (visit successors depth (node :: path)) finished with
        | error members =>
          rw [hr] at hv
          exact hv
        | ok later =>
          rw [hr] at hv
          obtain ⟨hl, hsuffix, hsub⟩ := hv
          exact ⟨hl.ascend hsub, hsuffix.trans (List.suffix_cons _ _), by simp⟩

/-- The order of a graph lists its nodes, sorted and without repetition, or is a cycle. -/
theorem visited_order {nodes : List α} {successors : α → List α}
    (hc : ∀ a ∈ nodes, successors a ⊆ nodes) :
    Visited nodes successors [] nodes [] (order nodes successors) :=
  visited_foldrM (fun _ hn _ hl => visited_visit hc _ hl hn (by simp) (by simp))
    (Searching.start nodes successors)

/-- An order of distinct nodes is a permutation of them in which they stand before their
successors. -/
theorem perm_of_order_ok {nodes : List α} {successors : α → List α}
    (hc : ∀ a ∈ nodes, successors a ⊆ nodes) (hd : nodes.Nodup) {ordered : List α}
    (ho : order nodes successors = .ok ordered) :
    ordered.Perm nodes ∧ Sorted successors ordered := by
  have hv := visited_order hc
  rw [ho] at hv
  obtain ⟨hl, -, hsub⟩ := hv
  refine ⟨(List.perm_ext_iff_of_nodup hl.finished_nodup hd).mpr fun a => ?_, hl.finished_sorted⟩
  exact ⟨fun ha => hl.finished_subset ha, fun ha => hsub ha⟩

/-- A graph has no order exactly when some node leads back to itself. -/
theorem order_error_iff {nodes : List α} {successors : α → List α}
    (hc : ∀ a ∈ nodes, successors a ⊆ nodes) (hd : nodes.Nodup) :
    (∃ members, order nodes successors = .error members) ↔
      ∃ a ∈ nodes, Relation.TransGen (fun a b => b ∈ successors a) a a := by
  have hv := visited_order hc
  constructor
  · rintro ⟨members, hm⟩
    rw [hm] at hv
    exact ⟨_, hv.2 (List.head_mem hv.1.nonempty), hv.1.transGen⟩
  · rintro ⟨a, ha, hcycle⟩
    cases ho : order nodes successors with
    | error members => exact ⟨members, rfl⟩
    | ok ordered =>
      obtain ⟨hperm, hs⟩ := perm_of_order_ok hc hd ho
      exact absurd hcycle (hs.not_transGen (hperm.nodup_iff.mpr hd) (hperm.mem_iff.mpr ha))

/-- Visiting finished nodes changes nothing. -/
theorem foldrM_visit_of_finished {successors : α → List α} (depth : Nat)
    {path targets finished : List α} (hf : targets ⊆ finished) (hp : targets.Disjoint path) :
    targets.foldrM (visit successors depth path) finished = .ok finished := by
  induction targets with
  | nil => rfl
  | cons node rest ih =>
    obtain ⟨hnode, hrest⟩ := List.cons_subset.mp hf
    obtain ⟨hnot, hpath⟩ := List.disjoint_cons_left.mp hp
    rw [List.foldrM_cons, ih hrest hpath]
    change visit successors depth path node finished = .ok finished
    cases depth with
    | zero => rfl
    | succ depth => rw [visit, if_neg hnot, if_pos hnode]

/-- Sorted nodes are their own order: when a node is visited its successors are finished. -/
theorem order_of_sorted {nodes : List α} {successors : α → List α} (hs : Sorted successors nodes)
    (hd : nodes.Nodup) : order nodes successors = .ok nodes := by
  rw [order]
  generalize nodes.length = depth
  induction nodes with
  | nil => rfl
  | cons node rest ih =>
    obtain ⟨hnode, hrest⟩ := hs
    obtain ⟨hnot, hdrest⟩ := List.nodup_cons.mp hd
    have hpath : (successors node).Disjoint [node] :=
      List.disjoint_singleton.mpr fun hself => hnot (hnode node hself)
    rw [List.foldrM_cons, ih hrest hdrest]
    change visit successors (depth + 1) [] node rest = .ok (node :: rest)
    rw [visit, if_neg List.not_mem_nil, if_neg hnot, foldrM_visit_of_finished depth hnode hpath]
    rfl

section

variable {nodes : List α} {successors : α → List α} {p : α → Bool}

/-- Visiting a new node with successors of another kind puts it in front of the finished nodes. -/
theorem filter_visit_cons {depth : Nat} {path finished later : List α} {node : α}
    (hstep : ∀ next ∈ successors node, ∀ finished later,
      visit successors depth (node :: path) next finished = .ok later →
      later.filter p = finished.filter p)
    (hf : node ∉ finished) (h : visit successors (depth + 1) path node finished = .ok later) :
    later.filter p = (node :: finished).filter p := by
  rw [visit, if_neg hf] at h
  by_cases hp : node ∈ path
  · rw [if_pos hp] at h
    cases h
  · rw [if_neg hp] at h
    cases hr : (successors node).foldrM (visit successors depth (node :: path)) finished with
    | error members =>
      rw [hr] at h
      cases h
    | ok middle =>
      rw [hr] at h
      rw [← Except.ok.inj h, List.filter_cons, List.filter_cons, filter_foldrM hstep hr]

/-- Visiting a node of another kind finishes no node of a kind that has no successors in it. -/
theorem filter_visit (hc : ∀ a ∈ nodes, successors a ⊆ nodes)
    (hp : ∀ a ∈ nodes, ∀ b ∈ successors a, p b = false) (depth : Nat)
    {path finished later : List α} {node : α} (hn : node ∈ nodes) (hnode : p node = false)
    (h : visit successors depth path node finished = .ok later) :
    later.filter p = finished.filter p := by
  induction depth generalizing path finished later node with
  | zero => rw [Except.ok.inj h]
  | succ depth ih =>
    by_cases hf : node ∈ finished
    · rw [visit, if_pos hf] at h
      split at h
      · cases h
      · rw [Except.ok.inj h]
    · have hstep : ∀ next ∈ successors node, ∀ finished later,
          visit successors depth (node :: path) next finished = .ok later →
          later.filter p = finished.filter p :=
        fun next hnext _ _ => ih (hc node hn hnext) (hp node hn next hnext)
      rw [filter_visit_cons hstep hf h, List.filter_cons_of_neg (by simp [hnode])]

/-- Visiting distinct nodes from the last one on keeps the order of those of a kind without
successors in it. -/
theorem filter_foldrM_visit (hc : ∀ a ∈ nodes, successors a ⊆ nodes)
    (hp : ∀ a ∈ nodes, ∀ b ∈ successors a, p b = false) (depth : Nat) {targets later : List α}
    (hsub : targets ⊆ nodes) (hd : targets.Nodup)
    (h : targets.foldrM (visit successors (depth + 1) []) [] = .ok later) :
    later.filter p = targets.filter p := by
  induction targets generalizing later with
  | nil => rw [Except.ok.inj h]
  | cons node rest ih =>
    obtain ⟨hn, hrest⟩ := List.cons_subset.mp hsub
    obtain ⟨hnot, hdrest⟩ := List.nodup_cons.mp hd
    rw [List.foldrM_cons] at h
    cases hr : rest.foldrM (visit successors (depth + 1) []) [] with
    | error members =>
      rw [hr] at h
      cases h
    | ok middle =>
      rw [hr] at h
      have hmiddle := ih hrest hdrest hr
      cases hnode : p node with
      | false =>
        rw [filter_visit hc hp _ hn hnode h, hmiddle, List.filter_cons_of_neg (by simp [hnode])]
      | true =>
        -- only the visit of a node of the kind itself finishes it
        have hf : node ∉ middle := by
          intro hm
          have hm' : node ∈ middle.filter p := List.mem_filter.mpr ⟨hm, hnode⟩
          rw [hmiddle] at hm'
          exact hnot (List.mem_of_mem_filter hm')
        have hstep : ∀ next ∈ successors node, ∀ finished later,
            visit successors depth [node] next finished = .ok later →
            later.filter p = finished.filter p :=
          fun next hnext _ _ => filter_visit hc hp _ (hc node hn hnext) (hp node hn next hnext)
        rw [filter_visit_cons hstep hf h, List.filter_cons, List.filter_cons, hmiddle]

/-- Nodes of a kind without successors in it stand in the order of a graph as they do in the
graph. -/
theorem filter_order (hc : ∀ a ∈ nodes, successors a ⊆ nodes)
    (hp : ∀ a ∈ nodes, ∀ b ∈ successors a, p b = false) (hd : nodes.Nodup) {ordered : List α}
    (ho : order nodes successors = .ok ordered) : ordered.filter p = nodes.filter p :=
  filter_foldrM_visit hc hp nodes.length (List.Subset.refl _) hd ho

end

end UnitCalculator.Graph
