import UnitCalculator.Proofs.Expression.Relabelling
import UnitCalculator.Proofs.Expression.Substitution

/-!
# Variables stand for their values

An equation in which a variable is replaced by a value in brackets is read exactly if the equation
is, and has the value that the equation has when the variable is bound to the value. Reading
commutes with the replacement: the bracketed number is combined to a single tree, unless a function
takes it as its argument, and no function stands directly before a variable.
-/

namespace UnitCalculator

namespace Tree

/-- Every waiting function has its bracket above it, or, if one opens next, waits on top. -/
def Attached : Bool → List Pending → Prop
  | _, [] => True
  | opens, .function .. :: stack => opens = true ∧ Attached false stack
  | _, .bracket :: stack => Attached true stack
  | _, .operator .. :: stack => Attached false stack

/-- Where no bracket has to open next, one may. -/
theorem Attached.mono {opens : Bool} {stack : List Pending} (h : Attached false stack) :
    Attached opens stack := by
  rcases stack with _ | ⟨_ | _ | _, stack⟩
  · trivial
  · exact h
  · cases h.1
  · exact h

/-- An operator that is combined with leaves functions attached. -/
theorem Attached.combineStronger {op : Operator} {output : List Tree} {stack : List Pending}
    {state : Progress} (h : Attached false stack)
    (hc : Tree.combineStronger op output stack = .ok state) : Attached false state.stack := by
  induction stack generalizing output with
  | nil =>
    cases hc
    trivial
  | cons waiting stack ih =>
    cases waiting with
    | operator waiting p =>
      rw [Tree.combineStronger] at hc
      split at hc
      · obtain ⟨combined, -, hc⟩ := bind_eq_ok_iff.mp hc
        exact ih h hc
      · cases hc
        exact h
    | function name p => cases h.1
    | bracket =>
      cases hc
      exact h

/-- A closing bracket leaves functions attached. -/
theorem Attached.combineGroup {output : List Tree} {stack : List Pending} {state : Progress}
    (h : Attached false stack) (hc : Tree.combineGroup output stack = .ok state) :
    Attached false state.stack := by
  fun_induction Tree.combineGroup output stack with
  | case1 => cases hc
  | case2 output name p stack =>
    obtain ⟨combined, -, hc⟩ := bind_eq_ok_iff.mp hc
    cases hc
    exact h.2
  | case3 output stack hnot =>
    cases hc
    rcases stack with _ | ⟨_ | ⟨name, p⟩ | _, stack⟩
    · trivial
    · exact h
    · exact absurd rfl (hnot name p stack)
    · exact h
  | case4 output waiting stack hf hb ih =>
    obtain ⟨combined, -, hgroup⟩ := bind_eq_ok_iff.mp hc
    cases waiting with
    | operator op p => exact ih combined h hgroup
    | function name p => cases h.1
    | bracket => exact absurd rfl hb

end Tree

namespace Replacement

open UnitCalculator.Tree

variable {r : Replacement}

/-- A reading state with the number in place of the variable in all finished trees. -/
def progress (r : Replacement) (state : Progress) : Progress :=
  ⟨state.output.map r.tree, state.stack⟩

/-- A leaf, or the number in its place if it is the variable. -/
def leaf (r : Replacement) (token : Token) : Token :=
  if token.lexeme = .reference r.name then ⟨r.number, token.position⟩ else token

/-- The number in place of the variable is another leaf. -/
theorem tree_eq_relabel : r.tree = Tree.relabel r.leaf id := by
  funext t
  induction t with
  | leaf token => rfl
  | call function p operand ih => rw [tree, ih, relabel, id]
  | binary op p left right ihl ihr => rw [tree, ihl, ihr, relabel, id]

/-- What waits has no leaves. -/
theorem map_relabel_id (stack : List Pending) : stack.map (Pending.relabel id) = stack := by
  have hsame : Pending.relabel id = id := by
    funext waiting
    cases waiting <;> rfl
  rw [hsame, List.map_id]

/-- In a reading state the number is another leaf. -/
theorem progress_eq_relabel : r.progress = Progress.relabel r.leaf id := by
  funext state
  rw [progress, Progress.relabel, tree_eq_relabel, map_relabel_id]

/-- Combining under stronger operators commutes with replacing the variable. -/
theorem combineStronger_tree (op : Operator) (output : List Tree) (stack : List Pending) :
    combineStronger op (output.map r.tree) stack =
      (combineStronger op output stack).map r.progress := by
  rw [tree_eq_relabel, progress_eq_relabel, ← combineStronger_relabel, map_relabel_id]

/-- Combining a group commutes with replacing the variable. -/
theorem combineGroup_tree (output : List Tree) (stack : List Pending) :
    combineGroup (output.map r.tree) stack = (combineGroup output stack).map r.progress := by
  rw [tree_eq_relabel, progress_eq_relabel, ← combineGroup_relabel, map_relabel_id]

/-- Combining at the end commutes with replacing the variable. -/
theorem combineAll_tree (output : List Tree) (stack : List Pending) :
    combineAll (output.map r.tree) stack = (combineAll output stack).map (List.map r.tree) := by
  rw [tree_eq_relabel, ← combineAll_relabel, map_relabel_id]

/-- The number in brackets is read like the variable, unless a function waits for it. -/
theorem run_number {state : Progress} (h : Attached false state.stack) (p : Nat)
    (rest : List Token) :
    (r.progress state).run (r.tokens (⟨.reference r.name, p⟩ :: rest)) =
      (r.progress ⟨.leaf ⟨.reference r.name, p⟩ :: state.output, state.stack⟩).run
        (r.tokens rest) := by
  obtain ⟨output, stack⟩ := state
  have hgroup : combineGroup (.leaf ⟨r.number, p⟩ :: output.map r.tree) (.bracket :: stack) =
      .ok ⟨.leaf ⟨r.number, p⟩ :: output.map r.tree, stack⟩ := by
    rcases stack with _ | ⟨_ | _ | _, stack⟩
    · rfl
    · rfl
    · cases h.1
    · rfl
  rw [tokens_cons_reference, run_openBracket, run_single _ _ rfl, run_closeBracket]
  simp only [progress, hgroup, Except.bind, List.map_cons, tree, if_true]

/-- The token behind a function is no variable that is replaced. -/
theorem head?_tokens {name : String} {p : Nat} {rest : List Token}
    (ha : r.Apart (⟨.function name, p⟩ :: rest)) :
    (r.tokens rest).head?.map (·.lexeme) = rest.head?.map (·.lexeme) := by
  cases rest with
  | nil => rfl
  | cons next rest =>
    rw [tokens_cons_of_ne ((List.isChain_cons_cons.mp ha).1 name rfl)]
    rfl

/-- Reading commutes with replacing the variable, from a state in which every function has its
bracket. -/
theorem run_tokens {tokens : List Token} (ha : r.Apart tokens) {state : Progress}
    (hs : Attached (tokens.head?.map (·.lexeme) = some .openBracket) state.stack) :
    (r.progress state).run (r.tokens tokens) = (state.run tokens).map r.progress := by
  induction tokens generalizing state with
  | nil => rfl
  | cons token rest ih =>
    have hrest : ∀ next : Progress,
        Attached (rest.head?.map (·.lexeme) = some .openBracket) next.stack →
          (r.progress next).run (r.tokens rest) = (next.run rest).map r.progress :=
      fun next => ih (List.IsChain.tail ha)
    rcases token.sorts with hsingle | ⟨p, rfl⟩ | ⟨p, rfl⟩ | ⟨name, p, rfl⟩ | ⟨op, p, rfl⟩
    · have hstack : Attached false state.stack := by
        rcases token with ⟨lexeme, p⟩
        cases lexeme with
        | openBracket => cases hsingle
        | _ => exact hs
      rw [run_single _ _ hsingle, ← hrest ⟨.leaf token :: state.output, state.stack⟩ hstack.mono]
      by_cases hr : token.lexeme = .reference r.name
      · obtain ⟨_, p⟩ := token
        obtain rfl := hr
        exact run_number hstack p rest
      · rw [tokens_cons_of_ne hr, run_single _ _ hsingle]
        simp only [progress, List.map_cons, tree, if_neg hr]
    · rw [tokens_cons_of_ne (by simp), run_openBracket, run_openBracket]
      exact hrest ⟨state.output, .bracket :: state.stack⟩ hs
    · rw [tokens_cons_of_ne (by simp), run_closeBracket, run_closeBracket, progress,
        combineGroup_tree]
      cases hc : combineGroup state.output state.stack with
      | error cause => rfl
      | ok next => exact hrest next (Attached.combineGroup hs hc).mono
    · rw [tokens_cons_of_ne (by simp), run_function, run_function, head?_tokens ha]
      split
      · next hopen =>
        exact hrest ⟨state.output, .function name p :: state.stack⟩
          ⟨decide_eq_true hopen, hs⟩
      · rfl
    · rw [tokens_cons_of_ne (by simp), run_operator, run_operator, progress,
        combineStronger_tree]
      cases hc : combineStronger op state.output state.stack with
      | error cause => rfl
      | ok next =>
        exact hrest ⟨next.output, .operator op p :: next.stack⟩
          (Attached.combineStronger hs hc).mono

/-- Signs of assignment are kept, and none is put in. -/
theorem mem_tokens_assign {tokens : List Token} :
    (∃ token ∈ r.tokens tokens, token.lexeme = .operator .assign) ↔
      ∃ token ∈ tokens, token.lexeme = .operator .assign := by
  induction tokens with
  | nil => rfl
  | cons token rest ih =>
    rcases token with ⟨lexeme, p⟩
    by_cases hr : lexeme = .reference r.name
    · subst hr
      simpa [tokens_cons_reference, number] using ih
    · rw [tokens_cons_of_ne hr]
      simp only [List.mem_cons, exists_eq_or_imp, ih]

/-- Reading an expression commutes with replacing the variable. -/
theorem ofTokens_tokens {tokens : List Token} (ha : r.Apart tokens)
    (hassign : ∀ token ∈ tokens, token.lexeme ≠ .operator .assign) :
    Tree.ofTokens (r.tokens tokens) = (Tree.ofTokens tokens).map r.tree := by
  have hreplaced : ∀ token ∈ r.tokens tokens, token.lexeme ≠ .operator .assign := by
    intro token ht he
    obtain ⟨other, ho, hassigned⟩ := mem_tokens_assign.mp ⟨token, ht, he⟩
    exact hassign other ho hassigned
  have hrun : Progress.run ⟨[], []⟩ (r.tokens tokens) =
      (Progress.run ⟨[], []⟩ tokens).map r.progress :=
    run_tokens ha (show Attached _ (Progress.mk [] []).stack from trivial)
  rw [Tree.ofTokens, Tree.ofTokens, assignmentAllowed_of_not_assign hassign,
    assignmentAllowed_of_not_assign hreplaced, hrun]
  cases Progress.run ⟨[], []⟩ tokens with
  | error cause => rfl
  | ok final =>
    simp only [Except.map, progress, bind, Except.bind, combineAll_tree]
    cases combineAll final.output final.stack with
    | error cause => rfl
    | ok combined => rcases combined with _ | ⟨tree, _ | ⟨other, others⟩⟩ <;> rfl

end Replacement

namespace Token

/-- The first token is a variable and the second one the sign of assignment. -/
def Assigns (tokens : List Token) : Prop :=
  ∃ name p q rest, tokens = ⟨.reference name, p⟩ :: ⟨.operator .assign, q⟩ :: rest

variable {tokens folded : List Token}

/-- Where folded tokens assign a variable, so do the tokens before. -/
theorem assigns_of_folds (h : Folds none tokens folded) (ha : Assigns folded) :
    Assigns tokens := by
  obtain ⟨name, p, q, rest, rfl⟩ := ha
  cases h with
  | keep hs h =>
    cases h with
    | keep hs h => exact ⟨name, p, q, _, rfl⟩
    | number _ hs hn h => cases (Lexeme.text_of_negated? hn).2
  | number _ hs hn h => cases (Lexeme.text_of_negated? hn).2

/-- Where tokens with implied operators assign a variable, so do the tokens before. -/
theorem assigns_of_insertImplied (ha : Assigns (insertImplied none tokens)) : Assigns tokens := by
  obtain ⟨name, p, q, behind, ha⟩ := ha
  obtain ⟨rest, rfl, hrest⟩ := insertImplied_eq_cons ha (by simp) (by simp)
  obtain ⟨others, rfl, -⟩ := insertImplied_eq_cons hrest.symm (by simp) (by simp)
  exact ⟨name, p, q, others, rfl⟩

end Token

namespace Replacement

variable {r : Replacement} {tokens : List Token}

/-- Tokens with the number in brackets in place of the variable, except where it is assigned. -/
def behindTarget (r : Replacement) : List Token → List Token
  | ⟨.reference name, p⟩ :: ⟨.operator .assign, q⟩ :: rest =>
    ⟨.reference name, p⟩ :: ⟨.operator .assign, q⟩ :: r.tokens rest
  | tokens => r.tokens tokens

/-- Where no variable is assigned, all tokens are replaced. -/
theorem behindTarget_of_not_assigns (h : ¬ Token.Assigns tokens) :
    r.behindTarget tokens = r.tokens tokens := by
  unfold behindTarget
  split
  · exact absurd ⟨_, _, _, _, rfl⟩ h
  · rfl

/-- Replacing the variable makes no assignment. -/
theorem assigns_of_tokens (h : Token.Assigns (r.tokens tokens)) : Token.Assigns tokens := by
  obtain ⟨name, p, q, rest, h⟩ := h
  rcases tokens with _ | ⟨⟨first, _⟩, behind⟩
  · cases h
  by_cases hfirst : first = .reference r.name
  · subst hfirst
    rw [tokens_cons_reference] at h
    cases h
  rw [tokens_cons_of_ne hfirst] at h
  obtain ⟨hhead, hbehind⟩ := List.cons.inj h
  obtain ⟨rfl, rfl⟩ := Token.mk.inj hhead
  rcases behind with _ | ⟨⟨second, _⟩, others⟩
  · cases hbehind
  by_cases hsecond : second = .reference r.name
  · subst hsecond
    rw [tokens_cons_reference] at hbehind
    cases hbehind
  rw [tokens_cons_of_ne hsecond] at hbehind
  obtain ⟨hhead, -⟩ := List.cons.inj hbehind
  obtain ⟨rfl, rfl⟩ := Token.mk.inj hhead
  exact ⟨name, _, _, others, rfl⟩

/-- Behind an assigned variable the tokens are completed as behind the sign of assignment. -/
theorem complete_assignment (name : String) (p q : Nat) (rest : List Token) :
    Equation.complete (⟨.reference name, p⟩ :: ⟨.operator .assign, q⟩ :: rest) =
      (foldNegation (some (.operator .assign)) rest).map fun folded =>
        ⟨.reference name, p⟩ :: ⟨.operator .assign, q⟩ ::
          insertImplied (some (.operator .assign)) folded := by
  rw [Equation.complete, foldNegation_keep rfl, foldNegation_keep rfl]
  cases foldNegation (some (.operator .assign)) rest <;> rfl

/-- Completing tokens commutes with replacing the variable. -/
theorem complete_behindTarget (ha : r.Apart tokens) :
    Equation.complete (r.behindTarget tokens) =
      (Equation.complete tokens).map r.behindTarget := by
  by_cases hassigns : Token.Assigns tokens
  · obtain ⟨name, p, q, rest, rfl⟩ := hassigns
    have hrest : r.Apart rest := List.IsChain.tail (List.IsChain.tail ha)
    rw [behindTarget, complete_assignment, complete_assignment, foldNegation_tokens hrest]
    cases foldNegation (some (.operator .assign)) rest with
    | error failure => rfl
    | ok folded =>
      simp only [Except.map, behindTarget, insertImplied_tokens]
  · rw [behindTarget_of_not_assigns hassigns, Equation.complete, foldNegation_tokens ha,
      Equation.complete]
    cases hf : foldNegation none tokens with
    | error failure => rfl
    | ok folded =>
      have hnot : ¬ Token.Assigns (insertImplied none folded) := fun h =>
        hassigns (Token.assigns_of_folds (folds_of_foldNegation hf)
          (Token.assigns_of_insertImplied h))
      simp only [Except.map, bind, Except.bind, pure, Except.pure, insertImplied_tokens,
        behindTarget_of_not_assigns hnot]

/-- Spaced tokens stay so. -/
theorem spaced_tokens {behind : Bool} (h : Tree.Spaced behind tokens) :
    Tree.Spaced behind (r.tokens tokens) := by
  induction tokens generalizing behind with
  | nil => trivial
  | cons token rest ih =>
    obtain ⟨hstart, hrest⟩ := h
    rcases token with ⟨lexeme, p⟩
    by_cases hr : lexeme = .reference r.name
    · subst hr
      rw [tokens_cons_reference]
      exact ⟨hstart, fun he => Bool.noConfusion he, fun _ => rfl, ih hrest⟩
    · rw [tokens_cons_of_ne hr]
      exact ⟨hstart, ih hrest⟩

/-- With the number in place of the variable, tokens spell the trees they spelled with the number
put there. -/
theorem spells_tokens (ha : r.Apart tokens) (hs : Tree.Spaced false tokens) {replaced : Tree} :
    Grammar.Spells 1 (r.tokens tokens) replaced ↔
      ∃ tree, Grammar.Spells 1 tokens tree ∧ replaced = r.tree tree := by
  constructor
  · intro h
    have hassign : ∀ token ∈ tokens, token.lexeme ≠ .operator .assign := by
      intro token ht he
      obtain ⟨other, ho, hassigned⟩ := mem_tokens_assign.mpr ⟨token, ht, he⟩
      exact h.not_assign le_rfl other ho hassigned
    have hread := Tree.ofTokens_of_means (.expression h)
    rw [ofTokens_tokens ha hassign] at hread
    cases ht : Tree.ofTokens tokens with
    | error cause =>
      rw [ht] at hread
      cases hread
    | ok tree =>
      rw [ht] at hread
      have hmeans := (Tree.ofTokens_eq_ok_iff hs).mp ht
      exact ⟨tree, hmeans.spells hassign, (Except.ok.inj hread).symm⟩
  · rintro ⟨tree, h, rfl⟩
    have hassign := h.not_assign le_rfl
    have hread : Tree.ofTokens (r.tokens tokens) = .ok (r.tree tree) := by
      rw [ofTokens_tokens ha hassign, Tree.ofTokens_of_means (.expression h)]
      rfl
    have hmeans := (Tree.ofTokens_eq_ok_iff (spaced_tokens hs)).mp hread
    refine hmeans.spells fun token ht he => ?_
    obtain ⟨other, ho, hassigned⟩ := mem_tokens_assign.mp ⟨token, ht, he⟩
    exact hassign other ho hassigned

/-- The tree of an equation with the number in place of the variable, except where it is
assigned. -/
def root (r : Replacement) : Tree → Tree
  | .binary .assign q target expression => .binary .assign q target (r.tree expression)
  | tree => r.tree tree

/-- An expression is replaced as a whole. -/
theorem root_of_spells {strength : Nat} {tree : Tree} (h : Grammar.Spells strength tokens tree)
    (hs : 1 ≤ strength) : r.root tree = r.tree tree := by
  induction h with
  | leaf h => rfl
  | group p q _ ih => exact ih le_rfl
  | call name p q s _ ih => rfl
  | @binary _ _ _ _ _ op p hop _ _ _ _ =>
    have hne : op ≠ .assign := Grammar.precedence_pos.mp (hs.trans hop)
    cases op with
    | assign => exact absurd rfl hne
    | _ => rfl

/-- Tokens that assign no variable mean expressions only. -/
theorem means_iff_spells (h : ¬ Token.Assigns tokens) {tree : Tree} :
    Grammar.Means tokens tree ↔ Grammar.Spells 1 tokens tree := by
  refine ⟨fun hm => ?_, .expression⟩
  cases hm with
  | expression hs => exact hs
  | assignment name p q hs => exact absurd ⟨name, p, q, _, rfl⟩ h

/-- With the number in place of the variable behind the sign of assignment, tokens mean the trees
they meant with the number put there. -/
theorem means_behindTarget (ha : r.Apart tokens) (hs : Tree.Spaced false tokens)
    {replaced : Tree} :
    Grammar.Means (r.behindTarget tokens) replaced ↔
      ∃ tree, Grammar.Means tokens tree ∧ replaced = r.root tree := by
  by_cases hassigns : Token.Assigns tokens
  · obtain ⟨name, p, q, rest, rfl⟩ := hassigns
    have hrest : r.Apart rest := List.IsChain.tail (List.IsChain.tail ha)
    rw [behindTarget, Grammar.means_assignment_iff]
    constructor
    · rintro ⟨expression, h, rfl⟩
      obtain ⟨tree, ht, rfl⟩ := (spells_tokens hrest hs.2.2).mp h
      exact ⟨_, .assignment name p q ht, rfl⟩
    · rintro ⟨tree, hm, rfl⟩
      obtain ⟨expression, h, rfl⟩ := Grammar.means_assignment_iff.mp hm
      exact ⟨_, (spells_tokens hrest hs.2.2).mpr ⟨expression, h, rfl⟩, rfl⟩
  · rw [behindTarget_of_not_assigns hassigns, means_iff_spells fun h =>
      hassigns (assigns_of_tokens h), spells_tokens ha hs]
    simp only [means_iff_spells hassigns]
    constructor
    · rintro ⟨tree, h, rfl⟩
      exact ⟨tree, h, (root_of_spells h le_rfl).symm⟩
    · rintro ⟨tree, h, rfl⟩
      exact ⟨tree, h, root_of_spells h le_rfl⟩

/-- Replacing the variable keeps the assigned one. -/
theorem target?_root (tree : Tree) (source other : String) :
    (Equation.mk (r.root tree) source).target? = (Equation.mk tree other).target? := by
  cases tree with
  | binary op p left right => cases op <;> rfl
  | _ => rfl

/-- Replacing the variable binds it in the expression. -/
theorem evaluate_root (tree : Tree) (source other : String) (bindings : Bindings) :
    (Equation.mk (r.root tree) source).evaluate bindings =
      (Equation.mk tree other).evaluate
        (Function.update bindings r.name (some r.value)) := by
  cases tree with
  | binary op p left right =>
    cases op with
    | assign => exact evaluate_tree r bindings right
    | _ => exact evaluate_tree r bindings (.binary _ p left right)
  | leaf token => exact evaluate_tree r bindings (.leaf token)
  | call name p operand => exact evaluate_tree r bindings (.call name p operand)

end Replacement

namespace Equation

variable {r : Replacement} {tokens : List Token}

/-- Completed tokens have no function directly before the variable, if the tokens have none. -/
theorem apart_of_complete {completed : List Token} (ha : r.Apart tokens)
    (h : complete tokens = .ok completed) : r.Apart completed := by
  obtain ⟨folded, hfold, hf⟩ := bind_eq_ok_iff.mp h
  rw [← pure_eq_ok_iff.mp hf]
  exact Replacement.apart_of_insertImplied
    (Replacement.apart_of_folds (folds_of_foldNegation hfold) ha) none

/-- The equation that scanned tokens are read into. -/
def read (tokens : List Token) (source : String) : Outcome Equation := do
  ofTokens (← complete tokens) source

/-- A text is compiled by reading its scanned tokens. -/
theorem compile_eq_read (catalogue : Catalogue) (known : List String) (source : String) :
    compile catalogue known source = (scan catalogue known source).bind (read · source) := by
  rw [compile, tokenize]
  cases scan catalogue known source <;> rfl

/-- Tokens are read into the equation whose tree their completion means. -/
theorem read_eq_ok_iff {source : String} {e : Equation} :
    read tokens source = .ok e ↔
      ∃ completed, complete tokens = .ok completed ∧ Grammar.Means completed e.root ∧
        e.source = source := by
  constructor
  · intro h
    obtain ⟨completed, hc, h⟩ := bind_eq_ok_iff.mp h
    obtain ⟨hroot, hsource⟩ := ofTokens_eq_ok_iff.mp h
    exact ⟨completed, hc, (Tree.ofTokens_eq_ok_iff (spaced_of_complete hc)).mp hroot, hsource⟩
  · rintro ⟨completed, hc, hm, hsource⟩
    exact bind_eq_ok_iff.mpr
      ⟨completed, hc, ofTokens_eq_ok_iff.mpr ⟨Tree.ofTokens_of_means hm, hsource⟩⟩

/-- With the number in place of the variable, tokens are read into the equations they were read
into with the number put there. -/
theorem read_behindTarget (ha : r.Apart tokens) (source : String) {written : String}
    {e : Equation} :
    read (r.behindTarget tokens) written = .ok e ↔
      ∃ root, read tokens source = .ok ⟨root, source⟩ ∧ e = ⟨r.root root, written⟩ := by
  simp only [read_eq_ok_iff, Replacement.complete_behindTarget ha]
  constructor
  · rintro ⟨replaced, hc, hm, rfl⟩
    cases ht : complete tokens with
    | error failure =>
      rw [ht] at hc
      cases hc
    | ok completed =>
      rw [ht] at hc
      obtain rfl := Except.ok.inj hc
      obtain ⟨root, hroot, he⟩ := (Replacement.means_behindTarget (apart_of_complete ha ht)
        (spaced_of_complete ht)).mp hm
      exact ⟨root, ⟨completed, rfl, hroot, trivial⟩, congrArg (Equation.mk · e.source) he⟩
  · rintro ⟨root, ⟨completed, hc, hm, -⟩, rfl⟩
    refine ⟨r.behindTarget completed, by rw [hc]; rfl, ?_, rfl⟩
    exact (Replacement.means_behindTarget (apart_of_complete ha hc) (spaced_of_complete hc)).mpr
      ⟨root, hm, rfl⟩

/-- A variable means its value. With a number in brackets in place of a variable, except where the
variable is assigned, the scanned tokens of a text are read into an equation exactly if the tokens
themselves are. The two equations assign the same variable, and under all bindings the one has the
value or the failure that the other has where the variable is bound to the number. -/
theorem read_behindTarget_spec {catalogue : Catalogue} {known : List String} {text : String}
    {position : Nat} {scanned : List Token}
    (hscan : Scanner.scan catalogue known text position text.toList = .ok scanned)
    (ht : tokens = scanned ∨
      ∃ name p q, tokens = ⟨.reference name, p⟩ :: ⟨.operator .assign, q⟩ :: scanned)
    (r : Replacement) (source written : String) :
    ((∃ e, read (r.behindTarget tokens) written = .ok e) ↔ ∃ e, read tokens source = .ok e) ∧
    ∀ e replaced, read tokens source = .ok e →
      read (r.behindTarget tokens) written = .ok replaced →
      replaced.target? = e.target? ∧
      ∀ bindings, replaced.evaluate bindings =
        e.evaluate (Function.update bindings r.name (some r.value)) := by
  have hscanned : r.Apart scanned := Replacement.apart_of_scan hscan
  have ha : r.Apart tokens := by
    rcases ht with rfl | ⟨name, p, q, rfl⟩
    · exact hscanned
    · exact (hscanned.cons (by simp)).cons (by simp)
  refine ⟨⟨?_, ?_⟩, fun e replaced he hr => ?_⟩
  · rintro ⟨e, he⟩
    obtain ⟨root, hroot, -⟩ := (read_behindTarget ha source).mp he
    exact ⟨⟨root, source⟩, hroot⟩
  · rintro ⟨⟨root, _⟩, he⟩
    obtain ⟨-, -, -, rfl⟩ := read_eq_ok_iff.mp he
    exact ⟨⟨r.root root, written⟩, (read_behindTarget ha _).mpr ⟨root, he, rfl⟩⟩
  · obtain ⟨root, hroot, rfl⟩ := (read_behindTarget ha source).mp hr
    rw [he] at hroot
    obtain rfl := Except.ok.inj hroot
    exact ⟨Replacement.target?_root root written source,
      Replacement.evaluate_root root written source⟩

/-- A power whose sign is folded and a product that is implied, with a number in place of the
variable. -/
theorem read_behindTarget_spec_power : ∃ scanned e replaced,
    Scanner.scan .standard ["x"] " 2^-x + 3x" 3 " 2^-x + 3x".toList = .ok scanned ∧
    compile .standard ["x"] "y = 2^-x + 3x" = .ok e ∧
    read (Replacement.behindTarget ⟨"x", "4", .number (.ofNat 4)⟩
      (⟨.reference "y", 0⟩ :: ⟨.operator .assign, 2⟩ :: scanned)) "y = 2^-(4) + 3(4)" =
        .ok replaced ∧
    replaced.target? = e.target? ∧
    ∀ bindings, replaced.evaluate bindings =
      e.evaluate (Function.update bindings "x" (some (.number (.ofNat 4)))) := by
  let scanned : List Token :=
    [⟨.number "2" (.number (.ofNat 2)), 4⟩, .ofOperator .power 5, .ofOperator .subtract 6,
      ⟨.reference "x", 7⟩, .ofOperator .add 9, ⟨.number "3" (.number (.ofNat 3)), 11⟩,
      ⟨.reference "x", 12⟩]
  let tokens : List Token := ⟨.reference "y", 0⟩ :: ⟨.operator .assign, 2⟩ :: scanned
  have hscan : Scanner.scan .standard ["x"] " 2^-x + 3x" 3 " 2^-x + 3x".toList = .ok scanned := by
    decide +kernel
  have htokens : scan .standard ["x"] "y = 2^-x + 3x" = .ok tokens := by decide +kernel
  have hsome : (read tokens "y = 2^-x + 3x").toOption.isSome = true := by decide +kernel
  cases he : read tokens "y = 2^-x + 3x" with
  | error failure =>
    rw [he] at hsome
    cases hsome
  | ok e =>
    have hcompile : compile .standard ["x"] "y = 2^-x + 3x" = .ok e := by
      rw [compile_eq_read, htokens]
      exact he
    obtain ⟨hiff, hvalue⟩ := read_behindTarget_spec hscan (.inr ⟨"y", 0, 2, rfl⟩)
      ⟨"x", "4", .number (.ofNat 4)⟩ "y = 2^-x + 3x" "y = 2^-(4) + 3(4)"
    obtain ⟨replaced, hr⟩ := hiff.mpr ⟨e, he⟩
    obtain ⟨htarget, hevaluate⟩ := hvalue e replaced he hr
    exact ⟨scanned, e, replaced, hscan, hcompile, hr, htarget, hevaluate⟩

end Equation

end UnitCalculator
