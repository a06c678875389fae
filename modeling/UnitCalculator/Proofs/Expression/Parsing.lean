import UnitCalculator.Expression.Equation
import UnitCalculator.Proofs.Expression.Grammar
import UnitCalculator.Proofs.Failure

/-!
# Reading expressions

Tokens are read with a stack of what waits. A spelled tree is read into a state that settles into
the tree on top of what was there before. Conversely, implied operators leave no two operands side
by side, so only as many operators as a sentence has make the numbers of operands and operators fit,
and the brackets are matched by the stack. The sequences that are read are therefore the sentences,
and what is read is the tree they mean.
-/

namespace UnitCalculator

/-- An operator or the sign of assignment. -/
def Lexeme.isJoint : Lexeme → Bool
  | .operator _ => true
  | _ => false

/-- A waiting operator. -/
def Tree.Pending.isJoint : Tree.Pending → Bool
  | .operator .. => true
  | _ => false

/-- A single operand is no operator, and both starts and ends an operand. -/
theorem Lexeme.of_isSingle {lexeme : Lexeme} (h : lexeme.isSingle = true) :
    lexeme.isJoint = false ∧ lexeme.startsOperand = true ∧ lexeme.endsOperand = true := by
  cases lexeme <;>
    simp_all [Lexeme.isSingle, Lexeme.isJoint, Lexeme.startsOperand, Lexeme.endsOperand]

/-- A token is an operand, a bracket, a function or an operator. -/
theorem Token.sorts (token : Token) :
    token.lexeme.isSingle = true ∨ (∃ p, token = ⟨.openBracket, p⟩) ∨
      (∃ p, token = ⟨.closeBracket, p⟩) ∨ (∃ name p, token = ⟨.function name, p⟩) ∨
      ∃ op p, token = ⟨.operator op, p⟩ := by
  rcases token with ⟨lexeme, p⟩
  cases lexeme <;> simp [Lexeme.isSingle]

namespace Tree

open Grammar

section Steps

variable (state : Progress) (p : Nat) (rest : List Token)

/-- Reading an operand that is a single token. -/
theorem run_single {token : Token} (h : token.lexeme.isSingle = true) :
    state.run (token :: rest) = Progress.run ⟨.leaf token :: state.output, state.stack⟩ rest := by
  rcases token with ⟨lexeme, position⟩
  cases lexeme <;> first | rfl | simp [Lexeme.isSingle] at h

/-- Reading an opening bracket. -/
theorem run_openBracket :
    state.run (⟨.openBracket, p⟩ :: rest) =
      Progress.run ⟨state.output, .bracket :: state.stack⟩ rest := rfl

/-- Reading a closing bracket. -/
theorem run_closeBracket :
    state.run (⟨.closeBracket, p⟩ :: rest) =
      (combineGroup state.output state.stack).bind (Progress.run · rest) := rfl

/-- Reading an operator. -/
theorem run_operator (op : Operator) :
    state.run (⟨.operator op, p⟩ :: rest) =
      (combineStronger op state.output state.stack).bind fun reduced =>
        Progress.run ⟨reduced.output, .operator op p :: reduced.stack⟩ rest := by
  simp only [Progress.run, Progress.step]
  cases combineStronger op state.output state.stack <;> rfl

/-- Reading a function. -/
theorem run_function (name : String) :
    state.run (⟨.function name, p⟩ :: rest) =
      if rest.head?.map (·.lexeme) = some .openBracket then
        Progress.run ⟨state.output, .function name p :: state.stack⟩ rest
      else .error (.functionWithoutBracket name) := by
  simp only [Progress.run, Progress.step]
  split <;> rfl

end Steps

/-- A state settles into another one by combining under waiting operators that bind at least as
tight as a given strength. -/
inductive Settles (strength : Nat) : Progress → Progress → Prop
  | refl (state : Progress) : Settles strength state state
  | combine {l r : Tree} {output : List Tree} {stack : List Pending} {op : Operator} {p : Nat}
    {final : Progress} (hop : strength ≤ op.precedence)
    (h : Settles strength ⟨.binary op p l r :: output, stack⟩ final) :
    Settles strength ⟨r :: l :: output, .operator op p :: stack⟩ final

/-- What waits on top of a stack is a bracket or an operator that binds less tight than a given
strength, or nothing. -/
def Yields (strength : Nat) : List Pending → Prop
  | .operator op _ :: _ => op.precedence < strength
  | .function .. :: _ => False
  | _ => True

/-- What yields to a strength yields to every greater one. -/
theorem Yields.mono {strength greater : Nat} {stack : List Pending} (h : Yields strength stack)
    (hs : strength ≤ greater) : Yields greater stack := by
  rcases stack with _ | ⟨_ | _ | _, _⟩
  · trivial
  · exact Nat.lt_of_lt_of_le h hs
  · exact h
  · trivial

/-- What settles at a strength settles at every weaker one. -/
theorem Settles.mono {strength weaker : Nat} {state final : Progress}
    (h : Settles strength state final) (hw : weaker ≤ strength) :
    Settles weaker state final := by
  induction h with
  | refl state => exact .refl state
  | combine hop _ ih => exact .combine (hw.trans hop) ih

/-- Settling can be done in steps. -/
theorem Settles.trans {strength : Nat} {state middle final : Progress}
    (h : Settles strength state middle) (h' : Settles strength middle final) :
    Settles strength state final := by
  induction h with
  | refl state => exact h'
  | combine hop _ ih => exact .combine hop (ih h')

/-- Settling a state first does not change what an operator combines. -/
theorem Settles.combineStronger {strength : Nat} {state final : Progress}
    (h : Settles strength state final) {op : Operator} (hop : op.precedence ≤ strength) :
    combineStronger op state.output state.stack =
      combineStronger op final.output final.stack := by
  induction h with
  | refl state => rfl
  | combine hop' _ ih =>
    rw [← ih, Tree.combineStronger, if_pos (hop.trans hop')]
    rfl

/-- Settling a state first does not change what a closing bracket combines. -/
theorem Settles.combineGroup {strength : Nat} {state final : Progress}
    (h : Settles strength state final) :
    combineGroup state.output state.stack = combineGroup final.output final.stack := by
  induction h with
  | refl state => rfl
  | combine _ _ ih =>
    rw [← ih, Tree.combineGroup]
    · rfl
    all_goals simp

/-- Settling a state first does not change what the end combines. -/
theorem Settles.combineAll {strength : Nat} {state final : Progress}
    (h : Settles strength state final) :
    combineAll state.output state.stack = combineAll final.output final.stack := by
  induction h with
  | refl state => rfl
  | combine _ _ ih =>
    rw [← ih, Tree.combineAll]
    rfl

/-- An operator combines nothing under what yields to it. -/
theorem combineStronger_of_yields {op : Operator} {output : List Tree} (stack : List Pending)
    (h : Yields op.precedence stack) : combineStronger op output stack = .ok ⟨output, stack⟩ := by
  rcases stack with _ | ⟨waiting | _ | _, stack⟩
  · rfl
  · have hlt : ¬ op.precedence ≤ waiting.precedence := Nat.not_le_of_lt h
    rw [combineStronger, if_neg hlt]
  · exact h.elim
  · rfl

/-- A closing bracket behind a finished group drops the bracket. -/
theorem combineGroup_of_yields {strength : Nat} {output : List Tree} {stack : List Pending}
    (h : Yields strength stack) :
    combineGroup output (.bracket :: stack) = .ok ⟨output, stack⟩ := by
  rcases stack with _ | ⟨_ | _ | _, stack⟩
  · rfl
  · rfl
  · exact h.elim
  · rfl

/-- Reading a spelled tree leaves a state that settles into the tree above what was there. The
induction is on the spelling, for any tokens behind it. -/
theorem run_of_spells {strength : Nat} {tokens : List Token} {tree : Tree}
    (h : Spells strength tokens tree) (output : List Tree) (stack : List Pending)
    (hy : Yields strength stack) (rest : List Token) :
    ∃ state, Progress.run ⟨output, stack⟩ (tokens ++ rest) = state.run rest ∧
      Settles strength state ⟨tree :: output, stack⟩ := by
  induction h generalizing output stack rest with
  | leaf h => exact ⟨_, run_single _ _ h, .refl _⟩
  | @group strength tokens tree p q _ ih =>
    obtain ⟨state, hrun, hset⟩ := ih output (.bracket :: stack) trivial
      (⟨.closeBracket, q⟩ :: rest)
    refine ⟨⟨tree :: output, stack⟩, ?_, .refl _⟩
    rw [List.append_assoc, List.cons_append, run_openBracket, List.singleton_append, hrun,
      run_closeBracket, hset.combineGroup, combineGroup_of_yields hy]
    rfl
  | @call strength tokens tree name p q r _ ih =>
    obtain ⟨state, hrun, hset⟩ := ih output (.bracket :: .function name p :: stack) trivial
      (⟨.closeBracket, r⟩ :: rest)
    refine ⟨⟨.call name p tree :: output, stack⟩, ?_, .refl _⟩
    rw [List.append_assoc, List.cons_append, List.cons_append, run_function,
      if_pos (by simp), run_openBracket, List.singleton_append, hrun, run_closeBracket,
      hset.combineGroup]
    rfl
  | @binary strength left right l r op p hop _ _ ihl ihr =>
    obtain ⟨state, hrun, hset⟩ := ihl output stack (hy.mono hop)
      (⟨.operator op, p⟩ :: (right ++ rest))
    obtain ⟨final, hrun', hset'⟩ := ihr (l :: output) (.operator op p :: stack)
      (Nat.lt_succ_self _) rest
    refine ⟨final, ?_, ?_⟩
    · rw [List.append_assoc, List.cons_append, hrun, run_operator, hset.combineStronger le_rfl,
        combineStronger_of_yields stack (hy.mono hop), ← hrun']
      rfl
    · have hlast : Settles strength ⟨r :: l :: output, .operator op p :: stack⟩
          ⟨.binary op p l r :: output, stack⟩ := .combine hop (.refl _)
      exact (hset'.mono (by omega)).trans hlast

/-- Tokens without a sign of assignment are allowed. -/
theorem assignmentAllowed_of_not_assign {tokens : List Token}
    (h : ∀ token ∈ tokens, token.lexeme ≠ .operator .assign) : assignmentAllowed tokens = true := by
  have hany : tokens.any (·.isOperator .assign) = false := by
    rw [List.any_eq_false]
    intro token ht
    simpa [Token.isOperator] using h token ht
  unfold assignmentAllowed
  split
  · next name p q rest => exact absurd rfl (h ⟨.operator .assign, q⟩ (by simp))
  · simp [hany]

/-- Tokens that mean a tree are read into it. -/
theorem ofTokens_of_means {tokens : List Token} {tree : Tree} (h : Means tokens tree) :
    ofTokens tokens = .ok tree := by
  cases h with
  | expression h =>
    have hallowed := assignmentAllowed_of_not_assign (h.not_assign le_rfl)
    obtain ⟨state, hrun, hset⟩ := run_of_spells h [] [] trivial []
    have hall : combineAll state.output state.stack = .ok [tree] := by
      rw [hset.combineAll]
      rfl
    rw [List.append_nil] at hrun
    rw [ofTokens, hallowed, hrun]
    simp [Progress.run, hall, bind, Except.bind, pure, Except.pure]
  | @assignment rest tree name p q h =>
    have hany : rest.any (·.isOperator .assign) = false := by
      rw [List.any_eq_false]
      intro token ht
      simpa [Token.isOperator] using h.not_assign le_rfl token ht
    obtain ⟨state, hrun, hset⟩ := run_of_spells h [.leaf ⟨.reference name, p⟩]
      [.operator .assign q] Nat.zero_lt_one []
    have hall : combineAll state.output state.stack =
        .ok [.binary .assign q (.leaf ⟨.reference name, p⟩) tree] := by
      rw [hset.combineAll]
      rfl
    rw [List.append_nil] at hrun
    rw [ofTokens, assignmentAllowed, hany, run_single _ _ rfl, run_operator,
      combineStronger_of_yields [] trivial]
    simp only [Except.bind]
    rw [hrun]
    simp [Progress.run, hall, bind, Except.bind, pure, Except.pure]

/-- Number of operands that are single tokens. -/
def singles (tokens : List Token) : Nat := tokens.countP (·.lexeme.isSingle)

/-- Number of operators. -/
def joints (tokens : List Token) : Nat := tokens.countP (·.lexeme.isJoint)

/-- Number of waiting operators. -/
def waitingJoints (stack : List Pending) : Nat := stack.countP (·.isJoint)

/-- Number of open brackets. -/
def openBrackets (stack : List Pending) : Nat := stack.countP (· = .bracket)

/-- Combining under an operator takes one tree away, and under a function none. -/
theorem combine_counts {output combined : List Tree} {waiting : Pending}
    (h : combine output waiting = .ok combined) :
    combined.length + waitingJoints [waiting] = output.length ∧ openBrackets [waiting] = 0 := by
  cases waiting with
  | bracket => simp [combine] at h
  | function name p =>
    rcases output with _ | ⟨operand, others⟩
    · simp [combine] at h
    · cases h
      exact ⟨rfl, rfl⟩
  | operator op p =>
    rcases output with _ | ⟨r, _ | ⟨l, others⟩⟩
    · simp [combine] at h
    · simp [combine] at h
    · cases h
      exact ⟨rfl, rfl⟩

/-- An operator combines as many trees as waiting operators, and no bracket. -/
theorem combineStronger_counts {op : Operator} {output : List Tree} {stack : List Pending}
    {state : Progress} (h : combineStronger op output stack = .ok state) :
    state.output.length + waitingJoints stack = output.length + waitingJoints state.stack ∧
      openBrackets state.stack = openBrackets stack := by
  induction stack generalizing output with
  | nil =>
    cases h
    exact ⟨rfl, rfl⟩
  | cons waiting stack ih =>
    cases waiting with
    | function name p =>
      cases h
      exact ⟨rfl, rfl⟩
    | bracket =>
      cases h
      exact ⟨rfl, rfl⟩
    | operator waiting p =>
      rw [combineStronger] at h
      split at h
      · obtain ⟨combined, hc, hr⟩ := bind_eq_ok_iff.mp h
        obtain ⟨hl, hb⟩ := combine_counts hc
        obtain ⟨ihl, ihb⟩ := ih hr
        simp only [waitingJoints, openBrackets, List.countP_cons, List.countP_nil] at *
        omega
      · cases h
        exact ⟨rfl, rfl⟩

/-- A closing bracket combines as many trees as waiting operators, and one bracket. -/
theorem combineGroup_counts {output : List Tree} {stack : List Pending} {state : Progress}
    (h : combineGroup output stack = .ok state) :
    state.output.length + waitingJoints stack = output.length + waitingJoints state.stack ∧
      openBrackets state.stack + 1 = openBrackets stack := by
  fun_induction combineGroup output stack with
  | case1 => simp at h
  | case2 output name p stack =>
    obtain ⟨combined, hc, hr⟩ := bind_eq_ok_iff.mp h
    cases hr
    obtain ⟨hl, -⟩ := combine_counts hc
    simp [waitingJoints, openBrackets, Pending.isJoint] at *
    omega
  | case3 output stack hnot =>
    cases h
    simp [waitingJoints, openBrackets, Pending.isJoint]
  | case4 output waiting stack hf hb ih =>
    obtain ⟨next, hc, hr⟩ := bind_eq_ok_iff.mp h
    obtain ⟨hl, hb⟩ := combine_counts hc
    obtain ⟨ihl, ihb⟩ := ih next hr
    simp only [waitingJoints, openBrackets, List.countP_cons, List.countP_nil] at *
    omega

/-- The end combines as many trees as waiting operators, and no bracket. -/
theorem combineAll_counts {output combined : List Tree} {stack : List Pending}
    (h : combineAll output stack = .ok combined) :
    combined.length + waitingJoints stack = output.length ∧ openBrackets stack = 0 := by
  induction stack generalizing output with
  | nil =>
    cases h
    exact ⟨rfl, rfl⟩
  | cons waiting stack ih =>
    rw [combineAll] at h
    obtain ⟨next, hc, hr⟩ := bind_eq_ok_iff.mp h
    obtain ⟨hl, hb⟩ := combine_counts hc
    obtain ⟨ihl, ihb⟩ := ih hr
    simp only [waitingJoints, openBrackets, List.countP_cons, List.countP_nil] at *
    omega

/-- No operand starts behind the end of another one; `behind` tells that one ends before the
tokens. -/
def Spaced : Bool → List Token → Prop
  | _, [] => True
  | behind, token :: rest =>
    (behind = true → token.lexeme.startsOperand = false) ∧ Spaced token.lexeme.endsOperand rest

/-- Operands and operators alternate inside matched brackets, of which `depth` are open; `behind`
tells that an operand ends before the tokens. -/
def Alternates : Bool → Nat → List Token → Prop
  | behind, depth, [] => behind = true ∧ depth = 0
  | behind, depth, token :: rest =>
    match token.lexeme with
    | .openBracket => behind = false ∧ Alternates false (depth + 1) rest
    | .closeBracket => behind = true ∧ 0 < depth ∧ Alternates true (depth - 1) rest
    | .function _ =>
      behind = false ∧ rest.head?.map (·.lexeme) = some .openBracket ∧ Alternates false depth rest
    | .operator op => behind = true ∧ op ≠ .assign ∧ Alternates false depth rest
    | _ => behind = false ∧ Alternates true depth rest

/-- Alternation at an operand that is a single token. -/
theorem alternates_single {behind : Bool} {depth : Nat} {token : Token} {rest : List Token}
    (h : token.lexeme.isSingle = true) :
    Alternates behind depth (token :: rest) ↔ behind = false ∧ Alternates true depth rest := by
  rcases token with ⟨lexeme, p⟩
  cases lexeme <;> simp_all [Lexeme.isSingle, Alternates]

/-- Spaced tokens have at most one more operand than operators, and none behind an operand. -/
theorem singles_le {behind : Bool} {tokens : List Token} (h : Spaced behind tokens) :
    singles tokens + behind.toNat ≤ joints tokens + 1 := by
  induction tokens generalizing behind with
  | nil => cases behind <;> simp [singles, joints]
  | cons token rest ih =>
    obtain ⟨hstart, hrest⟩ := h
    have hle := ih hrest
    rcases token with ⟨lexeme, p⟩
    cases lexeme <;> cases behind <;>
      simp [singles, joints, Lexeme.isSingle, Lexeme.isJoint, Lexeme.startsOperand,
        Lexeme.endsOperand] at * <;> omega

/-- Reading changes the number of trees by the operands and the operators. -/
theorem run_counts {state final : Progress} {tokens : List Token}
    (h : state.run tokens = .ok final) :
    final.output.length + waitingJoints state.stack + joints tokens =
      state.output.length + waitingJoints final.stack + singles tokens := by
  induction tokens generalizing state with
  | nil =>
    cases h
    rfl
  | cons token rest ih =>
    rcases token.sorts with hs | ⟨p, rfl⟩ | ⟨p, rfl⟩ | ⟨name, p, rfl⟩ | ⟨op, p, rfl⟩
    · rw [run_single _ _ hs] at h
      have hi := ih h
      obtain ⟨hj, -, -⟩ := Lexeme.of_isSingle hs
      simp only [singles, joints, List.countP_cons, hs, hj, List.length_cons] at *
      simp at *
      omega
    · rw [run_openBracket] at h
      simpa [waitingJoints, singles, joints, Pending.isJoint, Lexeme.isSingle, Lexeme.isJoint]
        using ih h
    · rw [run_closeBracket] at h
      cases hc : combineGroup state.output state.stack with
      | error cause => simp [hc, Except.bind] at h
      | ok next =>
        rw [hc] at h
        have hi := ih h
        obtain ⟨hl, -⟩ := combineGroup_counts hc
        simp [singles, joints, Lexeme.isSingle, Lexeme.isJoint] at *
        omega
    · rw [run_function] at h
      split at h
      · simpa [waitingJoints, singles, joints, Pending.isJoint, Lexeme.isSingle, Lexeme.isJoint]
          using ih h
      · cases h
    · rw [run_operator] at h
      cases hc : combineStronger op state.output state.stack with
      | error cause => simp [hc, Except.bind] at h
      | ok next =>
        rw [hc] at h
        have hi := ih h
        obtain ⟨hl, -⟩ := combineStronger_counts hc
        simp [waitingJoints, singles, joints, Pending.isJoint, Lexeme.isSingle,
          Lexeme.isJoint] at *
        omega

/-- Spaced tokens with one operand more than operators start with an operand exactly if none ends
before them, and have one operand more than operators behind their first token, too. -/
theorem counts_behind {behind : Bool} {token : Token} {rest : List Token}
    (hspaced : Spaced behind (token :: rest))
    (hcount : singles (token :: rest) + behind.toNat = joints (token :: rest) + 1) :
    behind = !token.lexeme.startsOperand ∧
      singles rest + token.lexeme.endsOperand.toNat = joints rest + 1 := by
  obtain ⟨hstart, hrest⟩ := hspaced
  have hle := singles_le hrest
  rcases token with ⟨lexeme, p⟩
  cases lexeme <;> cases behind <;>
    simp [singles, joints, Lexeme.isSingle, Lexeme.isJoint, Lexeme.startsOperand,
      Lexeme.endsOperand] at * <;> omega

/-- Spaced tokens that are read to the end with one operand more than operators alternate. The
number of operators leaves no room for one without operands on both sides. -/
theorem alternates_of_run {behind : Bool} {state final : Progress} {tokens : List Token}
    (hrun : state.run tokens = .ok final) (hend : openBrackets final.stack = 0)
    (hspaced : Spaced behind tokens)
    (hassign : ∀ token ∈ tokens, token.lexeme ≠ .operator .assign)
    (hcount : singles tokens + behind.toNat = joints tokens + 1) :
    Alternates behind (openBrackets state.stack) tokens := by
  induction tokens generalizing behind state with
  | nil =>
    cases hrun
    refine ⟨?_, hend⟩
    cases behind with
    | true => rfl
    | false => simp [singles, joints] at hcount
  | cons token rest ih =>
    obtain ⟨rfl, hbehind⟩ := counts_behind hspaced hcount
    have hrest := hspaced.2
    have hassign' : ∀ token ∈ rest, token.lexeme ≠ .operator .assign :=
      fun t ht => hassign t (List.mem_cons_of_mem _ ht)
    rcases token.sorts with hs | ⟨p, rfl⟩ | ⟨p, rfl⟩ | ⟨name, p, rfl⟩ | ⟨op, p, rfl⟩
    · obtain ⟨-, hst, hen⟩ := Lexeme.of_isSingle hs
      rw [run_single _ _ hs] at hrun
      have hi := ih hrun hrest hassign' hbehind
      rw [hen] at hi
      rw [hst]
      exact (alternates_single hs).mpr ⟨rfl, hi⟩
    · rw [run_openBracket] at hrun
      have hi : Alternates false _ rest := ih hrun hrest hassign' hbehind
      exact ⟨rfl, by simpa [openBrackets] using hi⟩
    · rw [run_closeBracket] at hrun
      cases hc : combineGroup state.output state.stack with
      | error cause => simp [hc, Except.bind] at hrun
      | ok next =>
        rw [hc] at hrun
        obtain ⟨-, hopen⟩ := combineGroup_counts hc
        have hi : Alternates true _ rest := ih hrun hrest hassign' hbehind
        refine ⟨rfl, by omega, ?_⟩
        rw [← hopen]
        exact hi
    · rw [run_function] at hrun
      split at hrun
      · next hnext =>
        have hi : Alternates false _ rest := ih hrun hrest hassign' hbehind
        exact ⟨rfl, hnext, by simpa [openBrackets] using hi⟩
      · cases hrun
    · rw [run_operator] at hrun
      cases hc : combineStronger op state.output state.stack with
      | error cause => simp [hc, Except.bind] at hrun
      | ok next =>
        rw [hc] at hrun
        obtain ⟨-, hopen⟩ := combineStronger_counts hc
        have hi : Alternates false _ rest := ih hrun hrest hassign' hbehind
        refine ⟨rfl, fun he => hassign ⟨.operator op, p⟩ (by simp) (by rw [he]), ?_⟩
        rw [← hopen]
        simpa [openBrackets] using hi

/-- Tokens that go on with no operator behind an operand inside a bracket close it. -/
theorem exists_closeBracket {depth : Nat} {tokens : List Token}
    (h : Alternates true (depth + 1) tokens)
    (hop : ∀ op, tokens.head?.map (·.lexeme) ≠ some (.operator op)) :
    ∃ q rest, tokens = ⟨.closeBracket, q⟩ :: rest ∧ Alternates true depth rest := by
  cases tokens with
  | nil => exact absurd h.2 (by omega)
  | cons token rest =>
    rcases token.sorts with hs | ⟨p, rfl⟩ | ⟨p, rfl⟩ | ⟨name, p, rfl⟩ | ⟨op, p, rfl⟩
    · cases ((alternates_single hs).mp h).1
    · cases h.1
    · exact ⟨p, rest, rfl, h.2.2⟩
    · cases h.1
    · exact absurd rfl (hop op)

/-- Where an operand is due, alternating tokens start with one. Behind an expression they prolong
it up to a token that is no operator. The induction is on the number of tokens, since brackets
nest. -/
theorem phrase_of_alternates (n : Nat) :
    (∀ tokens depth, tokens.length ≤ n → Alternates false depth tokens →
      ∃ first rest, tokens = first ++ rest ∧ Phrase .operand first ∧ first ≠ [] ∧
        Alternates true depth rest) ∧
    (∀ first tokens depth, tokens.length ≤ n → Phrase .expression first →
      Alternates true depth tokens →
      ∃ more rest, tokens = more ++ rest ∧ Phrase .expression (first ++ more) ∧
        Alternates true depth rest ∧ ∀ op, rest.head?.map (·.lexeme) ≠ some (.operator op)) := by
  induction n with
  | zero =>
    constructor
    · intro tokens depth hn h
      rw [List.length_eq_zero_iff.mp (Nat.le_zero.mp hn)] at h
      cases h.1
    · intro first tokens depth hn hf h
      rw [List.length_eq_zero_iff.mp (Nat.le_zero.mp hn)] at h ⊢
      exact ⟨[], [], rfl, by simpa using hf, h, by simp⟩
  | succ n ih =>
    obtain ⟨ihfirst, ihmore⟩ := ih
    have hgroup : ∀ tokens depth, tokens.length ≤ n → Alternates false (depth + 1) tokens →
        ∃ inner q rest, tokens = inner ++ ⟨.closeBracket, q⟩ :: rest ∧
          Phrase .expression inner ∧ Alternates true depth rest := by
      intro tokens depth hn h
      obtain ⟨first, next, rfl, hfirst, -, hnext⟩ := ihfirst tokens (depth + 1) hn h
      rw [List.length_append] at hn
      obtain ⟨more, last, rfl, hmore, hlast, hop⟩ :=
        ihmore first next (depth + 1) (by omega) (.lone hfirst) hnext
      obtain ⟨q, rest, rfl, hrest⟩ := exists_closeBracket hlast hop
      exact ⟨first ++ more, q, rest, by simp, hmore, hrest⟩
    constructor
    · intro tokens depth hn h
      cases tokens with
      | nil => cases h.1
      | cons token rest =>
        rw [List.length_cons] at hn
        rcases token.sorts with hs | ⟨p, rfl⟩ | ⟨p, rfl⟩ | ⟨name, p, rfl⟩ | ⟨op, p, rfl⟩
        · exact ⟨[token], rest, rfl, .single hs, by simp, ((alternates_single hs).mp h).2⟩
        · obtain ⟨inner, q, last, rfl, hinner, hlast⟩ := hgroup rest depth (by omega) h.2
          exact ⟨_, last, by simp, .group p q hinner, by simp, hlast⟩
        · cases h.1
        · obtain ⟨-, hopen, hrest⟩ := h
          rcases rest with _ | ⟨⟨lexeme, q⟩, rest⟩
          · simp at hopen
          · obtain rfl : lexeme = .openBracket := by simpa using hopen
            rw [List.length_cons] at hn
            obtain ⟨inner, r, last, rfl, hinner, hlast⟩ := hgroup rest depth (by omega) hrest.2
            exact ⟨_, last, by simp, .call name p q r hinner, by simp, hlast⟩
        · cases h.1
    · intro first tokens depth hn hf h
      by_cases hop : ∀ op, tokens.head?.map (·.lexeme) ≠ some (.operator op)
      · exact ⟨[], tokens, rfl, by simpa using hf, h, hop⟩
      · obtain ⟨op, p, rest, rfl⟩ : ∃ op p rest, tokens = ⟨.operator op, p⟩ :: rest := by
          push Not at hop
          obtain ⟨op, hop⟩ := hop
          rcases tokens with _ | ⟨⟨lexeme, p⟩, rest⟩
          · simp at hop
          · obtain rfl : lexeme = .operator op := by simpa using hop
            exact ⟨op, p, rest, rfl⟩
        obtain ⟨-, hassign, hrest⟩ := h
        rw [List.length_cons] at hn
        obtain ⟨second, next, rfl, hsecond, -, hnext⟩ := ihfirst rest depth (by omega) hrest
        rw [List.length_append] at hn
        obtain ⟨more, last, rfl, hmore, hlast, hend⟩ := ihmore
          (first ++ ⟨.operator op, p⟩ :: second) next depth (by omega)
          (.chain p hassign hf hsecond) hnext
        exact ⟨⟨.operator op, p⟩ :: second ++ more, last, by simp, by simpa using hmore, hlast,
          hend⟩

/-- Alternating tokens outside all brackets are an expression. -/
theorem expression_of_alternates {tokens : List Token} (h : Alternates false 0 tokens) :
    Phrase .expression tokens := by
  obtain ⟨hfirst, hmore⟩ := phrase_of_alternates tokens.length
  obtain ⟨first, next, rfl, hf, -, hnext⟩ := hfirst tokens 0 le_rfl h
  obtain ⟨more, rest, rfl, hm, hrest, hop⟩ := hmore first next 0 (by simp) (.lone hf) hnext
  have hnil : rest = [] := by
    cases rest with
    | nil => rfl
    | cons token rest =>
      rcases token.sorts with hs | ⟨p, rfl⟩ | ⟨p, rfl⟩ | ⟨name, p, rfl⟩ | ⟨op, p, rfl⟩
      · cases ((alternates_single hs).mp hrest).1
      · cases hrest.1
      · exact absurd hrest.2.1 (by omega)
      · cases hrest.1
      · exact absurd rfl (hop op)
  simpa [hnil] using hm

/-- The sign of assignment is missing, or stands only behind a variable that comes first. -/
theorem of_assignmentAllowed {tokens : List Token} (h : assignmentAllowed tokens = true) :
    (∀ token ∈ tokens, token.lexeme ≠ .operator .assign) ∨
      ∃ name p q rest, tokens = ⟨.reference name, p⟩ :: ⟨.operator .assign, q⟩ :: rest ∧
        ∀ token ∈ rest, token.lexeme ≠ .operator .assign := by
  unfold assignmentAllowed at h
  split at h
  · next name p q rest =>
    exact .inr ⟨name, p, q, rest, rfl, by simpa [Token.isOperator] using h⟩
  · exact .inl (by simpa [Token.isOperator] using h)

/-- What reading all tokens does when it succeeds. -/
theorem run_of_ofTokens {tokens : List Token} {tree : Tree} (h : ofTokens tokens = .ok tree) :
    assignmentAllowed tokens = true ∧ ∃ final, Progress.run ⟨[], []⟩ tokens = .ok final ∧
      combineAll final.output final.stack = .ok [tree] := by
  unfold ofTokens at h
  cases ha : assignmentAllowed tokens with
  | false => simp [ha, bind, Except.bind, throw, throwThe, MonadExceptOf.throw] at h
  | true =>
    refine ⟨rfl, ?_⟩
    cases hr : Progress.run ⟨[], []⟩ tokens with
    | error cause => simp [ha, hr, bind, Except.bind] at h
    | ok final =>
      cases hc : combineAll final.output final.stack with
      | error cause => simp [ha, hr, hc, bind, Except.bind] at h
      | ok combined =>
        refine ⟨final, rfl, ?_⟩
        rcases combined with _ | ⟨first, _ | ⟨second, others⟩⟩ <;>
          simp [ha, hr, hc, bind, Except.bind, pure, Except.pure, throw, throwThe,
            MonadExceptOf.throw] at h
        rw [hc, h]

/-- Spaced tokens that are read to a single tree from a state without brackets, with as many trees
as waiting operators, are an expression. -/
theorem expression_of_run {state final : Progress} {tokens : List Token} {tree : Tree}
    (hrun : state.run tokens = .ok final)
    (hall : combineAll final.output final.stack = .ok [tree])
    (hopen : openBrackets state.stack = 0)
    (hlevel : state.output.length = waitingJoints state.stack)
    (hspaced : Spaced false tokens)
    (hassign : ∀ token ∈ tokens, token.lexeme ≠ .operator .assign) :
    Phrase .expression tokens := by
  obtain ⟨hl, hb⟩ := combineAll_counts hall
  have hcounts := run_counts hrun
  have hcount : singles tokens + Bool.toNat false = joints tokens + 1 := by
    simp only [List.length_cons, List.length_nil, Bool.toNat_false] at *
    omega
  have halt := alternates_of_run hrun hb hspaced hassign hcount
  rw [hopen] at halt
  exact expression_of_alternates halt

/-- Spaced tokens that are read are a sentence. -/
theorem sentence_of_ofTokens {tokens : List Token} {tree : Tree} (hs : Spaced false tokens)
    (h : ofTokens tokens = .ok tree) : Sentence tokens := by
  obtain ⟨hallowed, final, hrun, hall⟩ := run_of_ofTokens h
  rcases of_assignmentAllowed hallowed with hassign | ⟨name, p, q, rest, rfl, hassign⟩
  · exact .expression (expression_of_run hrun hall rfl rfl hs hassign)
  · rw [run_single _ _ rfl, run_operator, combineStronger_of_yields [] trivial] at hrun
    exact .assignment name p q (expression_of_run hrun hall rfl rfl hs.2.2 hassign)

/-- Spaced tokens are read exactly into the tree they mean. -/
theorem ofTokens_eq_ok_iff {tokens : List Token} (hs : Spaced false tokens) {tree : Tree} :
    ofTokens tokens = .ok tree ↔ Means tokens tree := by
  refine ⟨fun h => ?_, ofTokens_of_means⟩
  obtain ⟨other, ho⟩ := sentence_iff.mp (sentence_of_ofTokens hs h)
  have he := ofTokens_of_means ho
  rw [h] at he
  cases he
  exact ho

end Tree

/-- Implied operators leave no operand behind the end of another one. -/
theorem spaced_insertImplied (previous : Option Lexeme) (tokens : List Token) :
    Tree.Spaced ((previous.map Lexeme.endsOperand).getD false)
      (insertImplied previous tokens) := by
  induction tokens generalizing previous with
  | nil => trivial
  | cons token rest ih =>
    have hbound : (bindUnits previous token rest).lexeme.startsOperand =
        token.lexeme.startsOperand := by
      unfold bindUnits
      split
      · next h =>
        have he : token.lexeme = .operator .divide := by
          simp only [Token.isOperator, Bool.and_eq_true, decide_eq_true_eq] at h
          exact h.1.1
        rw [he]
        rfl
      · rfl
    have hrest := ih (some (bindUnits previous token rest).lexeme)
    rw [insertImplied]
    split
    · next h => exact ⟨fun _ => rfl, fun hf => Bool.noConfusion hf, hrest⟩
    · next h =>
      refine ⟨fun hp => ?_, hrest⟩
      rw [hbound]
      simpa [hp] using h

namespace Equation

open Grammar

/-- An equation is read from tokens with the tree they are read into, and keeps its text. -/
theorem ofTokens_eq_ok_iff {tokens : List Token} {source : String} {e : Equation} :
    ofTokens tokens source = .ok e ↔ Tree.ofTokens tokens = .ok e.root ∧ e.source = source := by
  obtain ⟨root, text⟩ := e
  rw [ofTokens]
  cases Tree.ofTokens tokens with
  | error cause => simp
  | ok tree => simp [eq_comm (a := text)]

/-- Completed tokens are spaced. -/
theorem spaced_of_complete {tokens completed : List Token} (h : complete tokens = .ok completed) :
    Tree.Spaced false completed := by
  obtain ⟨folded, -, hf⟩ := bind_eq_ok_iff.mp h
  exact pure_eq_ok_iff.mp hf ▸ spaced_insertImplied none folded

/-- The tokens of a text are spaced. -/
theorem spaced_of_tokenize {catalogue : Catalogue} {known : List String} {source : String}
    {tokens : List Token} (h : tokenize catalogue known source = .ok tokens) :
    Tree.Spaced false tokens := by
  obtain ⟨scanned, -, hc⟩ := bind_eq_ok_iff.mp h
  exact spaced_of_complete hc

/-- An equation that is read from the tokens of a text has the tree they mean. -/
theorem means_of_ofTokens {catalogue : Catalogue} {known : List String} {source : String}
    {tokens : List Token} (h : tokenize catalogue known source = .ok tokens) {e : Equation}
    (he : ofTokens tokens source = .ok e) : Means tokens e.root :=
  (Tree.ofTokens_eq_ok_iff (spaced_of_tokenize h)).mp (ofTokens_eq_ok_iff.mp he).1

/-- The tokens of a text are read into an equation exactly when they are a sentence, and otherwise
a malformation of the text is reported. The tree is the only one that the tokens mean: operators
that bind tighter group first, equal ones to the left, brackets excepted. Read in order it has the
tokens without the brackets. -/
theorem ofTokens_spec {catalogue : Catalogue} {known : List String} {source : String}
    {tokens : List Token} (h : tokenize catalogue known source = .ok tokens) :
    ((∃ e, ofTokens tokens source = .ok e) ↔ Sentence tokens) ∧
    (¬ Sentence tokens → ∃ cause,
      ofTokens tokens source = .error (.fault (.malformed cause) (some source))) ∧
    ∀ e, ofTokens tokens source = .ok e →
      Means tokens e.root ∧ (∀ other, Means tokens other → other = e.root) ∧
      e.root.tokens = tokens.filter (!·.isBracket) := by
  have hiff : (∃ e, ofTokens tokens source = .ok e) ↔ Sentence tokens := by
    rw [sentence_iff]
    constructor
    · rintro ⟨e, he⟩
      exact ⟨e.root, means_of_ofTokens h he⟩
    · rintro ⟨tree, ht⟩
      exact ⟨⟨tree, source⟩, by rw [ofTokens, Tree.ofTokens_of_means ht]⟩
  refine ⟨hiff, fun hnot => ?_, fun e he => ?_⟩
  · cases ht : Tree.ofTokens tokens with
    | error cause => exact ⟨cause, by rw [ofTokens, ht]⟩
    | ok root => exact absurd (hiff.mp ⟨⟨root, source⟩, by rw [ofTokens, ht]⟩) hnot
  · have hm := means_of_ofTokens h he
    refine ⟨hm, fun other ho => ?_, hm.tokens_eq⟩
    have hfirst := Tree.ofTokens_of_means hm
    rw [Tree.ofTokens_of_means ho] at hfirst
    exact Except.ok.inj hfirst

/-- An assignment of a product whose sign is implied, and the tree that its tokens mean. -/
theorem ofTokens_spec_product : ∃ tokens e,
    tokenize .standard ["y"] "x = 2 y^3" = .ok tokens ∧
    ofTokens tokens "x = 2 y^3" = .ok e ∧ Means tokens e.root ∧
    e.root.tokens = tokens.filter (!·.isBracket) := by
  let tokens : List Token :=
    [⟨.reference "x", 0⟩, .ofOperator .assign 2, ⟨.number "2" (.number (.ofNat 2)), 4⟩,
      .ofOperator .impliedMultiply 6, ⟨.reference "y", 6⟩, .ofOperator .power 7,
      ⟨.number "3" (.number (.ofNat 3)), 8⟩]
  have h : tokenize .standard ["y"] "x = 2 y^3" = .ok tokens := by decide +kernel
  have hsome : (ofTokens tokens "x = 2 y^3").toOption.isSome = true := by decide +kernel
  cases he : ofTokens tokens "x = 2 y^3" with
  | error failure =>
    rw [he] at hsome
    cases hsome
  | ok e =>
    obtain ⟨hm, -, ht⟩ := (ofTokens_spec h).2.2 e he
    exact ⟨tokens, e, h, he, hm, ht⟩

end Equation

end UnitCalculator
