import UnitCalculator.Proofs.Expression.Insertion
import UnitCalculator.Proofs.Expression.Parsing

/-!
# Other leaves and positions

Finished trees are combined without a look at their leaves and positions, and what waits without a
look at its position. So tokens that differ only in their positions are completed and read alike,
into trees that differ only in them, or fail alike.
-/

namespace UnitCalculator

namespace Tree

/-- A tree with other leaves and positions. -/
def relabel (leaf : Token → Token) (place : Nat → Nat) : Tree → Tree
  | .leaf token => .leaf (leaf token)
  | .call function position operand => .call function (place position) (operand.relabel leaf place)
  | .binary op position left right =>
    .binary op (place position) (left.relabel leaf place) (right.relabel leaf place)

/-- What waits, with another position. -/
def Pending.relabel (place : Nat → Nat) : Pending → Pending
  | .operator op position => .operator op (place position)
  | .function name position => .function name (place position)
  | .bracket => .bracket

/-- A reading state with other leaves and positions. -/
def Progress.relabel (leaf : Token → Token) (place : Nat → Nat) (state : Progress) : Progress :=
  ⟨state.output.map (Tree.relabel leaf place), state.stack.map (Pending.relabel place)⟩

section

variable (leaf : Token → Token) (place : Nat → Nat)

/-- Combining under what waits commutes with relabelling. -/
theorem combine_relabel (output : List Tree) (waiting : Pending) :
    combine (output.map (relabel leaf place)) (waiting.relabel place) =
      (combine output waiting).map (List.map (relabel leaf place)) := by
  cases waiting with
  | bracket => rfl
  | function name p => cases output <;> rfl
  | operator op p => rcases output with _ | ⟨right, _ | ⟨left, output⟩⟩ <;> rfl

/-- Combining under stronger operators commutes with relabelling. -/
theorem combineStronger_relabel (op : Operator) (output : List Tree) (stack : List Pending) :
    combineStronger op (output.map (relabel leaf place)) (stack.map (Pending.relabel place)) =
      (combineStronger op output stack).map (Progress.relabel leaf place) := by
  induction stack generalizing output with
  | nil => rfl
  | cons waiting stack ih =>
    cases waiting with
    | operator waiting p =>
      have hcombine := combine_relabel leaf place output (.operator waiting p)
      rw [List.map_cons, Pending.relabel, combineStronger, combineStronger]
      rw [Pending.relabel] at hcombine
      split
      · rw [hcombine]
        cases combine output (.operator waiting p) with
        | error cause => rfl
        | ok combined => exact ih combined
      · rfl
    | _ => rfl

/-- What waits above the bracket of a group is combined first. -/
theorem combineGroup_cons {output : List Tree} {waiting : Pending} {stack : List Pending}
    (h : waiting ≠ .bracket) :
    combineGroup output (waiting :: stack) =
      combine output waiting >>= fun combined => combineGroup combined stack := by
  cases waiting with
  | bracket => exact absurd rfl h
  | _ => rfl

/-- Combining a group commutes with relabelling. -/
theorem combineGroup_relabel (output : List Tree) (stack : List Pending) :
    combineGroup (output.map (relabel leaf place)) (stack.map (Pending.relabel place)) =
      (combineGroup output stack).map (Progress.relabel leaf place) := by
  fun_induction combineGroup output stack with
  | case1 => rfl
  | case2 output name p stack =>
    have hcombine := combine_relabel leaf place output (.function name p)
    rw [Pending.relabel] at hcombine
    rw [List.map_cons, List.map_cons, Pending.relabel, Pending.relabel, combineGroup, hcombine]
    cases combine output (.function name p) <;> rfl
  | case3 output stack hnot =>
    rw [List.map_cons, Pending.relabel, combineGroup]
    · rfl
    · intro name p behind hs
      rcases stack with _ | ⟨waiting, stack⟩
      · cases hs
      · cases waiting with
        | function => exact hnot _ _ _ rfl
        | _ => cases (List.cons.inj hs).1
  | case4 output waiting stack hf hb ih =>
    have hopen : waiting.relabel place ≠ .bracket := by
      cases waiting with
      | bracket => exact absurd rfl hb
      | operator op p => exact Pending.noConfusion
      | function name p => exact Pending.noConfusion
    rw [List.map_cons, combineGroup_cons hopen, combine_relabel]
    cases combine output waiting with
    | error cause => rfl
    | ok combined => exact ih combined

/-- Combining at the end commutes with relabelling. -/
theorem combineAll_relabel (output : List Tree) (stack : List Pending) :
    combineAll (output.map (relabel leaf place)) (stack.map (Pending.relabel place)) =
      (combineAll output stack).map (List.map (relabel leaf place)) := by
  induction stack generalizing output with
  | nil => rfl
  | cons waiting stack ih =>
    rw [List.map_cons, combineAll, combineAll, combine_relabel]
    cases combine output waiting with
    | error cause => rfl
    | ok combined => exact ih combined

end

end Tree

/-- A token without its position. -/
def Token.unplaced (token : Token) : Token := ⟨token.lexeme, 0⟩

/-- A tree without its positions. -/
def Tree.unplaced (tree : Tree) : Tree := tree.relabel Token.unplaced fun _ => 0

/-- Inserting implied operators does not look at positions. -/
theorem insertImplied_unplaced (previous : Option Lexeme) (tokens : List Token) :
    insertImplied previous (tokens.map Token.unplaced) =
      (insertImplied previous tokens).map Token.unplaced := by
  induction tokens generalizing previous with
  | nil => rfl
  | cons token rest ih =>
    have hbound : bindUnits previous token.unplaced (rest.map Token.unplaced) =
        (bindUnits previous token rest).unplaced := by
      have hnext : (rest.map Token.unplaced).head?.map (·.lexeme.isUnit) =
          rest.head?.map (·.lexeme.isUnit) := by
        cases rest <;> rfl
      rw [bindUnits, bindUnits, hnext, apply_ite Token.unplaced]
      rfl
    rw [List.map_cons, insertImplied, insertImplied, hbound, ih,
      apply_ite (List.map Token.unplaced)]
    rfl

namespace Tree

/-- Reading does not look at positions. -/
theorem run_unplaced (state : Progress) (tokens : List Token) :
    (state.relabel Token.unplaced fun _ => 0).run (tokens.map Token.unplaced) =
      (state.run tokens).map (Progress.relabel Token.unplaced fun _ => 0) := by
  induction tokens generalizing state with
  | nil => rfl
  | cons token rest ih =>
    rcases token.sorts with hsingle | ⟨p, rfl⟩ | ⟨p, rfl⟩ | ⟨name, p, rfl⟩ | ⟨op, p, rfl⟩
    · have hunplaced : token.unplaced.lexeme.isSingle = true := hsingle
      rw [List.map_cons, run_single _ _ hsingle, run_single _ _ hunplaced, ← ih]
      rfl
    · exact ih ⟨state.output, .bracket :: state.stack⟩
    · rw [List.map_cons, Token.unplaced, run_closeBracket, run_closeBracket, Progress.relabel,
        combineGroup_relabel]
      cases combineGroup state.output state.stack with
      | error cause => rfl
      | ok next => exact ih next
    · have hnext : (rest.map Token.unplaced).head?.map (·.lexeme) = rest.head?.map (·.lexeme) := by
        cases rest <;> rfl
      rw [List.map_cons, Token.unplaced, run_function, run_function, hnext]
      split
      · exact ih ⟨state.output, .function name p :: state.stack⟩
      · rfl
    · rw [List.map_cons, Token.unplaced, run_operator, run_operator, Progress.relabel,
        combineStronger_relabel]
      cases combineStronger op state.output state.stack with
      | error cause => rfl
      | ok next => exact ih ⟨next.output, .operator op p :: next.stack⟩

/-- Where a sign of assignment may stand does not depend on positions. -/
theorem assignmentAllowed_unplaced (tokens : List Token) :
    assignmentAllowed (tokens.map Token.unplaced) = assignmentAllowed tokens := by
  have hany : ∀ rest : List Token, (rest.map Token.unplaced).any (·.isOperator .assign) =
      rest.any (·.isOperator .assign) := by
    intro rest
    rw [List.any_map]
    rfl
  unfold assignmentAllowed
  split
  · next name p q rest h =>
    rcases tokens with _ | ⟨⟨_, p'⟩, _ | ⟨⟨_, q'⟩, behind⟩⟩
    · cases h
    · cases h
    · cases h
      simp [hany]
  · next hnot =>
    split
    · next name p q rest => exact absurd rfl (hnot name 0 0 _)
    · rw [hany]

/-- The tree that tokens spell is the same without positions. -/
theorem ofTokens_unplaced (tokens : List Token) :
    ofTokens (tokens.map Token.unplaced) = (ofTokens tokens).map unplaced := by
  have hrun : Progress.run ⟨[], []⟩ (tokens.map Token.unplaced) =
      (Progress.run ⟨[], []⟩ tokens).map (Progress.relabel Token.unplaced fun _ => 0) :=
    run_unplaced ⟨[], []⟩ tokens
  rw [ofTokens, ofTokens, assignmentAllowed_unplaced, hrun]
  cases assignmentAllowed tokens with
  | false => rfl
  | true =>
    cases Progress.run ⟨[], []⟩ tokens with
    | error cause => rfl
    | ok final =>
      have hall := combineAll_relabel Token.unplaced (fun _ => 0) final.output final.stack
      simp only [Except.map, Progress.relabel, bind, Except.bind, hall]
      cases combineAll final.output final.stack with
      | error cause => rfl
      | ok combined => rcases combined with _ | ⟨tree, _ | ⟨other, others⟩⟩ <;> rfl

end Tree

end UnitCalculator
