import UnitCalculator.Proofs.Expression.Balance
import UnitCalculator.Proofs.Expression.Substitutivity

/-!
# Signs of exponents

A sign behind a power sign negates exactly the next operand: a single token, balanced tokens in
brackets or a function with such brackets. The tokens are read as if sign and operand stood in
brackets. Signs before them are folded in the same way in both cases, since both are balanced, and
the brackets around a single number make no difference to its tree.
-/

namespace UnitCalculator

namespace Token

/-- One operand: a single token, or balanced tokens in brackets, with or without a function. -/
inductive IsOperand : List Token → Prop where
  | single {token : Token} (h : token.lexeme.isSingle = true) : IsOperand [token]
  | group {inner : List Token} (p q : Nat) (h : Token.Balanced inner) :
    IsOperand (⟨.openBracket, p⟩ :: inner ++ [⟨.closeBracket, q⟩])
  | call {inner : List Token} (name : String) (p q r : Nat) (h : Token.Balanced inner) :
    IsOperand (⟨.function name, p⟩ :: ⟨.openBracket, q⟩ :: inner ++ [⟨.closeBracket, r⟩])

/-- Tokens differ in their positions, and in that some lexemes stand in place of others once. -/
def Swapped (out put : List Lexeme) (first second : List Token) : Prop :=
  ∃ before behind, first.map (·.lexeme) = before ++ out ++ behind ∧
    second.map (·.lexeme) = before ++ put ++ behind

variable {out put : List Lexeme} {first second : List Token}

/-- With the same lexemes nothing is swapped. -/
theorem Swapped.of_same (h : first.map (·.lexeme) = second.map (·.lexeme)) :
    Swapped [] [] first second := ⟨[], first.map (·.lexeme), by simp, by simp [h]⟩

/-- The same tokens can stand before. -/
theorem Swapped.append_left (h : Swapped out put first second) (front : List Token) :
    Swapped out put (front ++ first) (front ++ second) := by
  obtain ⟨before, behind, hfirst, hsecond⟩ := h
  exact ⟨front.map (·.lexeme) ++ before, behind, by simp [hfirst], by simp [hsecond]⟩

/-- The same lexemes can stand behind. -/
theorem Swapped.append_right (h : Swapped out put first second) {back back' : List Token}
    (hb : back.map (·.lexeme) = back'.map (·.lexeme)) :
    Swapped out put (first ++ back) (second ++ back') := by
  obtain ⟨before, behind, hfirst, hsecond⟩ := h
  exact ⟨before, behind ++ back'.map (·.lexeme), by simp [hfirst, hb], by simp [hsecond]⟩

/-- An operand is split off as a whole. -/
theorem IsOperand.splitOperand {operand : List Token} (h : IsOperand operand)
    (rest : List Token) : splitOperand (operand ++ rest) = (operand, rest) := by
  cases h with
  | @single token h =>
    rcases token with ⟨lexeme, p⟩
    cases lexeme <;> first | rfl | cases h
  | group p q h =>
    simp only [List.append_assoc, List.cons_append, List.nil_append, Token.splitOperand,
      splitGroup_openBracket, splitGroup_append_closeBracket h, joinFirst]
  | call name p q r h =>
    simp only [List.append_assoc, List.cons_append, List.nil_append, Token.splitOperand, if_true,
      splitGroup_openBracket, splitGroup_append_closeBracket h, joinFirst]

/-- Tokens in brackets are balanced if they are. -/
theorem Balanced.bracketed {inner : List Token} (h : Token.Balanced inner) (p q : Nat) :
    Token.Balanced (⟨.openBracket, p⟩ :: inner ++ [⟨.closeBracket, q⟩]) := by
  have hinner : depthAfter? 1 inner = some 1 := depthAfter?_of_zero h 1
  change depthAfter? 1 (inner ++ [⟨.closeBracket, q⟩]) = some 0
  rw [depthAfter?_append, hinner]
  rfl

/-- A lexeme that is no bracket can stand before balanced tokens. -/
theorem Balanced.cons {rest : List Token} (h : Token.Balanced rest) {token : Token}
    (ht : token.lexeme.depthBehind? 0 = some 0) : Token.Balanced (token :: rest) := by
  rw [Token.Balanced, depthAfter?_cons, ht]
  exact h

/-- An operand is balanced. -/
theorem IsOperand.balanced {operand : List Token} (h : IsOperand operand) :
    Token.Balanced operand := by
  cases h with
  | @single token h =>
    rcases token with ⟨lexeme, p⟩
    cases lexeme <;> first | rfl | cases h
  | group p q h => exact h.bracketed p q
  | call name p q r h => exact (h.bracketed q r).cons rfl

end Token

open Token

/-- What is folded alike behind all lexemes is folded alike behind all tokens. The induction is on
these tokens: they are folded apart, or a sign among them has an operand that takes in the whole of
what is swapped. -/
theorem concur_foldNegation {out put : List Lexeme} {left right : List Token}
    (hl : Token.Balanced left) (hr : Token.Balanced right) (hil : ∀ post, Inert (left ++ post))
    (hir : ∀ post, Inert (right ++ post))
    (hfolds : ∀ previous post, Concur (Swapped out put)
      (foldNegation previous (left ++ post)) (foldNegation previous (right ++ post)))
    (pre post : List Token) (previous : Option Lexeme) :
    Concur (Swapped out put) (foldNegation previous (pre ++ (left ++ post)))
      (foldNegation previous (pre ++ (right ++ post))) := by
  induction hn : pre.length using Nat.strong_induction_on generalizing pre post previous with
  | _ n ih =>
  subst hn
  cases pre with
  | nil => exact hfolds previous post
  | cons token others =>
    rcases foldsApart_or_foldsOpenly previous token others with
      ⟨start, last, gone, rest, hg, hne, hfold⟩ | ⟨q, operand, front, depth, hg, -, hfold⟩
    · have hlength : rest.length < (token :: others).length := by
        rw [hg, List.length_append]
        have := List.length_pos_iff.mpr hne
        omega
      have hrest := ih rest.length hlength rest post (some last) rfl
      rw [hfold _ (hil post), hfold _ (hir post)]
      cases start with
      | error failure => exact .error failure
      | ok front => exact hrest.map fun _ _ h => h.append_left front
    · have hgroup : ∀ {tokens}, Token.Balanced tokens → splitGroup (depth + 1) (tokens ++ post) =
          (tokens ++ (splitGroup (depth + 1) post).1, (splitGroup (depth + 1) post).2) := by
        intro tokens h
        have hdepth := depthAfter?_of_zero h depth
        rw [Nat.zero_add] at hdepth
        exact splitGroup_append_of_some hdepth post
      have hlength : (operand :: front).length < (token :: others).length := by
        rw [hg]
        exact Nat.lt_succ_self _
      have hinside := ih (operand :: front).length hlength (operand :: front)
        (splitGroup (depth + 1) post).1 (some .negation) rfl
      rw [hfold, hfold, hgroup hl, hgroup hr]
      refine hinside.bind fun folded folded' h => ?_
      cases foldNegation (some .closeBracket) (splitGroup (depth + 1) post).2 with
      | error failure => exact .error failure
      | ok behind =>
        exact .ok ((h.append_left [⟨.openBracket, q⟩, ⟨.negation, q⟩]).append_right (by simp))

/-- Lexemes that are read alike in the place of others: the same, or a number behind a power sign
and the number in brackets. -/
inductive Lexeme.Exchangeable : List Lexeme → List Lexeme → Prop where
  | same (lexemes : List Lexeme) : Exchangeable lexemes lexemes
  | number {number : Lexeme} (h : number.isNumber = true) :
    Exchangeable [.operator .power, number]
      [.operator .power, .openBracket, number, .closeBracket]

/-- An operand starts with a token that takes a sign as a factor, or is a number. -/
theorem Token.IsOperand.exists_cons {operand : List Token} (h : IsOperand operand) :
    ∃ first others, operand = first :: others ∧ (first.lexeme.takesSign = true ∨
      others = [] ∧ ∃ negated, first.lexeme.negated? = some negated) := by
  cases h with
  | @single token h =>
    refine ⟨token, [], rfl, ?_⟩
    cases hl : token.lexeme with
    | number => exact .inr ⟨rfl, _, rfl⟩
    | lookup => exact .inr ⟨rfl, _, rfl⟩
    | unit => exact .inl rfl
    | reference => exact .inl rfl
    | _ =>
      rw [hl] at h
      cases h
  | group => exact ⟨_, _, rfl, .inl rfl⟩
  | call => exact ⟨_, _, rfl, .inl rfl⟩

section

variable {operand : List Token} (p q r s t : Nat)

/-- A power sign is kept. -/
theorem foldNegation_power (previous : Option Lexeme) (rest : List Token) :
    foldNegation previous (⟨.operator .power, p⟩ :: rest) =
      (foldNegation (some (.operator .power)) rest).map (⟨.operator .power, p⟩ :: ·) :=
  foldNegation_keep rfl rest

/-- An opening bracket is kept. -/
theorem foldNegation_openBracket (previous : Option Lexeme) (rest : List Token) :
    foldNegation previous (⟨.openBracket, r⟩ :: rest) =
      (foldNegation (some .openBracket) rest).map (⟨.openBracket, r⟩ :: ·) :=
  foldNegation_keep rfl rest

/-- Behind a power sign, a factor and its operand are folded as if they stood in brackets. -/
theorem concur_factor (h : IsOperand operand) {first : Token} {others : List Token}
    (ho : operand = first :: others) (ht : first.lexeme.takesSign = true)
    (previous : Option Lexeme) (post : List Token) :
    Concur (Swapped [] [])
      (foldNegation previous
        (⟨.operator .power, p⟩ :: ⟨.operator .subtract, q⟩ :: operand ++ post))
      (foldNegation previous (⟨.operator .power, p⟩ :: ⟨.openBracket, r⟩ ::
        ⟨.operator .subtract, s⟩ :: operand ++ [⟨.closeBracket, t⟩] ++ post)) := by
  have hinside := foldNegation_append_closeBracket h.balanced (some .negation) t post
  have hsplit := h.splitOperand post
  subst ho
  simp only [List.cons_append, List.append_assoc, List.nil_append] at hinside hsplit ⊢
  rw [foldNegation_power, foldNegation_group q _ ht hsplit, foldNegation_power,
    foldNegation_openBracket, foldNegation_factor s _ rfl (by simp) ht, hinside]
  cases foldNegation (some .negation) (first :: others) with
  | error failure => exact .error failure
  | ok folded =>
    cases foldNegation (some .closeBracket) post with
    | error failure => exact .error failure
    | ok behind => exact .ok (Swapped.of_same (by simp))

/-- Behind a power sign, a number with its sign is folded as in brackets. -/
theorem exists_concur_number {number : Token} {negated : Outcome Lexeme}
    (hn : number.lexeme.negated? = some negated) :
    ∃ out put, Lexeme.Exchangeable out put ∧ ∀ previous post, Concur (Swapped out put)
      (foldNegation previous
        (⟨.operator .power, p⟩ :: ⟨.operator .subtract, q⟩ :: number :: post))
      (foldNegation previous (⟨.operator .power, p⟩ :: ⟨.openBracket, r⟩ ::
        ⟨.operator .subtract, s⟩ :: number :: ⟨.closeBracket, t⟩ :: post)) := by
  have hleft : ∀ previous post, foldNegation previous
      (⟨.operator .power, p⟩ :: ⟨.operator .subtract, q⟩ :: number :: post) =
        (negated.bind fun lexeme => (foldNegation (some lexeme) post).map (⟨lexeme, q⟩ :: ·)).map
          (⟨.operator .power, p⟩ :: ·) := by
    intro previous post
    rw [foldNegation_power, foldNegation_number q _ rfl hn]
  have hright : ∀ previous post, foldNegation previous (⟨.operator .power, p⟩ ::
      ⟨.openBracket, r⟩ :: ⟨.operator .subtract, s⟩ :: number :: ⟨.closeBracket, t⟩ :: post) =
        ((negated.bind fun lexeme => ((foldNegation (some .closeBracket) post).map
          (⟨.closeBracket, t⟩ :: ·)).map (⟨lexeme, s⟩ :: ·)).map
            (⟨.openBracket, r⟩ :: ·)).map (⟨.operator .power, p⟩ :: ·) := by
    intro previous post
    have hclose : ∀ previous, foldNegation previous (⟨.closeBracket, t⟩ :: post) =
        (foldNegation (some .closeBracket) post).map (⟨.closeBracket, t⟩ :: ·) :=
      fun previous => foldNegation_keep rfl post
    rw [foldNegation_power, foldNegation_openBracket, foldNegation_number s _ rfl hn]
    simp only [hclose]
  cases negated with
  | error failure =>
    refine ⟨[], [], .same [], fun previous post => ?_⟩
    rw [hleft, hright]
    exact .error failure
  | ok lexeme =>
    have hnumber := (Lexeme.text_of_negated? hn).2
    have hbehind : Lexeme.allowsSign (some lexeme) = false := by
      cases lexeme <;> first | rfl | cases hnumber
    refine ⟨_, _, .number hnumber, fun previous post => ?_⟩
    rw [hleft, hright, Except.bind, Except.bind, foldNegation_congr hbehind
      (rfl : Lexeme.allowsSign (some .closeBracket) = false)]
    cases foldNegation (some .closeBracket) post with
    | error failure => exact .error failure
    | ok behind => exact .ok ⟨[], behind.map (·.lexeme), rfl, rfl⟩

end

/-- With a sign behind a power sign, tokens are folded as with sign and operand in brackets, up to
lexemes that are read alike. -/
theorem exists_concur {operand : List Token} (h : IsOperand operand) (p q r s t : Nat) :
    ∃ out put, Lexeme.Exchangeable out put ∧ ∀ (pre post : List Token) (previous : Option Lexeme),
      Concur (Swapped out put)
        (foldNegation previous
          (pre ++ ⟨.operator .power, p⟩ :: ⟨.operator .subtract, q⟩ :: operand ++ post))
        (foldNegation previous (pre ++ ⟨.operator .power, p⟩ :: ⟨.openBracket, r⟩ ::
          ⟨.operator .subtract, s⟩ :: operand ++ ⟨.closeBracket, t⟩ :: post)) := by
  have hsigned : ∀ q, Token.Balanced (⟨.operator .subtract, q⟩ :: operand) := fun q =>
    h.balanced.cons rfl
  have hinert : ∀ tokens, Inert (⟨.operator .power, p⟩ :: tokens) := by
    intro tokens next hnext
    obtain rfl := Option.some.inj hnext
    exact ⟨rfl, rfl⟩
  have hbase : ∃ out put, Lexeme.Exchangeable out put ∧ ∀ previous post, Concur (Swapped out put)
      (foldNegation previous
        (⟨.operator .power, p⟩ :: ⟨.operator .subtract, q⟩ :: operand ++ post))
      (foldNegation previous (⟨.operator .power, p⟩ :: ⟨.openBracket, r⟩ ::
        ⟨.operator .subtract, s⟩ :: operand ++ [⟨.closeBracket, t⟩] ++ post)) := by
    obtain ⟨first, others, ho, ht | ⟨rfl, negated, hn⟩⟩ := h.exists_cons
    · exact ⟨[], [], .same [], concur_factor p q r s t h ho ht⟩
    · subst ho
      exact exists_concur_number p q r s t hn
  obtain ⟨out, put, he, hfolds⟩ := hbase
  refine ⟨out, put, he, fun pre post previous => ?_⟩
  have hconcur := concur_foldNegation ((hsigned q).cons rfl)
    (((hsigned s).bracketed r t).cons rfl) (fun _ => hinert _) (fun _ => hinert _) hfolds
    pre post previous
  simpa using hconcur

/-- What stands behind a power sign does not change what is inserted before it. -/
theorem exists_insertImplied_power (previous : Option Lexeme) (tokens : List Token) (p : Nat) :
    ∃ front, ∀ rest, insertImplied previous (tokens ++ ⟨.operator .power, p⟩ :: rest) =
      front ++ ⟨.operator .power, p⟩ :: insertImplied (some (.operator .power)) rest := by
  induction tokens generalizing previous with
  | nil =>
    refine ⟨[], fun rest => ?_⟩
    rw [List.nil_append, insertImplied, bindUnits]
    simp [Token.isOperator, Lexeme.startsOperand]
  | cons token tokens ih =>
    have hbound : ∃ bound, ∀ rest, bindUnits previous token
        (tokens ++ ⟨.operator .power, p⟩ :: rest) = bound := by
      cases tokens with
      | nil => exact ⟨bindUnits previous token [⟨.operator .power, p⟩], fun rest => rfl⟩
      | cons next tokens => exact ⟨bindUnits previous token [next], fun rest => rfl⟩
    obtain ⟨bound, hbound⟩ := hbound
    obtain ⟨front, hfront⟩ := ih (some bound.lexeme)
    by_cases hends : ((previous.map Lexeme.endsOperand).getD false &&
        token.lexeme.startsOperand) = true
    · refine ⟨.ofOperator .impliedMultiply token.position :: bound :: front, fun rest => ?_⟩
      rw [List.cons_append, insertImplied, hbound, hfront, if_pos hends]
      rfl
    · refine ⟨bound :: front, fun rest => ?_⟩
      rw [List.cons_append, insertImplied, hbound, hfront, if_neg hends]
      rfl

section

variable {number : Lexeme} (p q r : Nat) (rest : List Token)

/-- Nothing is inserted between a power sign and a number. -/
theorem insertImplied_number (hn : number.isNumber = true) :
    insertImplied (some (.operator .power)) (⟨number, p⟩ :: rest) =
      ⟨number, p⟩ :: insertImplied (some .closeBracket) rest := by
  cases number with
  | number text value => cases rest <;> rfl
  | lookup text value => cases rest <;> rfl
  | _ => cases hn

/-- Nothing is inserted between a power sign and a number in brackets, and behind them what is
inserted behind the number. -/
theorem insertImplied_bracketed_number (hn : number.isNumber = true) :
    insertImplied (some (.operator .power))
        (⟨.openBracket, p⟩ :: ⟨number, q⟩ :: ⟨.closeBracket, r⟩ :: rest) =
      ⟨.openBracket, p⟩ :: ⟨number, q⟩ :: ⟨.closeBracket, r⟩ ::
        insertImplied (some .closeBracket) rest := by
  cases number with
  | number text value => rfl
  | lookup text value => rfl
  | _ => cases hn

end

namespace Tree

/-- Behind a power sign, tokens that are read alike there are read alike behind all tokens. -/
theorem run_power_congr {p : Nat} {first second : List Token}
    (h : ∀ state : Progress, state.run (⟨.operator .power, p⟩ :: first) =
      state.run (⟨.operator .power, p⟩ :: second)) (front : List Token) (state : Progress) :
    state.run (front ++ ⟨.operator .power, p⟩ :: first) =
      state.run (front ++ ⟨.operator .power, p⟩ :: second) := by
  induction front generalizing state with
  | nil => exact h state
  | cons token front ih =>
    have hnext : (front ++ ⟨.operator .power, p⟩ :: first).head? =
        (front ++ ⟨.operator .power, p⟩ :: second).head? := by
      cases front <;> rfl
    rw [List.cons_append, List.cons_append, Progress.run, Progress.run, hnext]
    exact bind_congr fun next => ih next

/-- A single operand behind a power sign is read as in brackets. -/
theorem ofTokens_power_bracketed {token : Token} (ht : token.lexeme.isSingle = true) (p q r : Nat)
    (front rest : List Token) :
    ofTokens (front ++ ⟨.operator .power, p⟩ :: token :: rest) =
      ofTokens (front ++ ⟨.operator .power, p⟩ :: ⟨.openBracket, q⟩ :: token ::
        ⟨.closeBracket, r⟩ :: rest) := by
  have hallowed : assignmentAllowed (front ++ ⟨.operator .power, p⟩ :: token :: rest) =
      assignmentAllowed (front ++ ⟨.operator .power, p⟩ :: ⟨.openBracket, q⟩ :: token ::
        ⟨.closeBracket, r⟩ :: rest) := by
    have hany : ∀ front : List Token,
        (front ++ ⟨.operator .power, p⟩ :: token :: rest).any (·.isOperator .assign) =
          (front ++ ⟨.operator .power, p⟩ :: ⟨.openBracket, q⟩ :: token ::
            ⟨.closeBracket, r⟩ :: rest).any (·.isOperator .assign) := by
      simp [Token.isOperator]
    rcases front with _ | ⟨⟨first, p'⟩, _ | ⟨⟨second, q'⟩, front⟩⟩
    · exact congrArg (!·) (hany [])
    · have hone := congrArg (!·) (hany [⟨first, p'⟩])
      cases first <;> exact hone
    · by_cases hassign : (∃ name, first = .reference name) ∧ second = .operator .assign
      · obtain ⟨⟨name, rfl⟩, rfl⟩ := hassign
        exact congrArg (!·) (hany front)
      · rw [assignmentAllowed, assignmentAllowed]
        · exact congrArg (!·) (hany (⟨first, p'⟩ :: ⟨second, q'⟩ :: front))
        · intro name _ _ _ he
          cases he
          exact hassign ⟨⟨name, rfl⟩, rfl⟩
        · intro name _ _ _ he
          cases he
          exact hassign ⟨⟨name, rfl⟩, rfl⟩
  have hrun : ∀ state : Progress, state.run (⟨.operator .power, p⟩ :: token :: rest) =
      state.run (⟨.operator .power, p⟩ :: ⟨.openBracket, q⟩ :: token ::
        ⟨.closeBracket, r⟩ :: rest) := by
    intro state
    rw [run_operator, run_operator]
    refine congrArg _ (funext fun reduced => ?_)
    rw [run_openBracket, run_single _ _ ht, run_single _ _ ht, run_closeBracket]
    rfl
  rw [ofTokens, ofTokens, hallowed, run_power_congr hrun]

end Tree

/-- Lexemes that are exchangeable are read alike once operators are inserted, up to positions. -/
theorem ofTokens_insertImplied_swapped {out put : List Lexeme} {first second : List Token}
    (he : Lexeme.Exchangeable out put) (h : Swapped out put first second) :
    (Tree.ofTokens (insertImplied none first)).map Tree.unplaced =
      (Tree.ofTokens (insertImplied none second)).map Tree.unplaced := by
  have hunplaced : ∀ {tokens : List Token} {lexemes : List Lexeme},
      tokens.map (·.lexeme) = lexemes → tokens.map Token.unplaced = lexemes.map (⟨·, 0⟩) := by
    intro tokens lexemes h
    rw [← h, List.map_map]
    rfl
  obtain ⟨before, behind, hfirst, hsecond⟩ := h
  rw [← Tree.ofTokens_unplaced, ← Tree.ofTokens_unplaced, ← insertImplied_unplaced,
    ← insertImplied_unplaced, hunplaced hfirst, hunplaced hsecond]
  cases he with
  | same lexemes => rfl
  | @number number hn =>
    have hsingle : number.isSingle = true := by cases number <;> first | rfl | cases hn
    obtain ⟨front, hfront⟩ := exists_insertImplied_power none (before.map (⟨·, 0⟩)) 0
    simp only [List.map_append, List.map_cons, List.append_assoc, List.cons_append,
      List.nil_append, hfront]
    rw [insertImplied_number 0 _ hn, insertImplied_bracketed_number 0 0 0 _ hn]
    exact Tree.ofTokens_power_bracketed hsingle 0 0 0 front _

namespace Equation

/-- Reading tokens up to positions is folding signs and reading the tree. -/
theorem map_unplaced_read (tokens : List Token) (source : String) :
    (read tokens source).map (·.root.unplaced) =
      (foldNegation none tokens).bind fun folded =>
        match (Tree.ofTokens (insertImplied none folded)).map Tree.unplaced with
        | .ok root => .ok root
        | .error cause => .error (.fault (.malformed cause) (some source)) := by
  rw [read, complete]
  cases foldNegation none tokens with
  | error failure => rfl
  | ok folded =>
    simp only [bind, Except.bind, pure, Except.pure, ofTokens]
    cases Tree.ofTokens (insertImplied none folded) <;> rfl

/-- A sign behind a power sign negates exactly the next operand. With the sign and the operand put
in brackets, tokens are read into the same tree up to positions or fail in the same way, whatever
stands before and behind. Folding signs keeps brackets balanced, and unbalanced ones so. -/
theorem read_negatedExponent_spec {operand : List Token} (h : IsOperand operand)
    (pre post : List Token) (p q r s t : Nat) (source : String) :
    (read (pre ++ ⟨.operator .power, p⟩ :: ⟨.operator .subtract, q⟩ :: operand ++ post)
        source).map (·.root.unplaced) =
      (read (pre ++ ⟨.operator .power, p⟩ :: ⟨.openBracket, r⟩ ::
        ⟨.operator .subtract, s⟩ :: operand ++ ⟨.closeBracket, t⟩ :: post)
          source).map (·.root.unplaced) ∧
    ∀ previous tokens folded, foldNegation previous tokens = .ok folded →
      (Token.Balanced folded ↔ Token.Balanced tokens) := by
  obtain ⟨out, put, he, hconcur⟩ := exists_concur h p q r s t
  refine ⟨?_, fun previous tokens folded => balanced_iff_of_foldNegation⟩
  rw [map_unplaced_read, map_unplaced_read]
  refine (hconcur pre post none).bind_eq fun folded folded' hswapped => ?_
  rw [ofTokens_insertImplied_swapped he hswapped]

/-- An exponent in brackets with a sign, in which another exponent has one, and an implied product
behind it. -/
theorem read_negatedExponent_spec_nested :
    let pre : List Token := [⟨.number "2" (.number (.ofNat 2)), 0⟩]
    let operand : List Token :=
      [⟨.openBracket, 3⟩, ⟨.reference "x", 4⟩, ⟨.operator .power, 5⟩, ⟨.operator .subtract, 6⟩,
        ⟨.reference "y", 7⟩, ⟨.closeBracket, 8⟩]
    let post : List Token := [⟨.reference "z", 10⟩]
    IsOperand operand ∧
    ∃ tree,
      (read (pre ++ ⟨.operator .power, 1⟩ :: ⟨.operator .subtract, 2⟩ :: operand ++ post)
        "2^-(x^-y) z").map (·.root.unplaced) = .ok tree ∧
      (read (pre ++ ⟨.operator .power, 1⟩ :: ⟨.openBracket, 2⟩ ::
        ⟨.operator .subtract, 2⟩ :: operand ++ ⟨.closeBracket, 9⟩ :: post)
          "2^-(x^-y) z").map (·.root.unplaced) = .ok tree := by
  intro pre operand post
  have hoperand : IsOperand operand := .group 3 8 (by decide : Token.Balanced
    [⟨.reference "x", 4⟩, ⟨.operator .power, 5⟩, ⟨.operator .subtract, 6⟩, ⟨.reference "y", 7⟩])
  have hsame := (read_negatedExponent_spec hoperand pre post 1 2 2 2 9 "2^-(x^-y) z").1
  have hsome : (read (pre ++ ⟨.operator .power, 1⟩ :: ⟨.operator .subtract, 2⟩ :: operand ++ post)
      "2^-(x^-y) z").toOption.isSome = true := by decide +kernel
  cases he : read (pre ++ ⟨.operator .power, 1⟩ :: ⟨.operator .subtract, 2⟩ :: operand ++ post)
      "2^-(x^-y) z" with
  | error failure =>
    rw [he] at hsome
    cases hsome
  | ok e =>
    rw [he] at hsame
    exact ⟨hoperand, e.root.unplaced, rfl, hsame.symm⟩

end Equation

end UnitCalculator
