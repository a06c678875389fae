import UnitCalculator.Proofs.Expression.Folding

/-!
# Balanced brackets

Tokens are balanced if every bracket they close is one they opened and none stays open. Splitting a
group counts brackets in the same way, so it goes past balanced tokens as a whole, and the operand
behind a sign never ends inside a group. The brackets around a factor and its operand are therefore
put in as a pair, and folding signs keeps tokens balanced or not.
-/

namespace UnitCalculator

/-- Number of brackets that are open behind a lexeme, `none` if it closes one that is not open. -/
def Lexeme.depthBehind? (depth : Nat) : Lexeme → Option Nat
  | .openBracket => some (depth + 1)
  | .closeBracket => if depth = 0 then none else some (depth - 1)
  | _ => some depth

/-- Number of brackets that are open behind tokens, `none` if they close one that is not open. -/
def Token.depthAfter? (depth : Nat) (tokens : List Token) : Option Nat :=
  tokens.foldlM (fun depth token => token.lexeme.depthBehind? depth) depth

/-- Every bracket that tokens close is one that they opened, and none stays open. -/
def Token.Balanced (tokens : List Token) : Prop := depthAfter? 0 tokens = some 0

instance (tokens : List Token) : Decidable (Token.Balanced tokens) :=
  inferInstanceAs (Decidable (_ = _))

/-- A number is no bracket. -/
theorem Lexeme.depthBehind?_of_isNumber {lexeme : Lexeme} (h : lexeme.isNumber = true)
    (depth : Nat) : lexeme.depthBehind? depth = some depth := by
  cases lexeme <;> first | rfl | cases h

namespace Token

/-- Counting goes on behind the first token. -/
theorem depthAfter?_cons (depth : Nat) (token : Token) (rest : List Token) :
    depthAfter? depth (token :: rest) =
      (token.lexeme.depthBehind? depth).bind (depthAfter? · rest) := List.foldlM_cons

/-- Counting goes on behind the first tokens. -/
theorem depthAfter?_append (depth : Nat) (first second : List Token) :
    depthAfter? depth (first ++ second) =
      (depthAfter? depth first).bind (depthAfter? · second) := List.foldlM_append

/-- Other brackets around a lexeme stay open. -/
theorem depthBehind?_add {depth after : Nat} {lexeme : Lexeme}
    (h : lexeme.depthBehind? depth = some after) (more : Nat) :
    lexeme.depthBehind? (depth + more) = some (after + more) := by
  cases lexeme with
  | openBracket =>
    obtain rfl := Option.some.inj h
    exact congrArg some (by omega)
  | closeBracket =>
    rw [Lexeme.depthBehind?] at h ⊢
    split at h
    · cases h
    · next hd =>
      obtain rfl := Option.some.inj h
      rw [if_neg (by omega)]
      exact congrArg some (by omega)
  | _ =>
    obtain rfl := Option.some.inj h
    rfl

/-- Other brackets around tokens stay open. -/
theorem depthAfter?_add {depth after : Nat} {tokens : List Token}
    (h : depthAfter? depth tokens = some after) (more : Nat) :
    depthAfter? (depth + more) tokens = some (after + more) := by
  induction tokens generalizing depth with
  | nil =>
    obtain rfl := Option.some.inj h
    rfl
  | cons token rest ih =>
    rw [depthAfter?_cons] at h ⊢
    obtain ⟨middle, hm, h⟩ := Option.bind_eq_some_iff.mp h
    rw [depthBehind?_add hm]
    exact ih h

/-- Tokens that close no bracket outside leave the brackets outside open. -/
theorem depthAfter?_of_zero {after : Nat} {tokens : List Token}
    (h : depthAfter? 0 tokens = some after) (depth : Nat) :
    depthAfter? depth tokens = some (after + depth) := by
  have hadd := depthAfter?_add h depth
  rwa [Nat.zero_add] at hadd

/-- A group goes on behind a token that does not close it. -/
theorem splitGroup_cons_of_some {depth after : Nat} {token : Token}
    (h : token.lexeme.depthBehind? depth = some after) (rest : List Token) :
    splitGroup (depth + 1) (token :: rest) = joinFirst token (splitGroup (after + 1) rest) := by
  rcases token with ⟨lexeme, p⟩
  cases lexeme with
  | closeBracket =>
    rw [Lexeme.depthBehind?] at h
    split at h
    · cases h
    · next hd =>
      obtain rfl := Option.some.inj h
      have hsame : depth + 1 - 1 = depth - 1 + 1 := by omega
      simp only [splitGroup, if_neg (show ¬ depth + 1 ≤ 1 by omega), hsame]
  | _ =>
    obtain rfl := Option.some.inj h
    rfl

/-- A group ends behind the token that closes it. -/
theorem splitGroup_cons_of_none {depth : Nat} {token : Token}
    (h : token.lexeme.depthBehind? depth = none) (rest : List Token) :
    splitGroup (depth + 1) (token :: rest) = ([token], rest) ∧
      token.lexeme.depthBehind? (depth + 1) = some 0 := by
  rcases token with ⟨lexeme, p⟩
  cases lexeme with
  | closeBracket =>
    rw [Lexeme.depthBehind?] at h
    split at h
    · next hd =>
      subst hd
      exact ⟨rfl, rfl⟩
    · cases h
  | _ => cases h

/-- A group goes on behind tokens that do not close it. -/
theorem splitGroup_append_of_some {depth after : Nat} {first : List Token}
    (h : depthAfter? depth first = some after) (rest : List Token) :
    splitGroup (depth + 1) (first ++ rest) =
      (first ++ (splitGroup (after + 1) rest).1, (splitGroup (after + 1) rest).2) := by
  induction first generalizing depth with
  | nil =>
    obtain rfl := Option.some.inj h
    rfl
  | cons token first ih =>
    rw [depthAfter?_cons] at h
    obtain ⟨middle, hm, h⟩ := Option.bind_eq_some_iff.mp h
    rw [List.cons_append, splitGroup_cons_of_some hm, ih h]
    rfl

/-- A group ends inside tokens that close it, wherever they stand. -/
theorem exists_splitGroup_of_none {depth : Nat} {first : List Token}
    (h : depthAfter? depth first = none) :
    ∃ inner outer, first = inner ++ outer ∧ depthAfter? (depth + 1) inner = some 0 ∧
      ∀ rest, splitGroup (depth + 1) (first ++ rest) = (inner, outer ++ rest) := by
  induction first generalizing depth with
  | nil => cases h
  | cons token first ih =>
    cases hm : token.lexeme.depthBehind? depth with
    | none =>
      have hdepth := (splitGroup_cons_of_none hm []).2
      refine ⟨[token], first, rfl, ?_, fun rest => (splitGroup_cons_of_none hm _).1⟩
      rw [depthAfter?_cons, hdepth]
      rfl
    | some middle =>
      rw [depthAfter?_cons, hm] at h
      obtain ⟨inner, outer, rfl, hd, hsplit⟩ := ih h
      refine ⟨token :: inner, outer, rfl, ?_, fun rest => ?_⟩
      · rw [depthAfter?_cons, depthBehind?_add hm]
        exact hd
      · rw [List.cons_append, splitGroup_cons_of_some hm, hsplit]
        rfl

/-- Balanced tokens that have ended are all that a group had open. -/
theorem splitGroup_append_closeBracket {inner : List Token} (h : Token.Balanced inner) (p : Nat)
    (rest : List Token) :
    splitGroup 1 (inner ++ ⟨.closeBracket, p⟩ :: rest) = (inner ++ [⟨.closeBracket, p⟩], rest) := by
  rw [splitGroup_append_of_some h]
  rfl

/-- Splitting a group opens its bracket. -/
theorem splitGroup_openBracket (p : Nat) (rest : List Token) :
    splitGroup 0 (⟨.openBracket, p⟩ :: rest) =
      joinFirst ⟨.openBracket, p⟩ (splitGroup 1 rest) := rfl

/-- A group ends inside the tokens behind its bracket, wherever they stand, or goes on behind
them. -/
theorem splitGroup_cases (front : List Token) :
    (∃ inner outer, front = inner ++ outer ∧ depthAfter? 1 inner = some 0 ∧
      ∀ tail, splitGroup 1 (front ++ tail) = (inner, outer ++ tail)) ∨
    ∃ depth, depthAfter? 1 front = some (depth + 1) ∧
      ∀ tail, splitGroup 1 (front ++ tail) =
        (front ++ (splitGroup (depth + 1) tail).1, (splitGroup (depth + 1) tail).2) := by
  cases hd : depthAfter? 0 front with
  | none => exact .inl (exists_splitGroup_of_none hd)
  | some depth =>
    exact .inr ⟨depth, depthAfter?_of_zero hd 1, fun tail => splitGroup_append_of_some hd tail⟩

/-- The operand behind a sign is balanced and ends there, whatever follows, or it has an open group
that goes on behind the tokens. What follows must not open the bracket of a function. -/
theorem splitOperand_cases {operand : Token} (ho : operand.lexeme.takesSign = true)
    (front : List Token) :
    (∃ inner outer, front = inner ++ outer ∧ Token.Balanced (operand :: inner) ∧
      ∀ tail : List Token, tail.head?.map (·.lexeme) ≠ some .openBracket →
        splitOperand (operand :: (front ++ tail)) = (operand :: inner, outer ++ tail)) ∨
    ∃ depth, depthAfter? 0 (operand :: front) = some (depth + 1) ∧
      ∀ tail, splitOperand (operand :: (front ++ tail)) =
        (operand :: front ++ (splitGroup (depth + 1) tail).1,
          (splitGroup (depth + 1) tail).2) := by
  rcases operand with ⟨lexeme, p⟩
  cases lexeme with
  | openBracket =>
    rcases splitGroup_cases front with ⟨inner, outer, rfl, hd, hsplit⟩ | ⟨depth, hd, hsplit⟩
    · refine .inl ⟨inner, outer, rfl, hd, fun tail _ => ?_⟩
      simp only [splitOperand, splitGroup_openBracket, hsplit, joinFirst]
    · refine .inr ⟨depth, hd, fun tail => ?_⟩
      simp only [splitOperand, splitGroup_openBracket, hsplit, joinFirst, List.cons_append]
  | function name =>
    rcases front with _ | ⟨⟨next, q⟩, front⟩
    · refine .inl ⟨[], [], rfl, rfl, fun tail ht => ?_⟩
      cases tail with
      | nil => rfl
      | cons next rest =>
        have hnext : next.lexeme ≠ .openBracket := fun he => ht (congrArg some he)
        simp only [splitOperand, List.nil_append, if_neg hnext]
    by_cases hnext : next = .openBracket
    · subst hnext
      rcases splitGroup_cases front with ⟨inner, outer, rfl, hd, hsplit⟩ | ⟨depth, hd, hsplit⟩
      · refine .inl ⟨⟨.openBracket, q⟩ :: inner, outer, rfl, hd, fun tail _ => ?_⟩
        simp only [splitOperand, List.cons_append, if_true, splitGroup_openBracket, hsplit,
          joinFirst]
      · refine .inr ⟨depth, hd, fun tail => ?_⟩
        simp only [splitOperand, List.cons_append, if_true, splitGroup_openBracket, hsplit,
          joinFirst]
    · refine .inl ⟨[], ⟨next, q⟩ :: front, rfl, rfl, fun tail _ => ?_⟩
      simp only [splitOperand, List.cons_append, if_neg hnext]
  | unit symbol value => exact .inl ⟨[], front, rfl, rfl, fun tail _ => rfl⟩
  | reference name => exact .inl ⟨[], front, rfl, rfl, fun tail _ => rfl⟩
  | _ => cases ho

/-- The operand behind a sign closes no bracket that it does not open. -/
theorem exists_depthAfter?_of_splitOperand {operand : Token} {rest first second : List Token}
    (ho : operand.lexeme.takesSign = true)
    (hs : splitOperand (operand :: rest) = (first, second)) :
    ∃ depth, depthAfter? 0 first = some depth := by
  rcases splitOperand_cases ho rest with ⟨inner, outer, -, hd, hsplit⟩ | ⟨depth, hd, hsplit⟩
  · have hfirst := hsplit [] nofun
    rw [List.append_nil, hs] at hfirst
    exact ⟨0, (Prod.mk.inj hfirst).1 ▸ hd⟩
  · have hfirst := hsplit []
    rw [List.append_nil, hs] at hfirst
    refine ⟨depth + 1, ?_⟩
    rw [(Prod.mk.inj hfirst).1]
    simpa [splitGroup] using hd

end Token

open Token

/-- Folding signs keeps the number of open brackets. -/
theorem depthAfter?_of_folds {previous : Option Lexeme} {tokens folded : List Token}
    (h : Folds previous tokens folded) (depth : Nat) :
    depthAfter? depth folded = depthAfter? depth tokens := by
  induction h generalizing depth with
  | nil previous => rfl
  | @keep previous token rest folded hs h ih =>
    rw [depthAfter?_cons, depthAfter?_cons]
    exact congrArg _ (funext ih)
  | @number previous operand rest folded negated p hs hn h ih =>
    calc depthAfter? depth (⟨negated, p⟩ :: folded)
        = depthAfter? depth folded := by
          rw [depthAfter?_cons, Lexeme.depthBehind?_of_isNumber (Lexeme.text_of_negated? hn).2]
          rfl
      _ = depthAfter? depth (operand :: rest) := by
          rw [ih, depthAfter?_cons, Lexeme.depthBehind?_of_isNumber
            (Lexeme.isNumber_of_negated? hn)]
          rfl
  | factor p hs hp ho h ih =>
    rw [depthAfter?_cons, depthAfter?_cons]
    exact ih depth
  | @group operand rest first second folded behind p ho hs h hb ih ihb =>
    obtain ⟨more, hmore⟩ := exists_depthAfter?_of_splitOperand ho hs
    have hparts : first ++ second = operand :: rest := by
      simpa [hs] using splitOperand_append (operand :: rest)
    have hinside : depthAfter? (depth + 1) folded = some (depth + more + 1) := by
      rw [ih, depthAfter?_of_zero hmore]
      exact congrArg some (by omega)
    have houtside : depthAfter? depth first = some (depth + more) := by
      rw [depthAfter?_of_zero hmore, Nat.add_comm]
    calc depthAfter? depth (⟨.openBracket, p⟩ :: ⟨.negation, p⟩ :: folded ++
          ⟨.closeBracket, (folded.getLast?.map (·.position)).getD p⟩ :: behind)
        = (depthAfter? (depth + 1) folded).bind fun inside =>
            depthAfter? inside
              (⟨.closeBracket, (folded.getLast?.map (·.position)).getD p⟩ :: behind) :=
          depthAfter?_append (depth + 1) folded _
      _ = depthAfter? (depth + more) behind := by
          rw [hinside]
          rfl
      _ = (depthAfter? depth first).bind (depthAfter? · second) := by
          rw [houtside, ihb]
          rfl
      _ = depthAfter? depth (⟨.operator .subtract, p⟩ :: operand :: rest) := by
          rw [← depthAfter?_append, hparts]
          rfl

/-- Folding signs keeps tokens balanced, and others unbalanced. -/
theorem balanced_iff_of_foldNegation {previous : Option Lexeme} {tokens folded : List Token}
    (h : foldNegation previous tokens = .ok folded) :
    Token.Balanced folded ↔ Token.Balanced tokens := by
  rw [Token.Balanced, Token.Balanced, depthAfter?_of_folds (folds_of_foldNegation h)]

/-- Tokens start with none that a sign in front of them is folded into. -/
def Token.Inert (tokens : List Token) : Prop :=
  ∀ next ∈ tokens.head?, next.lexeme.negated? = none ∧ next.lexeme.takesSign = false

/-- Inert tokens do not start with an opening bracket. -/
theorem Token.Inert.head?_ne {tokens : List Token} (h : Inert tokens) :
    tokens.head?.map (·.lexeme) ≠ some .openBracket := by
  intro he
  obtain ⟨next, hn, hl⟩ := Option.map_eq_some_iff.mp he
  have htakes := (h next hn).2
  rw [hl] at htakes
  cases htakes

/-- The start of tokens is folded on its own, behind a lexeme and in front of what follows. -/
def FoldsApart (previous : Option Lexeme) (tokens : List Token) : Prop :=
  ∃ (start : Outcome (List Token)) (last : Lexeme) (gone rest : List Token),
    tokens = gone ++ rest ∧ gone ≠ [] ∧
    ∀ tail, Inert tail → foldNegation previous (tokens ++ tail) =
      start.bind fun front => (foldNegation (some last) (rest ++ tail)).map (front ++ ·)

/-- Tokens start with a sign behind a power sign, and its operand goes on behind them. -/
def FoldsOpenly (previous : Option Lexeme) (tokens : List Token) : Prop :=
  ∃ p operand front depth, tokens = ⟨.operator .subtract, p⟩ :: operand :: front ∧
    depthAfter? 0 (operand :: front) = some (depth + 1) ∧
    ∀ tail, foldNegation previous (tokens ++ tail) =
      (foldNegation (some .negation) (operand :: front ++ (splitGroup (depth + 1) tail).1)).bind
        fun folded =>
          (foldNegation (some .closeBracket) (splitGroup (depth + 1) tail).2).map fun behind =>
            ⟨.openBracket, p⟩ :: ⟨.negation, p⟩ :: folded ++
              ⟨.closeBracket, (folded.getLast?.map (·.position)).getD p⟩ :: behind

/-- A token that is kept is folded apart. -/
theorem foldsApart_of_stays {previous : Option Lexeme} {token : Token} {rest : List Token}
    (hs : ∀ tail, Inert tail → token.lexeme = .operator .subtract →
      StaysOperator previous (rest ++ tail)) : FoldsApart previous (token :: rest) :=
  ⟨.ok [token], token.lexeme, [token], rest, rfl, by simp,
    fun tail ht => foldNegation_of_stays (hs tail ht)⟩

/-- One step of folding signs: the start of the tokens is folded apart, or they start with a sign
whose operand goes on behind them. -/
theorem foldsApart_or_foldsOpenly (previous : Option Lexeme) (token : Token)
    (rest : List Token) :
    FoldsApart previous (token :: rest) ∨ FoldsOpenly previous (token :: rest) := by
  by_cases hsign : token.lexeme = .operator .subtract ∧ Lexeme.allowsSign previous = true
  swap
  · exact .inl (foldsApart_of_stays fun _ _ hs ha => absurd ⟨hs, ha⟩ hsign)
  obtain ⟨hs, ha⟩ := hsign
  obtain ⟨_, p⟩ := token
  obtain rfl := hs
  cases rest with
  | nil => exact .inl (foldsApart_of_stays fun tail ht _ _ => ht)
  | cons operand rest =>
    cases hn : operand.lexeme.negated? with
    | some negated =>
      refine .inl ⟨negated.map fun lexeme => [⟨lexeme, p⟩], .closeBracket, [_, operand], rest, rfl,
        by simp, fun tail _ => ?_⟩
      rw [List.cons_append, List.cons_append, foldNegation_number p _ ha hn]
      cases negated with
      | error failure => rfl
      | ok lexeme =>
        have hnumber : Lexeme.allowsSign (some lexeme) = false := by
          have := (Lexeme.text_of_negated? hn).2
          cases lexeme <;> first | rfl | cases this
        exact congrArg (Except.map _) (foldNegation_congr hnumber rfl _)
    | none =>
      cases ho : operand.lexeme.takesSign with
      | false =>
        refine .inl (foldsApart_of_stays fun tail _ _ _ next hnext => ?_)
        obtain rfl := Option.some.inj hnext
        exact ⟨hn, ho⟩
      | true =>
        by_cases hp : previous = some (.operator .power)
        · subst hp
          rcases splitOperand_cases ho rest with
            ⟨inner, outer, rfl, -, hsplit⟩ | ⟨depth, hd, hsplit⟩
          · refine .inl ⟨(foldNegation (some .negation) (operand :: inner)).map fun folded =>
              ⟨.openBracket, p⟩ :: ⟨.negation, p⟩ :: folded ++
                [⟨.closeBracket, (folded.getLast?.map (·.position)).getD p⟩],
              .closeBracket, _ :: operand :: inner, outer, rfl, by simp, fun tail ht => ?_⟩
            rw [List.cons_append, List.cons_append,
              foldNegation_group p _ ho (hsplit tail ht.head?_ne)]
            cases foldNegation (some .negation) (operand :: inner) with
            | error failure => rfl
            | ok folded =>
              simp only [Except.bind, Except.map, List.append_assoc, List.cons_append,
                List.nil_append]
          · refine .inr ⟨p, operand, rest, depth, rfl, hd, fun tail => ?_⟩
            rw [List.cons_append, List.cons_append, foldNegation_group p _ ho (hsplit tail)]
        · exact .inl ⟨.ok [⟨.negation, p⟩], .negation, [_], operand :: rest, rfl, by simp,
            fun tail _ => foldNegation_factor p _ ha hp ho⟩

/-- Behind tokens that close all brackets, a closing bracket keeps what follows apart: the operand
of a sign among them ends among them. -/
theorem foldNegation_append_closeBracket {tokens : List Token} {depth : Nat}
    (h : depthAfter? depth tokens = some 0) (previous : Option Lexeme) (p : Nat)
    (rest : List Token) :
    foldNegation previous (tokens ++ ⟨.closeBracket, p⟩ :: rest) =
      (foldNegation previous tokens).bind fun folded =>
        (foldNegation (some .closeBracket) rest).map fun behind =>
          folded ++ ⟨.closeBracket, p⟩ :: behind := by
  induction hn : tokens.length using Nat.strong_induction_on generalizing tokens depth previous with
  | _ n ih =>
  subst hn
  cases tokens with
  | nil =>
    rw [List.nil_append, foldNegation_keep rfl, foldNegation]
    rfl
  | cons token others =>
    have hnil : Inert [] := fun next hnext => by cases hnext
    have hclose : Inert (⟨.closeBracket, p⟩ :: rest) := by
      intro next hnext
      obtain rfl := Option.some.inj hnext
      exact ⟨rfl, rfl⟩
    rcases foldsApart_or_foldsOpenly previous token others with
      ⟨start, last, gone, behind, hg, hne, hfold⟩ | ⟨q, operand, front, more, hg, hd, -⟩
    · rw [hg, depthAfter?_append] at h
      obtain ⟨after, -, h⟩ := Option.bind_eq_some_iff.mp h
      have hlength : behind.length < (token :: others).length := by
        rw [hg, List.length_append]
        have := List.length_pos_iff.mpr hne
        omega
      have hwhole := hfold [] hnil
      rw [List.append_nil, List.append_nil] at hwhole
      rw [hfold _ hclose, ih behind.length hlength h (some last) rfl, hwhole]
      cases start with
      | error failure => rfl
      | ok folded =>
        cases foldNegation (some last) behind with
        | error failure => rfl
        | ok others =>
          cases foldNegation (some .closeBracket) rest with
          | error failure => rfl
          | ok behind => simp only [Except.bind, Except.map, List.append_assoc]
    · have hopen : depthAfter? depth (token :: others) = some (more + 1 + depth) := by
        rw [hg]
        exact depthAfter?_of_zero hd depth
      rw [hopen] at h
      exact absurd (Option.some.inj h) (by omega)

end UnitCalculator
