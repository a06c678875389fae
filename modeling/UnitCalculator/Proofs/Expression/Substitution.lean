import Mathlib.Logic.Function.Basic
import UnitCalculator.Proofs.Expression.Insertion

/-!
# Values in place of variables

A variable stands for its value: where a text reads the variable, the value can be put as a number
in brackets. Folding signs and inserting implied operators treat the two alike, since a bracketed
number starts and ends an operand as a variable does, takes a sign as a factor like it, and is split
off as a whole.
-/

namespace UnitCalculator

/-- A value in place of a variable, with the text of the number. -/
structure Replacement where
  name : String
  text : String
  value : Quantity

namespace Replacement

variable (r : Replacement)

/-- The number that is put in place of the variable. -/
def number : Lexeme := .number r.text r.value

/-- A token, or the number in brackets if it is the variable. -/
def token (token : Token) : List Token :=
  if token.lexeme = .reference r.name then
    [⟨.openBracket, token.position⟩, ⟨r.number, token.position⟩, ⟨.closeBracket, token.position⟩]
  else [token]

/-- Tokens with the number in brackets in place of the variable. -/
def tokens (tokens : List Token) : List Token := tokens.flatMap r.token

/-- A tree with the number in place of the variable. -/
def tree : Tree → Tree
  | .leaf token =>
    .leaf (if token.lexeme = .reference r.name then ⟨r.number, token.position⟩ else token)
  | .call function position operand => .call function position (tree operand)
  | .binary op position left right => .binary op position (tree left) (tree right)

/-- No function stands directly before the variable. -/
def Apart (tokens : List Token) : Prop :=
  tokens.IsChain fun a b => ∀ name, a.lexeme = .function name → b.lexeme ≠ .reference r.name

/-- With the number in place of the variable a tree has the value that it has when the variable is
bound to it. -/
theorem evaluate_tree (bindings : Bindings) (t : Tree) :
    (r.tree t).evaluate bindings =
      t.evaluate (Function.update bindings r.name (some r.value)) := by
  induction t with
  | leaf token =>
    rcases token with ⟨lexeme, p⟩
    by_cases hr : lexeme = .reference r.name
    · subst hr
      simp [tree, Tree.evaluate, Lexeme.evaluate, number, Lexeme.value?]
    · cases lexeme with
      | reference name =>
        have hne : name ≠ r.name := fun he => hr (congrArg Lexeme.reference he)
        simp [tree, Tree.evaluate, Lexeme.evaluate, hne]
      | _ => rfl
  | call function p operand ih => rw [tree, Tree.evaluate, ih, Tree.evaluate]
  | binary op p left right ihl ihr => rw [tree, Tree.evaluate, ihl, ihr, Tree.evaluate]

section Tokens

variable {r}

/-- Another token stays as it is. -/
theorem tokens_cons_of_ne {token : Token} (h : token.lexeme ≠ .reference r.name)
    (rest : List Token) : r.tokens (token :: rest) = token :: r.tokens rest := by
  rw [tokens, List.flatMap_cons, Replacement.token, if_neg h, List.singleton_append, ← tokens]

/-- The variable gives way to the number in brackets. -/
theorem tokens_cons_reference (p : Nat) (rest : List Token) :
    r.tokens (⟨.reference r.name, p⟩ :: rest) =
      ⟨.openBracket, p⟩ :: ⟨r.number, p⟩ :: ⟨.closeBracket, p⟩ :: r.tokens rest := by
  rw [tokens, List.flatMap_cons, Replacement.token, if_pos rfl, ← tokens]
  rfl

/-- The variable is replaced part by part. -/
theorem tokens_append (first second : List Token) :
    r.tokens (first ++ second) = r.tokens first ++ r.tokens second := List.flatMap_append

/-- The last token stays where it is. -/
theorem getLast?_tokens (tokens : List Token) :
    (r.tokens tokens).getLast?.map (·.position) = tokens.getLast?.map (·.position) := by
  rcases List.eq_nil_or_concat tokens with rfl | ⟨front, last, rfl⟩
  · rfl
  · rw [List.concat_eq_append, tokens_append, List.getLast?_append, List.getLast?_concat]
    rcases last with ⟨lexeme, p⟩
    by_cases hr : lexeme = .reference r.name
    · subst hr
      rw [tokens_cons_reference]
      rfl
    · rw [tokens_cons_of_ne hr]
      rfl

/-- The variable is replaced on both sides of the bracket that closes a group. -/
theorem splitGroup_tokens {depth : Nat} (hd : 0 < depth) (tokens : List Token) :
    Token.splitGroup depth (r.tokens tokens) =
      (r.tokens (Token.splitGroup depth tokens).1, r.tokens (Token.splitGroup depth tokens).2) := by
  induction tokens generalizing depth with
  | nil => rfl
  | cons token rest ih =>
    rcases token with ⟨lexeme, p⟩
    by_cases hr : lexeme = .reference r.name
    · subst hr
      have hinner : ¬ depth + 1 ≤ 1 := by omega
      rw [tokens_cons_reference]
      simp only [Token.splitGroup, number, if_neg hinner, Nat.add_sub_cancel, ih hd,
        Token.joinFirst, tokens_cons_reference]
    · have hcons : ∀ behind, r.tokens (⟨lexeme, p⟩ :: behind) = ⟨lexeme, p⟩ :: r.tokens behind :=
        tokens_cons_of_ne hr
      rw [hcons]
      cases lexeme with
      | openBracket =>
        simp only [Token.splitGroup, ih (Nat.succ_pos depth), Token.joinFirst, hcons]
      | closeBracket =>
        by_cases hone : depth ≤ 1
        · simp only [Token.splitGroup, if_pos hone, hcons]
          rfl
        · have hless : 0 < depth - 1 := by omega
          simp only [Token.splitGroup, if_neg hone, ih hless, Token.joinFirst, hcons]
      | _ => simp only [Token.splitGroup, ih hd, Token.joinFirst, hcons]

variable (r) in
/-- The variable is replaced on both sides of a group. -/
theorem splitGroup_openBracket (p : Nat) (rest : List Token) :
    Token.splitGroup 0 (r.tokens (⟨.openBracket, p⟩ :: rest)) =
      (r.tokens (Token.splitGroup 0 (⟨.openBracket, p⟩ :: rest)).1,
        r.tokens (Token.splitGroup 0 (⟨.openBracket, p⟩ :: rest)).2) := by
  have hcons : ∀ behind, r.tokens (⟨.openBracket, p⟩ :: behind) =
      ⟨.openBracket, p⟩ :: r.tokens behind := tokens_cons_of_ne (by simp)
  simp only [hcons, Token.splitGroup, Nat.zero_add, splitGroup_tokens Nat.one_pos,
    Token.joinFirst]

/-- The variable is replaced in an operand and behind it. -/
theorem splitOperand_tokens {tokens : List Token} (ha : r.Apart tokens) :
    Token.splitOperand (r.tokens tokens) =
      (r.tokens (Token.splitOperand tokens).1, r.tokens (Token.splitOperand tokens).2) := by
  rcases tokens with _ | ⟨⟨lexeme, p⟩, rest⟩
  · rfl
  by_cases hr : lexeme = .reference r.name
  · subst hr
    simp only [tokens_cons_reference, Token.splitOperand, Token.splitGroup, number,
      Token.joinFirst]
    rfl
  · have hcons : ∀ behind, r.tokens (⟨lexeme, p⟩ :: behind) = ⟨lexeme, p⟩ :: r.tokens behind :=
      tokens_cons_of_ne hr
    cases lexeme with
    | openBracket => exact splitGroup_openBracket r p rest
    | function name =>
      rw [hcons]
      rcases rest with _ | ⟨⟨next, q⟩, rest⟩
      · rfl
      · have hnext : next ≠ .reference r.name := (List.isChain_cons_cons.mp ha).1 name rfl
        rw [tokens_cons_of_ne hnext]
        by_cases ho : next = .openBracket
        · subst ho
          have hgroup := splitGroup_openBracket r q rest
          rw [tokens_cons_of_ne hnext] at hgroup
          simp only [Token.splitOperand, if_true, hgroup, Token.joinFirst, hcons]
        · simp only [Token.splitOperand, if_neg ho, hcons]
          rw [tokens_cons_of_ne hnext]
          rfl
    | _ =>
      rw [hcons]
      simp only [Token.splitOperand, hcons]
      rfl

end Tokens

end Replacement

/-- What starts an operand is kept, and multiplied with an operand that ends before it. -/
theorem insertImplied_operand (previous : Option Lexeme) {token : Token}
    (h : token.lexeme.startsOperand = true) (rest : List Token) :
    insertImplied previous (token :: rest) =
      if (previous.map Lexeme.endsOperand).getD false then
        .ofOperator .impliedMultiply token.position :: token ::
          insertImplied (some token.lexeme) rest
      else token :: insertImplied (some token.lexeme) rest := by
  have hbound : bindUnits previous token rest = token := by
    rcases bindUnits_cases previous token rest with hb | ⟨hd, -⟩
    · exact hb
    · rw [hd] at h
      cases h
  rw [insertImplied, hbound, h, Bool.and_true]

/-- What comes first once operators are inserted comes first before, unless it is one of them. -/
theorem insertImplied_eq_cons {previous : Option Lexeme} {tokens behind : List Token}
    {first : Token} (h : insertImplied previous tokens = first :: behind)
    (hp : first.lexeme ≠ .operator .impliedMultiply)
    (hq : first.lexeme ≠ .operator .impliedDivide) :
    ∃ rest, tokens = first :: rest ∧ behind = insertImplied (some first.lexeme) rest := by
  cases tokens with
  | nil => cases h
  | cons token rest =>
    rw [insertImplied] at h
    split at h
    · exact absurd (congrArg Token.lexeme (List.cons.inj h).1).symm hp
    · obtain ⟨rfl, rfl⟩ := List.cons.inj h
      rcases bindUnits_cases previous token rest with hb | ⟨-, hb, -⟩
      · rw [hb]
        exact ⟨rest, rfl, rfl⟩
      · exact absurd (congrArg Token.lexeme hb) hq

namespace Replacement

variable {r : Replacement}

/-- Behind the number in brackets signs are folded as behind the variable. -/
theorem foldNegation_reference (previous : Option Lexeme) (p : Nat) {rest : List Token}
    (h : foldNegation (some (.reference r.name)) (r.tokens rest) =
      (foldNegation (some (.reference r.name)) rest).map r.tokens) :
    foldNegation previous (r.tokens (⟨.reference r.name, p⟩ :: rest)) =
      (foldNegation previous (⟨.reference r.name, p⟩ :: rest)).map r.tokens := by
  have hbehind : foldNegation (some .closeBracket) (r.tokens rest) =
      foldNegation (some (.reference r.name)) (r.tokens rest) :=
    foldNegation_congr rfl rfl _
  rw [tokens_cons_reference, foldNegation_keep rfl, foldNegation_keep rfl, foldNegation_keep rfl,
    foldNegation_keep rfl, hbehind, h]
  cases foldNegation (some (.reference r.name)) rest with
  | error failure => rfl
  | ok folded => exact congrArg Except.ok (tokens_cons_reference p folded).symm

/-- The variable is replaced inside and behind the brackets around a factor and its operand. -/
theorem tokens_group (p : Nat) (inner outer : List Token) :
    r.tokens (⟨.openBracket, p⟩ :: ⟨.negation, p⟩ :: inner ++
        ⟨.closeBracket, (inner.getLast?.map (·.position)).getD p⟩ :: outer) =
      ⟨.openBracket, p⟩ :: ⟨.negation, p⟩ :: r.tokens inner ++
        ⟨.closeBracket, ((r.tokens inner).getLast?.map (·.position)).getD p⟩ ::
          r.tokens outer := by
  rw [getLast?_tokens, List.cons_append, List.cons_append, tokens_cons_of_ne (by simp),
    tokens_cons_of_ne (by simp [Lexeme.negation]), tokens_append, tokens_cons_of_ne (by simp)]
  rfl

variable (r) in
/-- An operand that takes a sign as a factor still starts with such a token. -/
theorem exists_tokens_cons {operand : Token} (hn : operand.lexeme.negated? = none)
    (ho : operand.lexeme.takesSign = true) (rest : List Token) :
    ∃ first behind, r.tokens (operand :: rest) = first :: behind ∧
      first.lexeme.negated? = none ∧ first.lexeme.takesSign = true := by
  rcases operand with ⟨lexeme, p⟩
  by_cases hr : lexeme = .reference r.name
  · subst hr
    exact ⟨_, _, tokens_cons_reference p rest, rfl, rfl⟩
  · exact ⟨_, _, tokens_cons_of_ne hr rest, hn, ho⟩

/-- Folding signs commutes with replacing the variable. -/
theorem foldNegation_tokens {tokens : List Token} (ha : r.Apart tokens)
    (previous : Option Lexeme) :
    foldNegation previous (r.tokens tokens) = (foldNegation previous tokens).map r.tokens := by
  fun_induction foldNegation previous tokens with
  | case1 previous =>
    change foldNegation previous [] = _
    rw [foldNegation]
    rfl
  | case2 previous token hs =>
    have hsign := Token.eq_of_isOperator ((Bool.and_eq_true _ _).mp hs).1
    have hsingle : r.tokens [token] = [token] := by
      rw [tokens_cons_of_ne (by rw [hsign]; simp)]
      rfl
    rw [hsingle, foldNegation, if_pos hs]
    exact congrArg Except.ok hsingle.symm
  | case3 previous token hs operand rest negated hn ih =>
    have hsign := Token.eq_of_isOperator ((Bool.and_eq_true _ _).mp hs).1
    have hone : r.tokens (token :: operand :: rest) = token :: operand :: r.tokens rest := by
      rw [tokens_cons_of_ne (by rw [hsign]; simp), tokens_cons_of_ne]
      intro hr
      rw [hr] at hn
      cases hn
    rw [hone, foldNegation]
    simp only [hs, if_true, hn]
    cases negated with
    | error failure => rfl
    | ok lexeme =>
      have hne : lexeme ≠ .reference r.name := by
        rintro rfl
        cases (Lexeme.text_of_negated? hn).2
      have hrest := ih lexeme (List.IsChain.tail (List.IsChain.tail ha))
      simp only [bind, Except.bind, hrest]
      cases foldNegation (some lexeme) rest with
      | error failure => rfl
      | ok folded => exact congrArg Except.ok (tokens_cons_of_ne hne folded).symm
  | case4 token operand rest hn ho parts hs ih =>
    rename_i ihb
    have hsign := Token.eq_of_isOperator ((Bool.and_eq_true _ _).mp hs).1
    have hafter : r.Apart (operand :: rest) := List.IsChain.tail ha
    have hparts := Token.splitOperand_append (operand :: rest)
    have hfirst := ih (hparts ▸ hafter).left_of_append
    have hsecond := ihb (hparts ▸ hafter).right_of_append
    obtain ⟨first, behind, hcons, hnegated, htakes⟩ := exists_tokens_cons r hn ho rest
    have hsplit : Token.splitOperand (r.tokens (operand :: rest)) =
        (r.tokens parts.1, r.tokens parts.2) := splitOperand_tokens hafter
    rw [tokens_cons_of_ne (by rw [hsign]; simp), hcons, foldNegation]
    simp only [hs, if_true, hnegated, htakes, ← hcons, hsplit, hfirst, hsecond]
    cases foldNegation (some .negation) parts.1 with
    | error failure => rfl
    | ok inner =>
      cases foldNegation (some .closeBracket) parts.2 with
      | error failure => rfl
      | ok outer => exact congrArg Except.ok (tokens_group token.position inner outer).symm
  | case5 previous token hs operand rest hn ho hp ih =>
    have hsign := Token.eq_of_isOperator ((Bool.and_eq_true _ _).mp hs).1
    have hrest := ih (List.IsChain.tail ha)
    obtain ⟨first, behind, hcons, hnegated, htakes⟩ := exists_tokens_cons r hn ho rest
    rw [tokens_cons_of_ne (by rw [hsign]; simp), hcons, foldNegation]
    simp only [hs, if_true, hnegated, htakes, if_neg hp, ← hcons, hrest, bind, Except.bind]
    cases foldNegation (some .negation) (operand :: rest) with
    | error failure => rfl
    | ok folded =>
      exact congrArg Except.ok (tokens_cons_of_ne (by simp [Lexeme.negation]) folded).symm
  | case6 previous token hs operand rest hn ho ih =>
    have hsign := Token.eq_of_isOperator ((Bool.and_eq_true _ _).mp hs).1
    have hrest := ih (List.IsChain.tail ha)
    have hne : operand.lexeme ≠ .reference r.name := by
      intro hr
      rw [hr] at ho
      exact ho rfl
    rw [tokens_cons_of_ne (by rw [hsign]; simp), tokens_cons_of_ne hne, foldNegation]
    simp only [hs, if_true, hn, if_neg ho, ← tokens_cons_of_ne hne, hrest, bind, Except.bind]
    cases foldNegation (some token.lexeme) (operand :: rest) with
    | error failure => rfl
    | ok folded =>
      exact congrArg Except.ok (tokens_cons_of_ne (by rw [hsign]; simp) folded).symm
  | case7 previous token rest hs ih =>
    replace hs := Bool.eq_false_iff.mpr hs
    have hrest := ih (List.IsChain.tail ha)
    rcases token with ⟨lexeme, p⟩
    by_cases hr : lexeme = .reference r.name
    · subst hr
      have hfold := foldNegation_reference previous p hrest
      rw [foldNegation_keep rfl] at hfold
      rw [hfold]
      cases foldNegation (some (.reference r.name)) rest <;> rfl
    · rw [tokens_cons_of_ne hr, foldNegation_keep hs, hrest]
      cases foldNegation (some lexeme) rest with
      | error failure => rfl
      | ok folded => exact congrArg Except.ok (tokens_cons_of_ne hr folded).symm

/-- The number in brackets starts with no unit, as the variable does. -/
theorem isUnit_head?_tokens (tokens : List Token) :
    (r.tokens tokens).head?.map (·.lexeme.isUnit) = tokens.head?.map (·.lexeme.isUnit) := by
  rcases tokens with _ | ⟨⟨lexeme, p⟩, rest⟩
  · rfl
  · by_cases hr : lexeme = .reference r.name
    · subst hr
      rw [tokens_cons_reference]
      rfl
    · rw [tokens_cons_of_ne hr]
      rfl

/-- Behind the number in brackets the same operators are implied as behind the variable. -/
theorem insertImplied_closeBracket (name : String) (tokens : List Token) :
    insertImplied (some .closeBracket) tokens = insertImplied (some (.reference name)) tokens := by
  cases tokens with
  | nil => rfl
  | cons token rest => rfl

/-- A quotient sign is marked as before. -/
theorem bindUnits_tokens (previous : Option Lexeme) (token : Token) (rest : List Token) :
    bindUnits previous token (r.tokens rest) = bindUnits previous token rest := by
  rw [bindUnits, isUnit_head?_tokens, ← bindUnits]

/-- Inserting implied operators commutes with replacing the variable. -/
theorem insertImplied_tokens (previous : Option Lexeme) (tokens : List Token) :
    insertImplied previous (r.tokens tokens) = r.tokens (insertImplied previous tokens) := by
  induction tokens generalizing previous with
  | nil => rfl
  | cons token rest ih =>
    rcases token with ⟨lexeme, p⟩
    have hproduct : ∀ behind, r.tokens (.ofOperator .impliedMultiply p :: behind) =
        .ofOperator .impliedMultiply p :: r.tokens behind :=
      tokens_cons_of_ne (by simp [Token.ofOperator])
    by_cases hr : lexeme = .reference r.name
    · subst hr
      have hvalue : insertImplied (some .openBracket)
          (⟨r.number, p⟩ :: ⟨.closeBracket, p⟩ :: r.tokens rest) =
          ⟨r.number, p⟩ :: ⟨.closeBracket, p⟩ ::
            r.tokens (insertImplied (some (.reference r.name)) rest) := by
        rw [← ih, ← insertImplied_closeBracket]
        rfl
      have hrest : r.tokens (⟨.reference r.name, p⟩ ::
          insertImplied (some (.reference r.name)) rest) = ⟨.openBracket, p⟩ ::
            insertImplied (some .openBracket)
              (⟨r.number, p⟩ :: ⟨.closeBracket, p⟩ :: r.tokens rest) := by
        rw [hvalue, tokens_cons_reference]
      have hopen : Lexeme.startsOperand (Token.lexeme ⟨.openBracket, p⟩) = true := rfl
      have hread : Lexeme.startsOperand (Token.lexeme ⟨.reference r.name, p⟩) = true := rfl
      rw [tokens_cons_reference, insertImplied_operand previous hopen,
        insertImplied_operand previous hread]
      cases (previous.map Lexeme.endsOperand).getD false with
      | false => exact hrest.symm
      | true =>
        rw [if_pos rfl, if_pos rfl, hproduct, hrest]
    · have hne : (bindUnits previous ⟨lexeme, p⟩ rest).lexeme ≠ .reference r.name := by
        rcases bindUnits_cases previous ⟨lexeme, p⟩ rest with hb | ⟨-, hb, -⟩
        · rw [hb]
          exact hr
        · simp [hb]
      rw [tokens_cons_of_ne hr, insertImplied, bindUnits_tokens, ih, insertImplied]
      split
      · rw [hproduct, tokens_cons_of_ne hne]
      · rw [tokens_cons_of_ne hne]

/-- What is no function may stand before the variable. -/
theorem Apart.cons {token : Token} {tokens : List Token} (ha : r.Apart tokens)
    (h : ∀ name, token.lexeme ≠ .function name) : r.Apart (token :: tokens) :=
  List.isChain_cons.mpr ⟨fun _ _ name hf => absurd hf (h name), ha⟩

/-- No function is scanned directly before the variable. -/
theorem apart_of_scan {catalogue : Catalogue} {known : List String} {source : String}
    {position : Nat} {text : List Char} {tokens : List Token}
    (h : Scanner.scan catalogue known source position text = .ok tokens) : r.Apart tokens :=
  (Scanner.isChain_of_scan h).imp fun _ _ hopen name hf hr => by
    cases (hopen name hf).symm.trans hr

/-- Inserted operators leave no function directly before the variable. -/
theorem apart_of_insertImplied {tokens : List Token} (ha : r.Apart tokens)
    (previous : Option Lexeme) : r.Apart (insertImplied previous tokens) := by
  induction tokens generalizing previous with
  | nil => exact .nil
  | cons token rest ih =>
    obtain ⟨hnext, hrest⟩ := List.isChain_cons.mp ha
    have hbound : r.Apart (bindUnits previous token rest ::
        insertImplied (some (bindUnits previous token rest).lexeme) rest) := by
      refine List.isChain_cons.mpr ⟨fun next hn name hf hr => ?_, ih hrest _⟩
      rcases bindUnits_cases previous token rest with hb | ⟨-, hb, -⟩
      · obtain ⟨behind, hcons⟩ := List.head?_eq_some_iff.mp hn
        obtain ⟨others, rfl, -⟩ := insertImplied_eq_cons hcons (by simp [hr]) (by simp [hr])
        exact hnext next rfl name (hb ▸ hf) hr
      · rw [hb] at hf
        cases hf
    rw [insertImplied]
    split
    · exact hbound.cons (by simp [Token.ofOperator])
    · exact hbound

/-- Folded signs leave no function directly before the variable. -/
theorem apart_of_folds {previous : Option Lexeme} {tokens folded : List Token}
    (h : Folds previous tokens folded) (ha : r.Apart tokens) : r.Apart folded := by
  induction h with
  | nil => exact .nil
  | @keep previous token rest folded hs h ih =>
    obtain ⟨hnext, hrest⟩ := List.isChain_cons.mp ha
    refine List.isChain_cons.mpr ⟨fun next hn name hf => ?_, ih hrest⟩
    -- Behind a function no sign is folded.
    rw [hf] at h
    cases h with
    | nil => cases hn
    | keep => exact hnext next hn name hf
    | number p hallows => cases hallows
    | factor p hallows => cases hallows
  | @number previous operand rest folded negated p hs hn h ih =>
    refine (ih (.tail (.tail ha))).cons fun name hf => ?_
    obtain rfl : negated = .function name := hf
    cases (Lexeme.text_of_negated? hn).2
  | factor p hs hp ho h ih => exact (ih (.tail ha)).cons (by simp [Lexeme.negation])
  | @group operand rest first second folded behind p ho hs h hb ih ihb =>
    have hparts : first ++ second = operand :: rest := by
      simpa [hs] using Token.splitOperand_append (operand :: rest)
    have hafter : r.Apart (first ++ second) := hparts ▸ List.IsChain.tail ha
    have hinner : r.Apart (⟨.negation, p⟩ :: folded) :=
      (ih hafter.left_of_append).cons (by simp [Lexeme.negation])
    have houter : r.Apart
        (⟨.closeBracket, (folded.getLast?.map (·.position)).getD p⟩ :: behind) :=
      (ihb hafter.right_of_append).cons (by simp)
    have happend := List.isChain_append.mpr ⟨hinner, houter, fun last _ next hn name _ hr => by
      obtain rfl := Option.some.inj hn
      cases hr⟩
    exact Apart.cons happend (by simp)

end Replacement

end UnitCalculator
