import UnitCalculator.Proofs.Expression.Marking
import UnitCalculator.Proofs.Expression.Rereading
import UnitCalculator.Proofs.Expression.Signs

/-!
# Signs that stand apart

Where the text of a tree is read as a tree alike, all of its signs are folded and no factor that
stands for one is lost. Counting shows that signs stand apart then.
-/

namespace UnitCalculator

/-- Marks one lexeme. -/
def Lexeme.only (target lexeme : Lexeme) : Option Unit := if lexeme = target then some () else none

/-- There are as many marks as lexemes of a kind. -/
theorem Token.length_marks_only (target : Lexeme) (tokens : List Token) :
    (marks (Lexeme.only target) tokens).length = (tokens.map (·.lexeme)).count target := by
  induction tokens with
  | nil => rfl
  | cons token rest ih =>
    rw [marks_cons, List.length_append, ih, List.map_cons, List.count_cons, Lexeme.only,
      Nat.add_comm]
    by_cases he : token.lexeme = target
    · simp [he]
    · simp [he]

namespace Tree

/-- Number of lexemes of a tree that are a given one. -/
def count (target : Lexeme) (tree : Tree) : Nat := (tree.tokens.map (·.lexeme)).count target

/-- The factor that stands for a sign. -/
def isFactor : Tree → Bool
  | .leaf token => token.lexeme = .negation
  | _ => false

/-- A number of which the sign can be changed. -/
def isNegatable : Tree → Bool
  | .leaf token =>
    match token.lexeme.negated? with
    | some negated => negated.toOption.isSome
    | none => false
  | _ => false

/-- Number of factors that stand for signs, if these belong to no number. -/
def factors : Tree → Nat
  | .leaf _ => 0
  | .call _ _ operand => operand.factors
  | .binary op _ left right => left.factors + right.factors +
    (op = .impliedMultiply && left.isFactor && !right.isNegatable).toNat

/-- No product has a number with a sign behind it. -/
def productsUnsigned (op : Operator) (_ right : Tree) : Bool :=
  op ≠ .impliedMultiply || !(rightFirst op right).isSigned

variable {tree other left right : Tree} {op : Operator} {target : Lexeme}

/-- The lexemes of an operation are those of its operands and its operator. -/
theorem count_binary (target : Lexeme) (op : Operator) (p : Nat) (left right : Tree) :
    (Tree.binary op p left right).count target =
      left.count target + right.count target + (.operator op = target : Bool).toNat := by
  simp only [count, tokens, List.map_append, List.map_cons, List.count_append, List.count_cons]
  by_cases he : Lexeme.operator op = target
  · simp [he, Nat.add_assoc]
  · simp [he]

/-- A tree that folded and completed tokens spell has as many minus signs and factors that stand
for signs as the folded tokens. -/
theorem count_of_spells {previous : Option Lexeme} {strength : Nat} {folded : List Token}
    (h : Grammar.Spells strength (insertImplied previous folded) tree)
    (ht : target = .operator .subtract ∨ target = .negation) :
    tree.count target = (folded.map (·.lexeme)).count target := by
  have hmarks : tree.marks (Lexeme.only target) = Token.marks (Lexeme.only target) folded := by
    rcases ht with rfl | rfl
    · exact (h.marks_eq rfl rfl).trans (marks_insertImplied rfl rfl previous folded)
    · exact (h.marks_eq rfl rfl).trans (marks_insertImplied rfl rfl previous folded)
  rw [count, ← Token.length_marks_only, ← Token.length_marks_only, ← hmarks, marks]

/-- Trees that are alike have as many minus signs. -/
theorem Alike.count_sign (h : tree.Alike other) :
    other.count (.operator .subtract) = tree.count (.operator .subtract) := by
  induction h with
  | leaf lexeme p q => rfl
  | @sign number negated p q r s h =>
    have hstart := (Lexeme.startsOperand_of_isNumber (Lexeme.isNumber_of_negated? h)).1
    have hstart' := (Lexeme.startsOperand_of_isNumber (Lexeme.text_of_negated? h).2).1
    have hne := Lexeme.ne_sign_of_startsOperand hstart
    have hne' := Lexeme.ne_sign_of_startsOperand hstart'
    rw [count_binary]
    simp [count, tokens, hne, hne', Lexeme.negation]
  | call name p q h ih => simpa [count, tokens, List.count_cons] using ih
  | binary p q hop hl hr ihl ihr => rw [count_binary, count_binary, ihl, ihr]
  | quotient p q hl hr ihl ihr =>
    rw [count_binary, count_binary, ihl, ihr]
    rfl
  | assignment name p q p' q' h ih =>
    rw [count_binary, count_binary, ih]
    rfl

/-- Factors that belong to no number are still there in a tree alike. -/
theorem Alike.factors_le (h : tree.Alike other) : tree.factors ≤ other.count .negation := by
  induction h with
  | leaf lexeme p q => exact Nat.zero_le _
  | @sign number negated p q r s h => simp [factors, isNegatable, h, Except.toOption]
  | call name p q h ih =>
    simpa [factors, count, tokens, List.count_cons, Lexeme.negation] using ih
  | @binary op p q left right left' right' hop hl hr ihl ihr =>
    rw [factors, count_binary]
    have hfactor : left.factors + left.isFactor.toNat ≤ left'.count .negation := by
      cases hl with
      | leaf lexeme p q =>
        simp only [factors, isFactor, count, tokens, List.map_cons, List.map_nil]
        by_cases he : lexeme = .negation
        · simp [he]
        · simp [he]
      | _ => simpa [isFactor] using ihl
    have hle : (op = .impliedMultiply && left.isFactor && !right.isNegatable).toNat ≤
        left.isFactor.toNat := by
      cases left.isFactor <;> simp [Bool.toNat_le]
    omega
  | quotient p q hl hr ihl ihr =>
    rw [factors, count_binary]
    simp
    omega
  | assignment name p q p' q' h ih =>
    rw [factors, count_binary]
    simp [factors]
    omega

variable {catalogue : Catalogue} {known : List String} {native : Lexeme → Prop}
variable {kind : Lexeme → Bool} {lexemes first second : List Lexeme} {behind needed : Bool}

/-- Brackets end an operand, too. -/
theorem getLast?_bracketedLexemes (needed : Bool)
    (h : ∃ last ∈ lexemes.getLast?, last.endsOperand = true) :
    ∃ last ∈ (bracketedLexemes needed lexemes).getLast?, last.endsOperand = true := by
  cases needed with
  | false => exact h
  | true => exact ⟨.closeBracket, by simp [bracketedLexemes, List.getLast?_cons], rfl⟩

/-- The lexemes of a tree end an operand. -/
theorem WrittenAs.getLast?_endsOperand (h : tree.WrittenAs native lexemes) :
    ∃ last ∈ lexemes.getLast?, last.endsOperand = true := by
  have happend : ∀ {first second : List Lexeme},
      (∃ last ∈ second.getLast?, last.endsOperand = true) →
      ∃ last ∈ (first ++ second).getLast?, last.endsOperand = true := by
    rintro first second ⟨last, hl, he⟩
    exact ⟨last, by rw [List.getLast?_append, hl]; rfl, he⟩
  induction h with
  | @leaf lexeme p hs h => exact ⟨lexeme, rfl, (Lexeme.of_isSingle hs).2.2⟩
  | @signed number negated p h hneg =>
    exact ⟨number, rfl,
      (Lexeme.startsOperand_of_isNumber (Lexeme.isNumber_of_negated? hneg)).2⟩
  | call p hn h ih => exact ⟨.closeBracket, by simp [List.getLast?_cons], rfl⟩
  | negation p q h ih =>
    rw [← List.singleton_append]
    exact happend (getLast?_bracketedLexemes _ ih)
  | binary p hop hl hr hu ihl ihr => exact happend (getLast?_bracketedLexemes _ ihr)

/-- Signs in brackets are counted like signs behind no operand. -/
theorem signs_bracketedLexemes (h : ∃ last ∈ lexemes.getLast?, last.endsOperand = true) :
    signs kind behind (bracketedLexemes needed lexemes) =
      signs kind (behind && !needed) lexemes := by
  cases needed with
  | false => simp [bracketedLexemes]
  | true =>
    have hinner : signs kind false (lexemes ++ [.closeBracket]) = signs kind false lexemes := by
      rw [signs_append h]
      rfl
    rw [bracketedLexemes, if_pos rfl, List.cons_append, signs, Bool.not_true, Bool.and_false]
    exact (Nat.zero_add _).trans hinner

/-- Brackets are no minus signs. -/
theorem count_bracketedLexemes (needed : Bool) (lexemes : List Lexeme) :
    (bracketedLexemes needed lexemes).count (.operator .subtract) =
      lexemes.count (.operator .subtract) := by
  cases needed with
  | false => rfl
  | true => simp [bracketedLexemes]

/-- The signs of an operation are those of its operands; behind an implied product they stand behind
an operand. -/
theorem signs_operation (op : Operator) (h : ∃ last ∈ first.getLast?, last.endsOperand = true) :
    signs kind behind (first ++ op.written ++ second) =
      signs kind behind first + signs kind (op = .impliedMultiply) second := by
  rw [List.append_assoc, signs_append h]
  cases op <;> simp [Operator.written, signs, Lexeme.endsOperand]

/-- The minus signs of an operation are those of its operands and the operator itself. -/
theorem count_operation (op : Operator) (first second : List Lexeme) :
    (first ++ op.written ++ second).count (.operator .subtract) =
      first.count (.operator .subtract) + second.count (.operator .subtract) +
        (Lexeme.operator op = .operator .subtract : Bool).toNat := by
  rw [List.count_append, List.count_append]
  cases op <;> simp [Operator.written, Nat.add_right_comm]

/-- The signs behind a function are those of its operand. -/
theorem signs_call (name : String) (h : ∃ last ∈ lexemes.getLast?, last.endsOperand = true) :
    signs kind behind (.function name :: .openBracket :: lexemes ++ [.closeBracket]) =
      signs kind false lexemes := by
  have hgroup : signs kind false (bracketedLexemes true lexemes) =
      signs kind (false && !true) lexemes := signs_bracketedLexemes h
  rw [Bool.false_and] at hgroup
  exact (Nat.zero_add _).trans hgroup

/-- A bracket has no sign, nor has a lexeme that has none. -/
theorem isSigned_ite_bracket {lexeme : Lexeme}
    (h : (behind && !needed) = true → lexeme.isSigned = false) (hb : behind = true) :
    (if needed then .openBracket else lexeme : Lexeme).isSigned = false := by
  cases needed with
  | true => rfl
  | false => exact h (by rw [hb]; rfl)

/-- The sign of a factor is counted if no operand stands before it and its operand starts with a
lexeme of the kind. -/
theorem WrittenAs.signs_negation (h : tree.WrittenAs native lexemes)
    (hn : ∀ lexeme, native lexeme → lexeme.Native catalogue known) :
    signs kind behind (.operator .subtract ::
        bracketedLexemes (rightNeedsBrackets .impliedMultiply tree) lexemes) =
      (!behind && kind (leading (rightFirst .impliedMultiply tree))).toNat +
        signs kind false lexemes := by
  have hinner : signs kind false
      (bracketedLexemes (rightNeedsBrackets .impliedMultiply tree) lexemes) =
      signs kind (false && _) lexemes := signs_bracketedLexemes h.getLast?_endsOperand
  have hhead := head?_bracketedLexemes (rightNeedsBrackets .impliedMultiply tree) (h.head?_eq hn)
  have hends : (Lexeme.operator .subtract).endsOperand = false := rfl
  rw [signs, hends, hinner, hhead]
  simp [rightFirst]

/-- The signs of an operation are those of its operands without their brackets. -/
theorem WrittenAs.signs_binary (hl : left.WrittenAs native first)
    (hr : right.WrittenAs native second) (op : Operator) :
    signs kind behind (bracketedLexemes (leftNeedsBrackets op left) first ++ op.written ++
        bracketedLexemes (rightNeedsBrackets op right) second) =
      signs kind (behind && !leftNeedsBrackets op left) first +
        signs kind (op = .impliedMultiply && !rightNeedsBrackets op right) second := by
  rw [signs_operation op (getLast?_bracketedLexemes _ hl.getLast?_endsOperand),
    signs_bracketedLexemes hl.getLast?_endsOperand, signs_bracketedLexemes hr.getLast?_endsOperand]

/-- The signs in a tree's text are no differences. If all other minus signs are differences, no sign
stands behind an operand. -/
theorem WrittenAs.signs_startsOperand_le (h : tree.WrittenAs native lexemes)
    (hn : ∀ lexeme, native lexeme → lexeme.Native catalogue known) (behind : Bool) :
    signs Lexeme.startsOperand behind lexemes + tree.count (.operator .subtract) ≤
        lexemes.count (.operator .subtract) ∧
      (lexemes.count (.operator .subtract) ≤
          signs Lexeme.startsOperand behind lexemes + tree.count (.operator .subtract) →
        tree.every productsUnsigned = true ∧ (behind = true → tree.first.isSigned = false)) := by
  induction h generalizing behind with
  | @leaf lexeme p hs h =>
    have hne := Lexeme.ne_sign_of_startsOperand (Lexeme.of_isSingle hs).2.1
    refine ⟨by simp [signs, count, tokens, hne], fun _ => ⟨rfl, fun _ => ?_⟩⟩
    exact isSigned_native hs (hn _ h)
  | @signed number negated p h hneg =>
    have hnumber := Lexeme.startsOperand_of_isNumber (Lexeme.isNumber_of_negated? hneg)
    have hnegated := Lexeme.startsOperand_of_isNumber (Lexeme.text_of_negated? hneg).2
    have hne := Lexeme.ne_sign_of_startsOperand hnumber.1
    have hne' := Lexeme.ne_sign_of_startsOperand hnegated.1
    have hsigns : signs Lexeme.startsOperand behind [.operator .subtract, number] =
        (!behind).toNat := by
      simp [signs, hne, hnumber.1]
    have hcount : (Tree.leaf ⟨negated, p⟩).count (.operator .subtract) = 0 := by
      simp [count, tokens, hne']
    have hall : [Lexeme.operator .subtract, number].count (.operator .subtract) = 1 := by
      simp [hne]
    rw [hsigns, hcount, hall]
    refine ⟨Bool.toNat_le _, fun hle => ⟨rfl, fun hb => ?_⟩⟩
    rw [hb] at hle
    cases hle
  | @call name operand lexemes p h hw ih =>
    have hcount : (Tree.call name p operand).count (.operator .subtract) =
        operand.count (.operator .subtract) := by
      simp [count, tokens]
    have hall : (Lexeme.function name :: Lexeme.openBracket :: lexemes ++
        [Lexeme.closeBracket]).count (Lexeme.operator .subtract) =
          lexemes.count (.operator .subtract) := by
      simp
    rw [signs_call name hw.getLast?_endsOperand, hcount, hall]
    exact ⟨(ih false).1, fun hle => ⟨((ih false).2 hle).1, fun _ => rfl⟩⟩
  | @negation right lexemes p q h ih =>
    obtain ⟨hle, heq⟩ := ih false
    have hcount : (Tree.binary .impliedMultiply p (.leaf ⟨.negation, q⟩) right).count
        (.operator .subtract) = right.count (.operator .subtract) := by
      simp [count, tokens, Lexeme.negation]
    rw [h.signs_negation hn, hcount, List.count_cons_self, count_bracketedLexemes]
    have hbound := Bool.toNat_le
      (!behind && (leading (rightFirst .impliedMultiply right)).startsOperand)
    refine ⟨by omega, fun hall => ?_⟩
    obtain ⟨hfree, hstart⟩ : behind = false ∧
        (leading (rightFirst .impliedMultiply right)).startsOperand = true := by
      have hone : (!behind && (leading (rightFirst .impliedMultiply right)).startsOperand).toNat =
          1 := by omega
      simpa using hone
    have hunsigned : (rightFirst .impliedMultiply right).isSigned = false := by
      by_contra hsigned
      rw [leading, if_pos (by simpa using hsigned)] at hstart
      cases hstart
    refine ⟨?_, fun hb => ?_⟩
    · simp [every, (heq (by omega)).1, productsUnsigned, hunsigned]
    · rw [hfree] at hb
      cases hb
  | @binary op left right first second p hop hl hr hu ihl ihr =>
    obtain ⟨hle, heq⟩ := ihl (behind && !leftNeedsBrackets op left)
    obtain ⟨hle', heq'⟩ := ihr (decide (op = .impliedMultiply) && !rightNeedsBrackets op right)
    rw [hl.signs_binary hr, count_binary, count_operation, count_bracketedLexemes,
      count_bracketedLexemes]
    refine ⟨by omega, fun hall => ?_⟩
    obtain ⟨hleft, hfirst⟩ := heq (by omega)
    obtain ⟨hright, hsecond⟩ := heq' (by omega)
    refine ⟨?_, fun hb => isSigned_ite_bracket hfirst hb⟩
    have hproduct : productsUnsigned op left right = true := by
      rw [productsUnsigned, Bool.or_eq_true, Bool.not_eq_true', decide_eq_true_eq]
      by_cases himplied : op = .impliedMultiply
      · exact .inr (isSigned_ite_bracket hsecond (decide_eq_true himplied))
      · exact .inl himplied
    simp [every, hleft, hright, hproduct]

/-- An operand without sign takes one if its sign can be changed, or if what it starts with takes
one. -/
theorem takesSign_of_unsigned (hu : (rightFirst .impliedMultiply tree).isSigned = false)
    (h : tree.isNegatable = true ∨ (rightFirst .impliedMultiply tree).takesSign = true) :
    tree.takesSign = true := by
  have hnumber : (rightFirst .impliedMultiply tree).takesSign = true →
      (rightFirst .impliedMultiply tree).isNumber = false := by
    intro ht
    by_contra hnumber
    rw [Bool.not_eq_false] at hnumber
    rw [(Lexeme.of_isNumber hnumber).2.1] at ht
    cases ht
  cases tree with
  | leaf token =>
    have hleaf : rightFirst .impliedMultiply (.leaf token) = token.lexeme := rfl
    rw [hleaf] at h hu
    rw [takesSign, isNegatable] at *
    cases hneg : token.lexeme.negated? with
    | none => rfl
    | some negated =>
      rcases h with h | h
      · rw [hneg] at h
        simpa [hu] using h
      · rw [Lexeme.negated?_of_takesSign h] at hneg
        cases hneg
  | _ =>
    rcases h with h | h
    · cases h
    · simp [takesSign, hnumber h]

/-- A number whose sign can be changed takes no sign as a factor. -/
theorem takesSign_leading_le (tree : Tree) :
    ((leading (rightFirst .impliedMultiply tree)).takesSign).toNat ≤ (!tree.isNegatable).toNat := by
  cases hneg : tree.isNegatable with
  | false => exact Bool.toNat_le _
  | true =>
    cases tree with
    | leaf token =>
      have hleaf : rightFirst .impliedMultiply (.leaf token) = token.lexeme := rfl
      cases hnumber : token.lexeme.negated? with
      | none =>
        rw [isNegatable, hnumber] at hneg
        cases hneg
      | some negated =>
        have htakes := (Lexeme.of_isNumber (Lexeme.isNumber_of_negated? hnumber)).2.1
        rw [hleaf, leading]
        split
        · exact le_rfl
        · rw [htakes]
          exact le_rfl
    | _ => cases hneg

/-- The factor that stands for a sign is written as a sign alone. -/
theorem isNegation_of_isFactor (h : tree.isFactor = true) : tree.isNegation = true := by
  cases tree with
  | leaf token =>
    have hlexeme : token.lexeme = .negation := of_decide_eq_true h
    rw [isNegation, hlexeme]
    rfl
  | _ => cases h

/-- Factors that belong to no number are at least as many as signs in front of what takes them. If
there are no more, signs stand apart. -/
theorem WrittenAs.signs_takesSign_le (h : tree.WrittenAs native lexemes)
    (hn : ∀ lexeme, native lexeme → lexeme.Native catalogue known)
    (hu : tree.every productsUnsigned = true) (behind : Bool) :
    signs Lexeme.takesSign behind lexemes ≤ tree.factors ∧
      (tree.factors ≤ signs Lexeme.takesSign behind lexemes → tree.every signsApart = true) := by
  induction h generalizing behind with
  | @leaf lexeme p hs h =>
    have hne := Lexeme.ne_sign_of_startsOperand (Lexeme.of_isSingle hs).2.1
    exact ⟨by simp [signs, hne], fun _ => rfl⟩
  | @signed number negated p h hneg =>
    have hnumber := Lexeme.isNumber_of_negated? hneg
    have hne := Lexeme.ne_sign_of_startsOperand (Lexeme.startsOperand_of_isNumber hnumber).1
    exact ⟨by simp [signs, hne, (Lexeme.of_isNumber hnumber).2.1], fun _ => rfl⟩
  | @call name operand lexemes p h hw ih =>
    rw [signs_call name hw.getLast?_endsOperand]
    exact ih hu false
  | @negation right lexemes p q h ih =>
    simp only [every, Bool.and_eq_true] at hu
    obtain ⟨hle, heq⟩ := ih hu.1.2 false
    have hfactors : (Tree.binary .impliedMultiply p (.leaf ⟨.negation, q⟩) right).factors =
        right.factors + (!right.isNegatable).toNat := by
      simp [factors, isFactor]
    have hbound := takesSign_leading_le right
    have hone : (!behind && (leading (rightFirst .impliedMultiply right)).takesSign).toNat ≤
        ((leading (rightFirst .impliedMultiply right)).takesSign).toNat := by
      cases behind <;> simp
    rw [h.signs_negation hn, hfactors]
    refine ⟨by omega, fun hall => ?_⟩
    have hunsigned : (rightFirst .impliedMultiply right).isSigned = false := by
      simpa [productsUnsigned] using hu.2
    have htakes : right.takesSign = true := by
      refine takesSign_of_unsigned hunsigned ?_
      cases hneg : right.isNegatable with
      | true => exact .inl rfl
      | false =>
        rw [hneg, Bool.not_false, Bool.toNat_true] at hall
        have hcounted :
            (!behind && (leading (rightFirst .impliedMultiply right)).takesSign).toNat = 1 := by
          have hmost := Bool.toNat_le
            (!behind && (leading (rightFirst .impliedMultiply right)).takesSign)
          omega
        rw [leading, hunsigned, if_neg (by decide)] at hcounted
        exact .inr ((Bool.and_eq_true _ _).mp (Bool.toNat_eq_one.mp hcounted)).2
    have hfactor : (Tree.leaf ⟨.negation, q⟩).isNegation = true := rfl
    simp [every, heq (by omega), signsApart, hfactor, htakes]
  | @binary op left right first second p hop hl hr hunits ihl ihr =>
    simp only [every, Bool.and_eq_true] at hu
    obtain ⟨hle, heq⟩ := ihl hu.1.1 (behind && !leftNeedsBrackets op left)
    obtain ⟨hle', heq'⟩ :=
      ihr hu.1.2 (decide (op = .impliedMultiply) && !rightNeedsBrackets op right)
    have hplain := hl.isNegation hn
    have hfactor : left.isFactor = false := by
      by_contra hfactor
      rw [Bool.not_eq_false] at hfactor
      rw [isNegation_of_isFactor hfactor] at hplain
      cases hplain
    have hapart : signsApart op left right = true := by
      have hunsigned := hu.2
      rw [signsApart, hplain]
      exact hunsigned
    rw [hl.signs_binary hr, factors, hfactor]
    simp only [Bool.and_false, Bool.false_and, Bool.toNat_false]
    refine ⟨by omega, fun hall => ?_⟩
    simp [every, heq (by omega), heq' (by omega), hapart]

/-- Signs stand apart if the lexemes of a tree are read as a tree alike. -/
theorem WrittenAs.signsApart_of_folds {previous : Option Lexeme} {strength : Nat}
    {raw folded : List Token} (h : tree.WrittenAs native (raw.map (·.lexeme)))
    (hn : ∀ lexeme, native lexeme → lexeme.Native catalogue known)
    (hraw : ∀ token ∈ raw, token.lexeme.Native catalogue known) (hf : Folds previous raw folded)
    (hs : Grammar.Spells strength (insertImplied previous folded) other) (ha : tree.Alike other) :
    tree.every signsApart = true := by
  have hsigns := hf.count_sign_le
  rw [← count_of_spells hs (.inl rfl), ha.count_sign, Nat.add_comm] at hsigns
  have hunsigned := ((h.signs_startsOperand_le hn _).2 hsigns).1
  have hfactors := ha.factors_le.trans
    ((count_of_spells hs (.inr rfl)).trans_le (hf.count_negation_le hraw))
  exact (h.signs_takesSign_le hn hunsigned _).2 hfactors

end Tree

end UnitCalculator
