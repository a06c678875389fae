import UnitCalculator.Proofs.Expression.Marking
import UnitCalculator.Proofs.Expression.Rereading

/-!
# Units that stand apart

Where the text of a tree is read as a tree alike, the quotient signs that are implied are exactly
those between units. They bind tighter than those that are written, so that the operands of such a
quotient have to group tight enough.
-/

namespace UnitCalculator

/-- Marks quotient signs that are implied, and written ones with the opposite. -/
def Lexeme.quotient? : Lexeme → Option Bool
  | .operator .divide => some false
  | .operator .impliedDivide => some true
  | _ => none

namespace Tree

variable {tree other left right : Tree} {op : Operator} {tokens : List Token}

/-- How the quotient signs of a tree are read, in order. -/
def quotients : Tree → List Bool
  | .leaf token => token.lexeme.quotient?.toList
  | .call _ _ operand => operand.quotients
  | .binary op _ left right => left.quotients ++
    ((Lexeme.operator (operatorRead op left right)).quotient?.toList ++ right.quotients)

/-- Single operands are no quotient signs. -/
theorem quotient?_of_isSingle {lexeme : Lexeme} (h : lexeme.isSingle = true) :
    lexeme.quotient? = none := by
  cases lexeme <;> first | rfl | cases h

/-- Neither a sign in front of a number nor the number is a quotient sign. -/
theorem quotient?_of_negated? {number negated : Lexeme}
    (h : number.negated? = some (.ok negated)) :
    number.quotient? = none ∧ negated.quotient? = none ∧ Lexeme.negation.quotient? = none ∧
      (Lexeme.operator .impliedMultiply).quotient? = none := by
  have hnumber := Lexeme.of_isNumber (Lexeme.isNumber_of_negated? h)
  have hnegated := Lexeme.of_isNumber (Lexeme.text_of_negated? h).2
  exact ⟨quotient?_of_isSingle hnumber.1, quotient?_of_isSingle hnegated.1, rfl, rfl⟩

/-- Brackets are no quotient signs. -/
theorem quotients_bracketed (needed : Bool) (p q : Nat) (tokens : List Token) :
    Token.marks Lexeme.quotient? (Token.bracketed needed p q tokens) =
      Token.marks Lexeme.quotient? tokens := by
  cases needed with
  | false => rfl
  | true => simp [Token.bracketed, Lexeme.quotient?]

/-- The tokens that a tree is read as have its quotient signs. -/
theorem ReadAs.marks_quotient (h : tree.ReadAs tokens) :
    Token.marks Lexeme.quotient? tokens = tree.quotients := by
  induction h with
  | leaf p q h => simp [quotient?_of_isSingle h, quotients]
  | sign p q r s h =>
    simp [quotient?_of_negated? h, quotients, operatorRead]
  | call p q r s h ih =>
    rw [quotients, ← ih]
    simp [Lexeme.quotient?]
  | binary p q r s t u hop hl hr ihl ihr =>
    rw [quotients, ← ihl, ← ihr]
    simp [quotients_bracketed]

/-- The quotient signs of an operation are those of its operands and the operator itself. -/
theorem marks_quotient_binary (op : Operator) (p : Nat) (left right : Tree) :
    (Tree.binary op p left right).marks Lexeme.quotient? =
      left.marks Lexeme.quotient? ++
        ((Lexeme.operator op).quotient?.toList ++ right.marks Lexeme.quotient?) := by
  simp [marks, Tree.tokens]

/-- A quotient sign is read as one, and no other operator is. -/
theorem length_quotient_operatorRead (op : Operator) (left right : Tree) :
    (Lexeme.operator (operatorRead op left right)).quotient?.toList.length =
      (Lexeme.operator op).quotient?.toList.length := by
  rw [operatorRead]
  split
  · next h =>
    obtain ⟨hop, -⟩ := (Bool.and_eq_true _ _).mp h
    rw [of_decide_eq_true hop]
    rfl
  · rfl

/-- Trees that are alike have as many quotient signs. -/
theorem Alike.length_quotients (h : tree.Alike other) :
    (other.marks Lexeme.quotient?).length = tree.quotients.length := by
  induction h with
  | leaf lexeme p q => simp [marks, Tree.tokens, quotients]
  | sign p q r s h =>
    simp [marks, Tree.tokens, quotient?_of_negated? h, quotients, operatorRead]
  | call name p q h ih =>
    rw [quotients, ← ih]
    simp [marks, Tree.tokens, Lexeme.quotient?]
  | binary p q hop hl hr ihl ihr =>
    rw [marks_quotient_binary, quotients]
    simp only [List.length_append, length_quotient_operatorRead, ihl, ihr]
  | quotient p q hl hr ihl ihr =>
    rw [marks_quotient_binary, quotients]
    simp only [List.length_append, length_quotient_operatorRead, ihl, ihr]
    rfl
  | assignment name p q p' q' h ih =>
    rw [marks_quotient_binary, quotients]
    simp only [List.length_append, length_quotient_operatorRead, ih]
    rfl

/-- Units stand on both sides of an implied quotient sign. -/
def unitsAround (op : Operator) (left right : Tree) : Bool :=
  op ≠ .impliedDivide || ((leftLast op left).isUnit && (rightFirst op right).isUnit)

/-- Units stand on both sides of all implied quotient signs of a tree that has lexemes. -/
theorem WrittenAs.every_unitsAround {native : Lexeme → Prop} {lexemes : List Lexeme}
    (h : tree.WrittenAs native lexemes) : tree.every unitsAround = true := by
  induction h with
  | leaf p hs h => rfl
  | signed p h hneg => rfl
  | call p hn h ih => exact ih
  | negation p q h ih => simp [every, ih, unitsAround]
  | @binary op left right first second p hop hl hr hu ihl ihr =>
    have haround : unitsAround op left right = true := by
      rw [unitsAround]
      by_cases hdivide : op = .impliedDivide
      · simp [hu hdivide]
      · simp [hdivide]
    simp [every, ihl, ihr, haround]

/-- Operations with as many quotient signs have the same ones at the same places. -/
theorem quotients_binary {left' right' : Tree} {op' : Operator} {p q : Nat}
    (hl : left.Alike left')
    (h : (Tree.binary op' q left' right').marks Lexeme.quotient? =
      (Tree.binary op p left right).quotients)
    (hop : (Lexeme.operator op').quotient?.toList.length =
      (Lexeme.operator op).quotient?.toList.length) :
    left'.marks Lexeme.quotient? = left.quotients ∧
      (Lexeme.operator op').quotient? = (Lexeme.operator (operatorRead op left right)).quotient? ∧
      right'.marks Lexeme.quotient? = right.quotients := by
  rw [marks_quotient_binary, quotients] at h
  obtain ⟨hleft, hrest⟩ := List.append_inj h hl.length_quotients
  obtain ⟨hoperator, hright⟩ :=
    List.append_inj hrest (by rw [length_quotient_operatorRead, hop])
  exact ⟨hleft, by simpa using congrArg List.head? hoperator, hright⟩

/-- A quotient sign that is read as an implied one stands between units. -/
theorem unitsMeet_of_quotient?
    (h : some true = (Lexeme.operator (operatorRead .divide left right)).quotient?) :
    unitsMeet left right = true := by
  by_contra hmeet
  rw [Bool.not_eq_true] at hmeet
  rw [operatorRead, hmeet] at h
  cases h

/-- Where a tree alike binds tight, the tree is read tight, too: as tight as an implied quotient
sign, and tighter if it starts with a unit. -/
theorem Alike.tightness_le (h : tree.Alike other)
    (hm : other.marks Lexeme.quotient? = tree.quotients) :
    (Operator.impliedDivide.precedence ≤ other.strength →
      Operator.impliedDivide.precedence ≤ tree.tightness) ∧
    (Operator.impliedDivide.precedence < other.strength → other.first.isUnit = true →
      Operator.impliedDivide.precedence < tree.tightness) := by
  cases h with
  | leaf lexeme p q => exact ⟨fun _ => (by decide : 3 ≤ 5), fun _ _ => (by decide : 3 < 5)⟩
  | @sign number negated p q r s h =>
    refine ⟨fun _ => (by decide : 3 ≤ 3), fun _ hf => ?_⟩
    rw [first, (Lexeme.of_isNumber (Lexeme.text_of_negated? h).2).2.2] at hf
    cases hf
  | call name p q h => exact ⟨fun _ => (by decide : 3 ≤ 5), fun _ _ => (by decide : 3 < 5)⟩
  | @binary op p q left right left' right' hop hl hr =>
    have hle := strength_le_tightness (Tree.binary op p left right)
    exact ⟨fun hs => hs.trans hle, fun hs _ => hs.trans_le hle⟩
  | @quotient p q left right left' right' hl hr =>
    obtain ⟨-, hread, -⟩ := quotients_binary hl hm rfl
    have htight : (Tree.binary .divide p left right).tightness =
        Operator.impliedDivide.precedence := by
      simp [tightness, operatorRead, unitsMeet_of_quotient? hread]
    rw [htight]
    exact ⟨fun _ => le_rfl, fun hs _ => hs⟩
  | assignment name p q p' q' h =>
    exact ⟨fun hs => absurd hs (by decide : ¬ 3 ≤ 0), fun hs _ => absurd hs (by decide : ¬ 3 < 0)⟩

/-- What stands on both sides of an implied quotient sign binds tight. -/
theorem strength_of_unitsAround (h : unitsAround .impliedDivide left right = true) :
    Operator.impliedDivide.precedence ≤ left.strength ∧
      Operator.impliedDivide.precedence < right.strength ∧ right.first.isUnit = true := by
  obtain ⟨hl, hr⟩ : (leftLast .impliedDivide left).isUnit = true ∧
      (rightFirst .impliedDivide right).isUnit = true := by
    simpa [unitsAround] using h
  rw [leftLast] at hl
  rw [rightFirst] at hr
  split at hl
  · cases hl
  · next hleft =>
    split at hr
    · cases hr
    · next hright =>
      refine ⟨Nat.le_of_not_lt fun hlt => hleft (decide_eq_true hlt),
        Nat.lt_of_not_le fun hle => hright (decide_eq_true hle), hr⟩

/-- Units stand apart if the tokens that a tree is read as spell a tree alike. -/
theorem Alike.unitsApart (h : tree.Alike other)
    (hm : other.marks Lexeme.quotient? = tree.quotients)
    (hu : other.every unitsAround = true) : tree.every Tree.unitsApart = true := by
  induction h with
  | leaf lexeme p q => rfl
  | sign p q r s h => rfl
  | call name p q h ih =>
    refine ih ?_ hu
    simpa [marks, Tree.tokens, quotients, Lexeme.quotient?] using hm
  | @binary op p q left right left' right' hop hl hr ihl ihr =>
    simp only [every, Bool.and_eq_true] at hu
    obtain ⟨hml, hread, hmr⟩ := quotients_binary hl hm rfl
    have hapart : Tree.unitsApart op left right = true := by
      by_cases hdivide : op = .divide
      · subst hdivide
        have hmeet : unitsMeet left right = false := by
          by_contra hmeet
          rw [Bool.not_eq_false] at hmeet
          rw [operatorRead, hmeet] at hread
          cases hread
        simp [Tree.unitsApart, hmeet]
      · simp [Tree.unitsApart, hdivide]
    simp [every, ihl hml hu.1.1, ihr hmr hu.1.2, hapart]
  | @quotient p q left right left' right' hl hr ihl ihr =>
    simp only [every, Bool.and_eq_true] at hu
    obtain ⟨hml, hread, hmr⟩ := quotients_binary hl hm rfl
    obtain ⟨hsl, hsr, hfirst⟩ := strength_of_unitsAround hu.2
    have htl := (hl.tightness_le hml).1 hsl
    have htr := (hr.tightness_le hmr).2 hsr hfirst
    have hapart : Tree.unitsApart .divide left right = true := by
      simp [Tree.unitsApart, htl, htr]
    simp [every, ihl hml hu.1.1, ihr hmr hu.1.2, hapart]
  | assignment name p q p' q' h ih =>
    simp only [every, Bool.and_eq_true] at hu
    obtain ⟨-, -, hmr⟩ := quotients_binary (.leaf (.reference name) q q') hm rfl
    simp [every, ih hmr hu.1.2, Tree.unitsApart]

end Tree

end UnitCalculator
