import UnitCalculator.Proofs.Expression.Completing
import UnitCalculator.Proofs.Expression.Rendering

/-!
# Reading the lexemes of a tree again

Where signs stand apart, the lexemes of a tree are completed to tokens that are the tree's own, up
to signs that become part of a number and quotient signs between units. Where units stand apart,
too, these tokens spell a tree alike.
-/

namespace UnitCalculator

open Grammar

/-- Tokens in brackets where they are needed. -/
def Token.bracketed (needed : Bool) (p q : Nat) (tokens : List Token) : List Token :=
  if needed then ⟨.openBracket, p⟩ :: tokens ++ [⟨.closeBracket, q⟩] else tokens

/-- Tokens with some lexemes are completed on their own to tokens with a property. They may be a
single operand, and a unit may end them. -/
def CompletesTo (leaf unit : Bool) (lexemes : List Lexeme) (goal : List Token → Prop) : Prop :=
  ∀ raw : List Token, raw.map (·.lexeme) = lexemes → ∃ mid out last,
    Completes leaf raw mid out last ∧ last.isUnit = unit ∧ goal out

variable {lexemes first second : List Lexeme} {leaf leafLeft leafRight unit unitLeft : Bool}
variable {goal goalLeft goalRight : List Token → Prop}

/-- A token with a given lexeme in front of others. -/
theorem Token.exists_of_map_cons {raw : List Token} {lexeme : Lexeme}
    (h : raw.map (·.lexeme) = lexeme :: lexemes) :
    ∃ p rest, raw = ⟨lexeme, p⟩ :: rest ∧ rest.map (·.lexeme) = lexemes := by
  obtain ⟨⟨_, p⟩, rest, rfl, rfl, hrest⟩ := List.map_eq_cons_iff.mp h
  exact ⟨p, rest, rfl, hrest⟩

/-- Tokens with lexemes in brackets are tokens in brackets. -/
theorem Token.exists_of_map_bracketed {raw : List Token}
    (h : raw.map (·.lexeme) = .openBracket :: lexemes ++ [.closeBracket]) :
    ∃ p inner q, raw = ⟨.openBracket, p⟩ :: inner ++ [⟨.closeBracket, q⟩] ∧
      inner.map (·.lexeme) = lexemes := by
  obtain ⟨p, rest, rfl, hrest⟩ := exists_of_map_cons h
  obtain ⟨inner, close, rfl, hinner, hclose⟩ := List.map_eq_append_iff.mp hrest
  obtain ⟨q, nothing, rfl, hnothing⟩ := exists_of_map_cons hclose
  rw [List.map_eq_nil_iff.mp hnothing]
  exact ⟨p, inner, q, rfl, hinner⟩

/-- What completed tokens are implies what they shall be. -/
theorem CompletesTo.imp {other : List Token → Prop} (h : CompletesTo leaf unit lexemes goal)
    (hg : ∀ out, goal out → other out) : CompletesTo leaf unit lexemes other := by
  intro raw hraw
  obtain ⟨mid, out, last, hc, hu, ho⟩ := h raw hraw
  exact ⟨mid, out, last, hc, hu, hg out ho⟩

/-- An operand is completed in brackets as it is without them. -/
theorem CompletesTo.bracketed (h : CompletesTo leaf unit lexemes goal) (needed : Bool) :
    CompletesTo (needed || leaf) (!needed && unit) (Tree.bracketedLexemes needed lexemes)
      fun out => ∃ p q inner, goal inner ∧ out = Token.bracketed needed p q inner := by
  intro raw hraw
  cases needed with
  | false =>
    obtain ⟨mid, out, last, hc, hu, ho⟩ := h raw hraw
    exact ⟨mid, out, last, by simpa using hc, by simpa using hu, 0, 0, out, ho, rfl⟩
  | true =>
    obtain ⟨p, inner, q, rfl, hinner⟩ := Token.exists_of_map_bracketed hraw
    obtain ⟨mid, out, last, hc, -, ho⟩ := h inner hinner
    exact ⟨_, _, _, hc.bracketed p q, rfl, p, q, out, ho, rfl⟩

/-- A function is completed with its operand. -/
theorem CompletesTo.call (h : CompletesTo leaf unit lexemes goal) (name : String) :
    CompletesTo false false (.function name :: .openBracket :: lexemes ++ [.closeBracket])
      fun out => ∃ p q r inner, goal inner ∧
        out = ⟨.function name, p⟩ :: ⟨.openBracket, q⟩ :: inner ++ [⟨.closeBracket, r⟩] := by
  intro raw hraw
  obtain ⟨p, rest, rfl, hrest⟩ := Token.exists_of_map_cons hraw
  obtain ⟨q, inner, r, rfl, hinner⟩ := Token.exists_of_map_bracketed hrest
  obtain ⟨mid, out, last, hc, -, ho⟩ := h inner hinner
  exact ⟨_, _, _, hc.call name p q r, rfl, p, q, r, out, ho, rfl⟩

/-- A product is completed where its right operand starts with no sign. -/
theorem CompletesTo.product (hl : CompletesTo leafLeft unitLeft first goalLeft)
    (hr : CompletesTo leafRight unit second goalRight)
    (hs : second.head? ≠ some (.operator .subtract)) :
    CompletesTo false unit (first ++ second) fun out => ∃ left p right, goalLeft left ∧
      goalRight right ∧ out = left ++ ⟨.operator .impliedMultiply, p⟩ :: right := by
  intro raw hraw
  obtain ⟨rawLeft, rawRight, rfl, hleft, hright⟩ := List.map_eq_append_iff.mp hraw
  obtain ⟨_, left, _, hcl, -, hgl⟩ := hl rawLeft hleft
  obtain ⟨_, right, _, hcr, hu, hgr⟩ := hr rawRight hright
  obtain ⟨p, hc⟩ := hcl.product hcr (by rwa [← List.head?_map, hright])
  exact ⟨_, _, _, hc, hu, left, p, right, hgl, hgr, rfl⟩

/-- A sign in front of an operand that takes it is completed to a factor. -/
theorem CompletesTo.negation (h : CompletesTo leaf unit lexemes goal)
    (ht : ∀ lexeme ∈ lexemes.head?, lexeme.takesSign = true) :
    CompletesTo false unit (.operator .subtract :: lexemes) fun out => ∃ p q right, goal right ∧
      out = ⟨.negation, p⟩ :: ⟨.operator .impliedMultiply, q⟩ :: right := by
  intro raw hraw
  obtain ⟨p, rest, rfl, hrest⟩ := Token.exists_of_map_cons hraw
  obtain ⟨_, right, _, hc, hu, hg⟩ := h rest hrest
  obtain ⟨q, hc⟩ := hc.negation p fun first hf =>
    ht _ (by rw [← hrest, List.head?_map]; exact congrArg _ hf)
  exact ⟨_, _, _, hc, hu, p, q, right, hg, rfl⟩

/-- An operation is completed with the operator that is read between its operands. -/
theorem CompletesTo.operation {written : Operator} (read : Operator) {head : Lexeme}
    (hl : CompletesTo leafLeft unitLeft first goalLeft)
    (hr : CompletesTo leafRight unit second goalRight) (hh : head ∈ second.head?)
    (hp : written = .power → head = .operator .subtract → leafRight = true)
    (hread : (if written = .divide && unitLeft && head.isUnit then .impliedDivide else written) =
      read) :
    CompletesTo false unit (first ++ .operator written :: second) fun out => ∃ left p right,
      goalLeft left ∧ goalRight right ∧ out = left ++ ⟨.operator read, p⟩ :: right := by
  intro raw hraw
  obtain ⟨rawLeft, rest, rfl, hleft, hrest⟩ := List.map_eq_append_iff.mp hraw
  obtain ⟨p, rawRight, rfl, hright⟩ := Token.exists_of_map_cons hrest
  obtain ⟨_, left, last, hcl, hu, hgl⟩ := hl rawLeft hleft
  obtain ⟨_, right, _, hcr, hu', hgr⟩ := hr rawRight hright
  obtain ⟨token, behind, rfl⟩ : ∃ token behind, rawRight = token :: behind := by
    obtain ⟨token, behind, _, _, he, -⟩ := hcr.starts
    exact ⟨token, behind, he⟩
  obtain rfl : token.lexeme = head := by
    rw [← hright] at hh
    exact Option.some.inj hh
  have hc := hcl.operation hcr written p (fun hw he => hp hw (Option.some.inj he))
    (Option.mem_some.mpr rfl)
  have hoperator : readOperator written last token.lexeme = read := by
    rw [readOperator, hu, hread]
  rw [hoperator] at hc
  exact ⟨_, _, _, hc, hu', left, p, right, hgl, hgr, rfl⟩

namespace Tree

variable {catalogue : Catalogue} {known : List String} {native : Lexeme → Prop}
variable {tree left right : Tree} {op written : Operator}

/-- The tokens that a tree is read as: its own, with the brackets of its text, but with signs that
belong to numbers and with the operators that are read. -/
inductive ReadAs : Tree → List Token → Prop where
  /-- A single operand. -/
  | leaf {lexeme : Lexeme} (p q : Nat) (h : lexeme.isSingle = true) :
    ReadAs (.leaf ⟨lexeme, p⟩) [⟨lexeme, q⟩]
  /-- A number with a sign in front of it. -/
  | sign {number negated : Lexeme} (p q r s : Nat) (h : number.negated? = some (.ok negated)) :
    ReadAs (.binary .impliedMultiply p (.leaf ⟨.negation, q⟩) (.leaf ⟨number, r⟩)) [⟨negated, s⟩]
  /-- A function. -/
  | call {name : String} {operand : Tree} {tokens : List Token} (p q r s : Nat)
    (h : ReadAs operand tokens) :
    ReadAs (.call name p operand)
      (⟨.function name, q⟩ :: ⟨.openBracket, r⟩ :: tokens ++ [⟨.closeBracket, s⟩])
  /-- An operation. -/
  | binary {op : Operator} {left right : Tree} {before behind : List Token} (p q r s t u : Nat)
    (hop : op ≠ .assign) (hl : ReadAs left before) (hr : ReadAs right behind) :
    ReadAs (.binary op p left right)
      (Token.bracketed (leftNeedsBrackets op left) q r before ++
        ⟨.operator (operatorRead op left right), s⟩ ::
          Token.bracketed (rightNeedsBrackets op right) t u behind)

/-- The lexeme that the text of an operand starts with: a sign, if it is a number with one. -/
def leading (lexeme : Lexeme) : Lexeme :=
  if lexeme.isSigned then .operator .subtract else lexeme

/-- A number with a sign is no unit. -/
theorem isUnit_leading (lexeme : Lexeme) : (leading lexeme).isUnit = lexeme.isUnit := by
  rw [leading]
  split
  · next h =>
    cases lexeme <;> first | rfl | cases h
  · rfl

/-- What starts an operand without a number takes a sign in front of it. -/
theorem takesSign_leading {lexeme : Lexeme} (hs : lexeme.startsOperand = true)
    (hn : lexeme.isNumber = false) : (leading lexeme).takesSign = true := by
  rw [leading, Lexeme.isSigned, hn]
  cases lexeme with
  | number text value => cases hn
  | lookup text value => cases hn
  | operator op => cases hs
  | closeBracket => cases hs
  | _ => rfl

/-- A written number, a unit or a variable has no sign. -/
theorem isSigned_native {lexeme : Lexeme} (hs : lexeme.isSingle = true)
    (hn : lexeme.Native catalogue known) : lexeme.isSigned = false := by
  obtain ⟨c, tail, ht, hc⟩ := hn.exists_head
  rw [Lexeme.isSigned, ht, List.head?_cons, decide_eq_false, Bool.and_false]
  rw [Option.some.injEq]
  exact hc hs

/-- The lexeme that a written number without sign, a unit or a variable starts with. -/
theorem leading_native {lexeme : Lexeme} (hs : lexeme.isSingle = true)
    (hn : lexeme.Native catalogue known) : leading lexeme = lexeme := by
  rw [leading, isSigned_native hs hn, if_neg (by decide)]

/-- Lexemes in brackets start with a bracket. -/
theorem head?_bracketedLexemes {lexeme : Lexeme} (needed : Bool)
    (h : lexemes.head? = some (leading lexeme)) :
    (bracketedLexemes needed lexemes).head? =
      some (leading (if needed then .openBracket else lexeme)) := by
  cases needed with
  | false => exact h
  | true => rfl

/-- The lexemes of a tree start like its text. -/
theorem WrittenAs.head?_eq (h : tree.WrittenAs native lexemes)
    (hn : ∀ lexeme, native lexeme → lexeme.Native catalogue known) :
    lexemes.head? = some (leading tree.first) := by
  induction h with
  | leaf p hs h =>
    rw [first, leading_native hs (hn _ h)]
    rfl
  | signed p h hneg =>
    rw [first, leading, Lexeme.isSigned_of_negated? hneg]
    rfl
  | call p h hw ih => rfl
  | @negation right lexemes p q h ih =>
    have hsigned : Lexeme.negation.isSigned = true := by decide
    have hfirst : (Tree.binary .impliedMultiply p (.leaf ⟨.negation, q⟩) right).first =
      .negation := rfl
    rw [hfirst, leading, hsigned]
    rfl
  | @binary op left right first second p hop hl hr hu ihl ihr =>
    have hleft := head?_bracketedLexemes (leftNeedsBrackets op left) ihl
    rw [Tree.first, List.append_assoc, List.head?_append, hleft]
    rfl

/-- The text of a tree starts with an operand. -/
theorem WrittenAs.startsOperand (h : tree.WrittenAs native lexemes) :
    tree.first.startsOperand = true := by
  induction h with
  | leaf p hs h => exact (Lexeme.of_isSingle hs).2.1
  | @signed number negated p h hneg =>
    have hnumber := (Lexeme.text_of_negated? hneg).2
    cases negated <;> first | rfl | cases hnumber
  | call p h hw ih => rfl
  | negation p q h ih => rfl
  | @binary op left right first second p hop hl hr hu ihl ihr =>
    rw [Tree.first]
    split
    · rfl
    · exact ihl

/-- A tree that takes a sign is a number without one, or its text starts with no number. -/
theorem WrittenAs.of_takesSign (h : tree.WrittenAs native lexemes) (ht : tree.takesSign = true) :
    (∃ number negated p, tree = .leaf ⟨number, p⟩ ∧ lexemes = [number] ∧
      number.negated? = some (.ok negated)) ∨
      (rightFirst .impliedMultiply tree).isNumber = false := by
  cases h with
  | @leaf lexeme p hs h =>
    cases hneg : lexeme.negated? with
    | none =>
      refine .inr ?_
      cases lexeme <;> first | rfl | cases hneg
    | some negated =>
      simp only [takesSign, hneg, Bool.and_eq_true] at ht
      cases negated with
      | error signal => cases ht.2
      | ok negated => exact .inl ⟨lexeme, negated, p, rfl, rfl, hneg⟩
  | @signed number negated p h hneg =>
    obtain ⟨-, hnumber⟩ := Lexeme.text_of_negated? hneg
    have hsigned := Lexeme.isSigned_of_negated? hneg
    cases negated with
    | number text value =>
      simp only [takesSign, Lexeme.negated?, hsigned] at ht
      cases ht
    | lookup text value =>
      simp only [takesSign, Lexeme.negated?, hsigned] at ht
      cases ht
    | _ => cases hnumber
  | call p h hw => exact .inr rfl
  | negation p q h => exact .inr (by simpa [takesSign] using ht)
  | binary p hop hl hr hu => exact .inr (by simpa [takesSign] using ht)

/-- A sign in front of a number is completed to the number with the sign. -/
theorem completesTo_sign {number negated : Lexeme} (p q r : Nat)
    (hn : number.negated? = some (.ok negated)) (leaf : Bool) :
    CompletesTo leaf false [.operator .subtract, number]
      (Tree.binary .impliedMultiply p (.leaf ⟨.negation, q⟩) (.leaf ⟨number, r⟩)).ReadAs := by
  intro raw hraw
  obtain ⟨s, rest, rfl, hrest⟩ := Token.exists_of_map_cons hraw
  obtain ⟨t, nothing, rfl, hnothing⟩ := Token.exists_of_map_cons hrest
  rw [List.map_eq_nil_iff.mp hnothing]
  obtain ⟨-, -, hu⟩ := Lexeme.of_isNumber (Lexeme.text_of_negated? hn).2
  exact ⟨_, _, negated, completes_signed s t hn leaf, hu, .sign p q r s hn⟩

/-- A sign in front of an operand that takes it is completed to what it is read as. -/
theorem WrittenAs.completesTo_negation (h : tree.WrittenAs native lexemes)
    (hn : ∀ lexeme, native lexeme → lexeme.Native catalogue known)
    (hr : CompletesTo leaf tree.last.isUnit lexemes tree.ReadAs) (ht : tree.takesSign = true)
    (p q : Nat) :
    CompletesTo false (!rightNeedsBrackets .impliedMultiply tree && tree.last.isUnit)
      (.operator .subtract :: bracketedLexemes (rightNeedsBrackets .impliedMultiply tree) lexemes)
      (Tree.binary .impliedMultiply p (.leaf ⟨.negation, q⟩) tree).ReadAs := by
  rcases h.of_takesSign ht with ⟨number, negated, r, rfl, rfl, hneg⟩ | hnumber
  · have hunit : number.isUnit = false := by
      cases number <;> first | rfl | cases hneg
    have hwhole := completesTo_sign p q r hneg false
    simpa [last, hunit, bracketedLexemes, rightNeedsBrackets, strength, atomStrength,
      Operator.precedence] using hwhole
  · refine ((hr.bracketed _).negation fun lexeme hl => ?_).imp ?_
    · rw [head?_bracketedLexemes _ (h.head?_eq hn)] at hl
      obtain rfl := Option.some.inj hl
      refine takesSign_leading ?_ hnumber
      split
      · rfl
      · exact h.startsOperand
    · rintro _ ⟨r, s, _, ⟨t, u, behind, hb, rfl⟩, rfl⟩
      exact .binary p 0 0 s t u (fun he => by cases he) (.leaf q r rfl) hb

/-- A part of the lexemes at an end is a unit if no bracket stands there. -/
theorem isUnit_ite_bracket (needed : Bool) (lexeme bracket : Lexeme)
    (hb : bracket.isUnit = false) :
    (if needed then bracket else lexeme).isUnit = (!needed && lexeme.isUnit) := by
  cases needed with
  | false => rfl
  | true => exact hb

/-- An exponent that starts with a sign and has no brackets is a number. -/
theorem WrittenAs.isLeaf_exponent (h : tree.WrittenAs native lexemes)
    (hs : leading (rightFirst .power tree) = .operator .subtract) :
    (rightNeedsBrackets .power tree || tree.isLeaf) = true := by
  cases hneeds : rightNeedsBrackets .power tree with
  | true => rfl
  | false =>
    have hstrong : Operator.power.precedence < tree.strength :=
      Nat.lt_of_not_le (of_decide_eq_false hneeds)
    rw [rightFirst, hneeds, if_neg (by decide)] at hs
    cases h with
    | leaf p hsingle hn => rfl
    | signed p hn hneg => rfl
    | call p hn h => cases hs
    | negation p q h => exact absurd hstrong (by decide : ¬ 4 < 3)
    | @binary op left right first second p hop hl hr hu =>
      have hbound : op.precedence ≤ Operator.power.precedence := by cases op <;> decide
      exact absurd hstrong (Nat.not_lt_of_le hbound)

/-- An operation with a written operator is completed to what it is read as. -/
theorem WrittenAs.completesTo_operation (hr : right.WrittenAs native second)
    (hn : ∀ lexeme, native lexeme → lexeme.Native catalogue known)
    (ihl : CompletesTo left.isLeaf left.last.isUnit first left.ReadAs)
    (ihr : CompletesTo right.isLeaf right.last.isUnit second right.ReadAs) (p : Nat)
    (hop : op ≠ .assign) (hw : op.written = [.operator written])
    (hread : readOperator written (leftLast op left) (rightFirst op right) =
      operatorRead op left right) :
    CompletesTo false (Tree.binary op p left right).last.isUnit
      (bracketedLexemes (leftNeedsBrackets op left) first ++ op.written ++
        bracketedLexemes (rightNeedsBrackets op right) second)
      (Tree.binary op p left right).ReadAs := by
  have hlast : (Tree.binary op p left right).last.isUnit =
      (!rightNeedsBrackets op right && right.last.isUnit) := isUnit_ite_bracket _ _ _ rfl
  have hbefore : (leftLast op left).isUnit =
      (!leftNeedsBrackets op left && left.last.isUnit) := isUnit_ite_bracket _ _ _ rfl
  have hhead : leading (rightFirst op right) ∈
      (bracketedLexemes (rightNeedsBrackets op right) second).head? :=
    head?_bracketedLexemes _ (hr.head?_eq hn)
  rw [hlast, hw, List.append_assoc]
  refine ((ihl.bracketed _).operation (operatorRead op left right) (ihr.bracketed _) hhead
    (fun hpower hsign => ?_) ?_).imp ?_
  · obtain rfl : op = .power := by
      rw [hpower] at hw
      cases op <;> first | rfl | cases hw
    exact hr.isLeaf_exponent hsign
  · rw [← hbefore, isUnit_leading]
    exact hread
  · rintro _ ⟨_, s, _, ⟨q, r, before, hl, rfl⟩, ⟨t, u, behind, hb, rfl⟩, rfl⟩
    exact .binary p q r s t u hop hl hb

/-- A product without a sign is completed to what it is read as, if its right operand starts with
no sign. -/
theorem WrittenAs.completesTo_product (hr : right.WrittenAs native second)
    (hn : ∀ lexeme, native lexeme → lexeme.Native catalogue known)
    (ihl : CompletesTo left.isLeaf left.last.isUnit first left.ReadAs)
    (ihr : CompletesTo right.isLeaf right.last.isUnit second right.ReadAs) (p : Nat)
    (hs : (rightFirst .impliedMultiply right).isSigned = false) :
    CompletesTo false (Tree.binary .impliedMultiply p left right).last.isUnit
      (bracketedLexemes (leftNeedsBrackets .impliedMultiply left) first ++
        bracketedLexemes (rightNeedsBrackets .impliedMultiply right) second)
      (Tree.binary .impliedMultiply p left right).ReadAs := by
  have hlast : (Tree.binary .impliedMultiply p left right).last.isUnit =
      (!rightNeedsBrackets .impliedMultiply right && right.last.isUnit) :=
    isUnit_ite_bracket _ _ _ rfl
  have hstart : (rightFirst .impliedMultiply right).startsOperand = true := by
    rw [rightFirst]
    split
    · rfl
    · exact hr.startsOperand
  have hhead : (bracketedLexemes (rightNeedsBrackets .impliedMultiply right) second).head? =
      some (leading (rightFirst .impliedMultiply right)) :=
    head?_bracketedLexemes _ (hr.head?_eq hn)
  rw [hlast]
  refine ((ihl.bracketed _).product (ihr.bracketed _) fun he => ?_).imp ?_
  · rw [hhead, leading, hs, if_neg (by decide)] at he
    exact Lexeme.ne_operator_of_startsOperand hstart _ (Option.some.inj he)
  · rintro _ ⟨_, s, _, ⟨q, r, before, hl, rfl⟩, ⟨t, u, behind, hb, rfl⟩, rfl⟩
    exact .binary p q r s t u (fun he => by cases he) hl hb

/-- An operation is completed to what it is read as, if its operands are and signs stand apart. -/
theorem WrittenAs.completesTo_binary (hl : left.WrittenAs native first)
    (hr : right.WrittenAs native second)
    (hn : ∀ lexeme, native lexeme → lexeme.Native catalogue known) (hop : op ≠ .assign)
    (hunits : op = .impliedDivide →
      (leftLast op left).isUnit = true ∧ (rightFirst op right).isUnit = true)
    (hsigns : signsApart op left right = true)
    (ihl : CompletesTo left.isLeaf left.last.isUnit first left.ReadAs)
    (ihr : CompletesTo right.isLeaf right.last.isUnit second right.ReadAs) (p : Nat) :
    CompletesTo false (Tree.binary op p left right).last.isUnit
      (bracketedLexemes (leftNeedsBrackets op left) first ++ op.written ++
        bracketedLexemes (rightNeedsBrackets op right) second)
      (Tree.binary op p left right).ReadAs := by
  cases op with
  | assign => exact absurd rfl hop
  | impliedMultiply =>
    have hsigned : (rightFirst .impliedMultiply right).isSigned = false := by
      simpa [signsApart, hl.isNegation hn] using hsigns
    rw [Operator.written, List.append_nil]
    exact hr.completesTo_product hn ihl ihr p hsigned
  | impliedDivide =>
    obtain ⟨hbefore, hbehind⟩ := hunits rfl
    refine hr.completesTo_operation hn ihl ihr p hop rfl ?_
    simp [readOperator, operatorRead, hbefore, hbehind]
  | divide =>
    refine hr.completesTo_operation hn ihl ihr p hop rfl ?_
    simp [readOperator, operatorRead, unitsMeet]
  | _ => exact hr.completesTo_operation hn ihl ihr p hop rfl rfl

/-- Where signs stand apart, the lexemes of a tree are completed to what it is read as. -/
theorem WrittenAs.completesTo (h : tree.WrittenAs native lexemes)
    (hn : ∀ lexeme, native lexeme → lexeme.Native catalogue known)
    (hs : tree.every signsApart = true) :
    CompletesTo tree.isLeaf tree.last.isUnit lexemes tree.ReadAs := by
  induction h with
  | @leaf lexeme p hsingle h =>
    intro raw hraw
    obtain ⟨q, nothing, rfl, hnothing⟩ := Token.exists_of_map_cons hraw
    rw [List.map_eq_nil_iff.mp hnothing]
    exact ⟨_, _, _, completes_single hsingle _, rfl, .leaf p q hsingle⟩
  | @signed number negated p h hneg =>
    intro raw hraw
    obtain ⟨q, rest, rfl, hrest⟩ := Token.exists_of_map_cons hraw
    obtain ⟨r, nothing, rfl, hnothing⟩ := Token.exists_of_map_cons hrest
    rw [List.map_eq_nil_iff.mp hnothing]
    obtain ⟨hsingle, -, -⟩ := Lexeme.of_isNumber (Lexeme.text_of_negated? hneg).2
    exact ⟨_, _, _, completes_signed q r hneg _, rfl, .leaf p q hsingle⟩
  | @call name operand lexemes p h hw ih =>
    refine ((ih hs).call name).imp ?_
    rintro _ ⟨q, r, s, inner, hi, rfl⟩
    exact .call p q r s hi
  | @negation right lexemes p q h ih =>
    simp only [every, Bool.and_eq_true] at hs
    have ht : right.takesSign = true := by
      have hfactor : (Tree.leaf ⟨.negation, q⟩).isNegation = true := rfl
      simpa [signsApart, hfactor] using hs.2
    have hlast : (Tree.binary .impliedMultiply p (.leaf ⟨.negation, q⟩) right).last.isUnit =
        (!rightNeedsBrackets .impliedMultiply right && right.last.isUnit) :=
      isUnit_ite_bracket _ _ _ rfl
    rw [hlast]
    exact h.completesTo_negation hn (ih hs.1.2) ht p q
  | binary p hop hl hr hunits ihl ihr =>
    simp only [every, Bool.and_eq_true] at hs
    exact hl.completesTo_binary hr hn hop hunits hs.2 (ihl hs.1.1) (ihr hs.1.2) p

/-- Text is read at least as tight as the tree. -/
theorem strength_le_tightness (tree : Tree) : tree.strength ≤ tree.tightness := by
  cases tree with
  | binary op p left right =>
    rw [strength, tightness, operatorRead]
    split
    · next h =>
      obtain ⟨hop, -⟩ := (Bool.and_eq_true _ _).mp h
      rw [of_decide_eq_true hop]
      decide
    · exact le_rfl
  | _ => exact le_rfl

/-- What is read as a tree binds. -/
theorem ReadAs.one_le_tightness {tokens : List Token} (h : tree.ReadAs tokens) :
    1 ≤ tree.tightness := by
  refine le_trans ?_ tree.strength_le_tightness
  cases h with
  | binary p q r s t u hop => exact precedence_pos.mpr hop
  | sign => exact (by decide : 1 ≤ Operator.impliedMultiply.precedence)
  | _ => exact (by decide : 1 ≤ atomStrength)

/-- What brackets surround is spelled at every strength. -/
theorem spells_bracketed {strength weaker : Nat} {needed : Bool} {tokens : List Token}
    (h : Spells strength tokens tree) (hs : 1 ≤ strength)
    (hw : needed = false → weaker ≤ strength) (p q : Nat) :
    Spells weaker (Token.bracketed needed p q tokens) tree := by
  cases needed with
  | false => exact h.mono (hw rfl)
  | true => exact .group p q (h.mono hs)

/-- The operands of an operation bind as tight as it is read, if units stand apart. -/
theorem tightness_operands (h : unitsApart op left right = true) :
    (leftNeedsBrackets op left = false →
      (operatorRead op left right).precedence ≤ left.tightness) ∧
    (rightNeedsBrackets op right = false →
      (operatorRead op left right).precedence + 1 ≤ right.tightness) := by
  rw [operatorRead]
  split
  · next hmeet =>
    obtain ⟨hop, hmeet⟩ := (Bool.and_eq_true _ _).mp hmeet
    obtain ⟨hl, hr⟩ : Operator.impliedDivide.precedence ≤ left.tightness ∧
        Operator.impliedDivide.precedence < right.tightness := by
      simpa [unitsApart, of_decide_eq_true hop, hmeet] using h
    exact ⟨fun _ => hl, fun _ => hr⟩
  · refine ⟨fun hneeds => ?_, fun hneeds => ?_⟩
    · exact (Nat.le_of_not_lt (of_decide_eq_false hneeds)).trans left.strength_le_tightness
    · exact (Nat.lt_of_not_le (of_decide_eq_false hneeds)).trans_le right.strength_le_tightness

/-- An operation that is read with some operator is alike. -/
theorem alike_operatorRead (hop : op ≠ .assign) {other other' : Tree} (hl : left.Alike other)
    (hr : right.Alike other') (p q : Nat) :
    (Tree.binary op p left right).Alike
      (.binary (operatorRead op left right) q other other') := by
  rw [operatorRead]
  split
  · next hmeet =>
    obtain ⟨hdivide, -⟩ := (Bool.and_eq_true _ _).mp hmeet
    rw [of_decide_eq_true hdivide]
    exact .quotient p q hl hr
  · exact .binary p q hop hl hr

/-- What a tree is read as spells a tree alike, if units stand apart. -/
theorem ReadAs.exists_spells {tokens : List Token} (h : tree.ReadAs tokens)
    (hu : tree.every unitsApart = true) :
    ∃ other, Spells tree.tightness tokens other ∧ tree.Alike other := by
  induction h with
  | @leaf lexeme p q h => exact ⟨_, .leaf h, .leaf lexeme p q⟩
  | sign p q r s h =>
    obtain ⟨hsingle, -, -⟩ := Lexeme.of_isNumber (Lexeme.text_of_negated? h).2
    exact ⟨_, .leaf hsingle, .sign p q r s h⟩
  | @call name operand tokens p q r s h ih =>
    obtain ⟨other, hspells, ha⟩ := ih hu
    exact ⟨_, .call name q r s (hspells.mono h.one_le_tightness), .call name p q ha⟩
  | @binary op left right before behind p q r s t u hop hl hr ihl ihr =>
    simp only [every, Bool.and_eq_true] at hu
    obtain ⟨other, hspells, ha⟩ := ihl hu.1.1
    obtain ⟨other', hspells', ha'⟩ := ihr hu.1.2
    obtain ⟨hleft, hright⟩ := tightness_operands hu.2
    exact ⟨_, .binary s le_rfl (spells_bracketed hspells hl.one_le_tightness hleft q r)
      (spells_bracketed hspells' hr.one_le_tightness hright t u),
      alike_operatorRead hop ha ha' p s⟩

end Tree

end UnitCalculator
