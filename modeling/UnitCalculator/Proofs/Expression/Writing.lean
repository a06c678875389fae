import UnitCalculator.Proofs.Expression.Insertion
import UnitCalculator.Proofs.Expression.Parsing

/-!
# The lexemes of a tree's text

The text of a compiled tree consists of lexemes of the text it was compiled from, of brackets and of
signs. Signed numbers are written with their sign, and implied products with no sign.
-/

namespace UnitCalculator

/-- The lexemes that an operator is written with. -/
def Operator.written : Operator → List Lexeme
  | .impliedMultiply => []
  | .impliedDivide => [.operator .divide]
  | op => [.operator op]

namespace Tree

/-- Lexemes in brackets where they are needed. -/
def bracketedLexemes (needed : Bool) (lexemes : List Lexeme) : List Lexeme :=
  if needed then .openBracket :: lexemes ++ [.closeBracket] else lexemes

/-- The lexemes that the text of a tree consists of, if the text it comes from has some lexemes. -/
inductive WrittenAs (native : Lexeme → Prop) : Tree → List Lexeme → Prop where
  /-- A number without sign, a unit or a variable. -/
  | leaf {lexeme : Lexeme} (p : Nat) (hs : lexeme.isSingle = true) (hn : native lexeme) :
    WrittenAs native (.leaf ⟨lexeme, p⟩) [lexeme]
  /-- A number with a sign. -/
  | signed {number negated : Lexeme} (p : Nat) (hn : native number)
    (h : number.negated? = some (.ok negated)) :
    WrittenAs native (.leaf ⟨negated, p⟩) [.operator .subtract, number]
  /-- A function. -/
  | call {name : String} {operand : Tree} {lexemes : List Lexeme} (p : Nat)
    (hn : native (.function name)) (h : WrittenAs native operand lexemes) :
    WrittenAs native (.call name p operand)
      (.function name :: .openBracket :: lexemes ++ [.closeBracket])
  /-- A factor that stands for a sign. -/
  | negation {right : Tree} {lexemes : List Lexeme} (p q : Nat)
    (h : WrittenAs native right lexemes) :
    WrittenAs native (.binary .impliedMultiply p (.leaf ⟨.negation, q⟩) right)
      (.operator .subtract :: bracketedLexemes (rightNeedsBrackets .impliedMultiply right) lexemes)
  /-- An operation. -/
  | binary {op : Operator} {left right : Tree} {first second : List Lexeme} (p : Nat)
    (hop : op ≠ .assign) (hl : WrittenAs native left first) (hr : WrittenAs native right second)
    (hu : op = .impliedDivide →
      (leftLast op left).isUnit = true ∧ (rightFirst op right).isUnit = true) :
    WrittenAs native (.binary op p left right)
      (bracketedLexemes (leftNeedsBrackets op left) first ++ op.written ++
        bracketedLexemes (rightNeedsBrackets op right) second)

variable {catalogue : Catalogue} {known : List String} {native : Lexeme → Prop}

/-- Where a unit ends the tokens of a tree it ends its text, and no operator binds too weakly. -/
theorem last_of_spells {strength : Nat} {tokens : List Token} {tree : Tree}
    (h : Grammar.Spells strength tokens tree) (hs : strength ≤ atomStrength) {last : Token}
    (hl : last ∈ tokens.getLast?) (hu : last.lexeme.isUnit = true) :
    tree.last = last.lexeme ∧ strength ≤ tree.strength := by
  induction h with
  | leaf h =>
    obtain rfl := Option.some.inj hl
    exact ⟨rfl, hs⟩
  | group p q h =>
    rw [List.getLast?_concat] at hl
    obtain rfl := Option.some.inj hl
    cases hu
  | call name p q r h =>
    rw [List.getLast?_concat] at hl
    obtain rfl := Option.some.inj hl
    cases hu
  | @binary strength left right l r op p hop hleft hright ihl ihr =>
    have hlast : last ∈ right.getLast? := by
      cases right with
      | nil =>
        rw [List.getLast?_concat] at hl
        obtain rfl := Option.some.inj hl
        cases hu
      | cons first right => rwa [List.getLast?_append_cons, List.getLast?_cons_cons] at hl
    have hbound : op.precedence + 1 ≤ atomStrength := by cases op <;> decide
    obtain ⟨he, hstrong⟩ := ihr hbound hlast
    refine ⟨?_, hop⟩
    rw [Tree.last, rightNeedsBrackets, decide_eq_false (by omega), if_neg (by decide), he]

/-- Where a unit starts the tokens of a tree it starts its text, and no operator binds too
weakly. -/
theorem first_of_spells {strength : Nat} {tokens : List Token} {tree : Tree}
    (h : Grammar.Spells strength tokens tree) (hs : strength ≤ atomStrength) {first : Token}
    (hf : first ∈ tokens.head?) (hu : first.lexeme.isUnit = true) :
    tree.first = first.lexeme ∧ strength ≤ tree.strength := by
  induction h with
  | leaf h =>
    obtain rfl := Option.some.inj hf
    exact ⟨rfl, hs⟩
  | group p q h =>
    obtain rfl := Option.some.inj hf
    cases hu
  | call name p q r h =>
    obtain rfl := Option.some.inj hf
    cases hu
  | @binary strength left right l r op p hop hleft hright ihl ihr =>
    have hfirst : first ∈ left.head? := by
      cases left with
      | nil =>
        obtain rfl := Option.some.inj hf
        cases hu
      | cons token left => exact hf
    have hbound : op.precedence ≤ atomStrength := by cases op <;> decide
    obtain ⟨he, hstrong⟩ := ihl hbound hfirst
    refine ⟨?_, hop⟩
    rw [Tree.first, leftNeedsBrackets, decide_eq_false (by omega), if_neg (by decide), he]

/-- A lexeme that is an operand is written, signed, or the factor that stands for a sign. -/
theorem exists_writtenAs_leaf {token : Token} (hs : token.lexeme.isSingle = true)
    (hn : token.lexeme.Folded native) :
    token = ⟨.negation, token.position⟩ ∨ ∃ lexemes, WrittenAs native (.leaf token) lexemes := by
  rcases token with ⟨lexeme, p⟩
  cases hn with
  | native h => exact .inr ⟨_, .leaf p hs h⟩
  | negated h hneg => exact .inr ⟨_, .signed p h hneg⟩
  | negation => exact .inl rfl
  | bracket h =>
    rcases h with rfl | rfl
    · cases hs
    · cases hs

/-- A function is one of the text. -/
theorem native_function {name : String} (h : (Lexeme.function name).Completed native) :
    native (.function name) := by
  rcases h with h | h | h
  · cases h with
    | native h => exact h
    | negated h hneg => cases Lexeme.isSigned_of_negated? hneg
    | bracket h => rcases h with h | h <;> cases h
  · cases h
  · cases h

/-- Units stand on both sides of an implied quotient sign, in the tokens and in the text. -/
theorem units_of_impliedDivide {left right behind : List Token} {l r : Tree} (p : Nat)
    (hl : Grammar.Spells Operator.impliedDivide.precedence left l)
    (hr : Grammar.Spells (Operator.impliedDivide.precedence + 1) right r)
    (hc : (Token.enclosed (left ++ ⟨.operator .impliedDivide, p⟩ :: (right ++ behind))).IsChain
      Lexeme.Meets) :
    (leftLast .impliedDivide l).isUnit = true ∧ (rightFirst .impliedDivide r).isUnit = true := by
  rw [Token.enclosed_append, Token.enclosed_cons] at hc
  obtain ⟨-, hrest, hjoin⟩ := List.isChain_append.mp hc
  have hlast := List.getLast?_eq_some_getLast hl.ne_nil
  have hbefore : (left.getLast hl.ne_nil).lexeme.isUnit = true :=
    (hjoin _ (by rw [List.getLast?_map, hlast]; rfl) _ rfl).before rfl
  have hhead := List.head?_eq_some_head hr.ne_nil
  have hbehind : (right.head hr.ne_nil).lexeme.isUnit = true := by
    refine ((List.isChain_cons.mp hrest).1 _ ?_).behind rfl
    rw [Token.enclosed_append, List.head?_append, List.head?_map, hhead]
    rfl
  obtain ⟨hel, hsl⟩ := last_of_spells hl (by decide) hlast hbefore
  obtain ⟨her, hsr⟩ := first_of_spells hr (by decide) hhead hbehind
  rw [leftLast, leftNeedsBrackets, decide_eq_false (by omega), if_neg (by decide), hel]
  rw [rightFirst, rightNeedsBrackets, decide_eq_false (by omega), if_neg (by decide), her]
  exact ⟨hbefore, hbehind⟩

/-- Every tree that is spelled has lexemes, unless it is the factor that stands for a sign. -/
theorem exists_writtenAs {strength : Nat} {tokens behind : List Token} {tree : Tree}
    (h : Grammar.Spells strength tokens tree) (hs : 1 ≤ strength)
    (hc : (Token.enclosed (tokens ++ behind)).IsChain Lexeme.Meets)
    (hn : ∀ token ∈ tokens, token.lexeme.Completed native)
    (hb : ∀ op, (Token.enclosed behind).head? = some (.operator op) → op.precedence ≤ strength) :
    (∃ p, tokens = [⟨.negation, p⟩] ∧ tree = .leaf ⟨.negation, p⟩) ∨
      ∃ lexemes, WrittenAs native tree lexemes := by
  induction h generalizing behind with
  | @leaf strength token h =>
    have hfolded : token.lexeme.Folded native := by
      rcases hn token (by simp) with hf | he | he
      · exact hf
      · rw [he] at h
        cases h
      · rw [he] at h
        cases h
    rcases exists_writtenAs_leaf h hfolded with he | hw
    · exact .inl ⟨token.position, by rw [← he], by rw [← he]⟩
    · exact .inr hw
  | @group strength tokens tree p q h ih =>
    have hchain : (Token.enclosed (tokens ++ ⟨.closeBracket, q⟩ :: behind)).IsChain
        Lexeme.Meets := by
      simpa using hc.tail
    rcases ih le_rfl hchain
      (fun token ht => hn token (by simp [ht])) (fun op ho => by cases ho) with ⟨r, rfl, -⟩ | hw
    · have hmeets := (List.isChain_cons_cons.mp hchain).1
      cases hmeets.factor rfl
    · exact .inr hw
  | @call strength tokens tree name p q r h ih =>
    have hchain : (Token.enclosed (tokens ++ ⟨.closeBracket, r⟩ :: behind)).IsChain
        Lexeme.Meets := by
      simpa using hc.tail.tail
    rcases ih le_rfl hchain
      (fun token ht => hn token (by simp [ht])) (fun op ho => by cases ho) with
      ⟨r', rfl, -⟩ | ⟨lexemes, hw⟩
    · have hmeets := (List.isChain_cons_cons.mp hchain).1
      cases hmeets.factor rfl
    · exact .inr ⟨_, .call p (native_function (hn ⟨.function name, p⟩ (by simp))) hw⟩
  | @binary strength left right l r op p hop hl hr ihl ihr =>
    have hassign : op ≠ .assign := Grammar.precedence_pos.mp (hs.trans hop)
    have hwhole : (Token.enclosed (left ++ ⟨.operator op, p⟩ :: (right ++ behind))).IsChain
        Lexeme.Meets := by
      simpa using hc
    have hsplit := hwhole
    rw [Token.enclosed_append] at hsplit
    obtain ⟨-, hrest, hjoin⟩ := List.isChain_append.mp hsplit
    have hbehind : (Token.enclosed (right ++ behind)).IsChain Lexeme.Meets := hrest.tail
    have hright := ihr (by omega) hbehind
      (fun token ht => hn token (by simp [ht])) fun op' ho => by
        have := hb op' ho
        omega
    have hleft := ihl (hs.trans hop) hwhole
      (fun token ht => hn token (by simp [ht])) fun op' ho => by
        obtain rfl : op = op' := by simpa [Token.enclosed] using ho
        exact le_rfl
    have hr' : ∃ lexemes, WrittenAs native r lexemes := by
      rcases hright with ⟨q, rfl, -⟩ | hw
      · obtain ⟨hmeets, hnegation⟩ := List.isChain_cons_cons.mp hrest
        rcases hmeets.sign rfl with he | ⟨op', he, hweak⟩
        · cases he
        · obtain rfl := Lexeme.operator.inj he
          obtain ⟨next, hnext⟩ := Token.exists_head_enclosed behind
          have hfactor := ((List.isChain_cons.mp hnegation).1 next hnext).factor rfl
          rw [hfactor] at hnext
          have hstrong : 3 ≤ strength := hb _ hnext
          omega
      · exact hw
    obtain ⟨second, hw⟩ := hr'
    rcases hleft with ⟨q, rfl, rfl⟩ | ⟨first, hw'⟩
    · have hfactor := (List.isChain_cons_cons.mp hwhole).1.factor rfl
      obtain rfl : op = .impliedMultiply := by simpa using hfactor
      exact .inr ⟨_, .negation p q hw⟩
    · refine .inr ⟨_, .binary p hassign hw' hw fun hdivide => ?_⟩
      subst hdivide
      exact units_of_impliedDivide p hl hr hwhole

end Tree

end UnitCalculator
