import UnitCalculator.Expression.Equation
import UnitCalculator.Proofs.Quantity.Alike

/-!
# Legible expressions

The text of an expression has brackets where the tree needs them, but what is read from it also
depends on the lexemes that come to stand side by side. A sign behind an operand is a difference, a
sign in front of a number belongs to the number, a name in front of a bracket may be a call, and
units on both sides of a quotient sign group tighter than the sign alone. An expression is legible
if none of this happens where it would change the tree. Trees are alike if they differ only in
positions, in signs that belong to numbers and in quotient signs that are implied.
-/

namespace UnitCalculator

namespace Lexeme

/-- A number that is written with a sign. -/
def isSigned (lexeme : Lexeme) : Bool :=
  lexeme.isNumber && lexeme.text.toList.head? = some '-'

/-- A variable that is written like a function or a lookup. -/
def isCallable : Lexeme → Bool
  | .reference name => Function.names.contains name || Catalogue.lookupNames.contains name
  | _ => false

/-- A number with its sign changed has the opposite value. -/
theorem evaluate_of_negated? {number negated : Lexeme}
    (h : number.negated? = some (.ok negated)) (bindings : Bindings) :
    ∃ value opposite, value.negate = .ok opposite ∧ number.evaluate bindings = .ok value ∧
      negated.evaluate bindings = .ok opposite := by
  have hcase : ∀ (text : String) (value : Quantity) (make : String → Quantity → Lexeme),
      (do return make text (← value.negate) : Outcome Lexeme) = .ok negated →
      ∃ opposite, value.negate = .ok opposite ∧ make text opposite = negated := by
    intro text value make h
    obtain ⟨opposite, ho, hm⟩ := bind_eq_ok_iff.mp h
    exact ⟨opposite, ho, pure_eq_ok_iff.mp hm⟩
  cases number with
  | number text value =>
    obtain ⟨opposite, ho, rfl⟩ := hcase _ value .number (Option.some.inj h)
    exact ⟨value, opposite, ho, rfl, rfl⟩
  | lookup text value =>
    obtain ⟨opposite, ho, rfl⟩ := hcase _ value .lookup (Option.some.inj h)
    exact ⟨value, opposite, ho, rfl, rfl⟩
  | _ => cases h

end Lexeme

namespace Tree

/-- The lexeme that the text of a tree starts with. -/
def first : Tree → Lexeme
  | .leaf token => token.lexeme
  | .call function _ _ => .function function
  | .binary op _ left _ => if leftNeedsBrackets op left then .openBracket else left.first

/-- The lexeme that the text of a tree ends with. -/
def last : Tree → Lexeme
  | .leaf token => token.lexeme
  | .call .. => .closeBracket
  | .binary op _ _ right => if rightNeedsBrackets op right then .closeBracket else right.last

/-- The lexeme before an operator, where the text of its left operand ends. -/
def leftLast (op : Operator) (left : Tree) : Lexeme :=
  if leftNeedsBrackets op left then .closeBracket else left.last

/-- The lexeme behind an operator, where the text of its right operand starts. -/
def rightFirst (op : Operator) (right : Tree) : Lexeme :=
  if rightNeedsBrackets op right then .openBracket else right.first

/-- Units stand on both sides of a quotient sign. -/
def unitsMeet (left right : Tree) : Bool :=
  (leftLast .divide left).isUnit && (rightFirst .divide right).isUnit

/-- The operator that an operation is read with: a quotient sign between units is an implied one. -/
def operatorRead (op : Operator) (left right : Tree) : Operator :=
  if op = .divide && unitsMeet left right then .impliedDivide else op

/-- Binding strength of what the text of a tree is read as. -/
def tightness : Tree → Nat
  | .binary op _ left right => (operatorRead op left right).precedence
  | _ => atomStrength

/-- A sign in front of an operand is read as a factor, or into a number that has no sign yet. -/
def takesSign (operand : Tree) : Bool :=
  match operand with
  | .leaf token =>
    match token.lexeme.negated? with
    | some negated => !token.lexeme.isSigned && negated.toOption.isSome
    | none => true
  | operand => !(rightFirst .impliedMultiply operand).isNumber

/-- No variable of a product that is written like a function stands before a bracket. -/
def namesApart (op : Operator) (left right : Tree) : Bool :=
  !(op = .impliedMultiply && (leftLast op left).isCallable && rightFirst op right = .openBracket)

/-- No sign stands where it is read as a difference or into another number. -/
def signsApart (op : Operator) (left right : Tree) : Bool :=
  op ≠ .impliedMultiply ||
    if left.isNegation then right.takesSign else !(rightFirst op right).isSigned

/-- Where units stand on both sides of a quotient sign, both operands group tight enough. -/
def unitsApart (op : Operator) (left right : Tree) : Bool :=
  op ≠ .divide || !unitsMeet left right ||
    (Operator.impliedDivide.precedence ≤ left.tightness &&
      Operator.impliedDivide.precedence < right.tightness)

/-- The texts of two operands are read as these operands where they meet. -/
def joinable (op : Operator) (left right : Tree) : Bool :=
  namesApart op left right && signsApart op left right && unitsApart op left right

/-- Every operation of a tree joins its operands in some way. -/
def every (p : Operator → Tree → Tree → Bool) : Tree → Bool
  | .leaf _ => true
  | .call _ _ operand => operand.every p
  | .binary op _ left right => left.every p && right.every p && p op left right

/-- All operands of a tree can be joined as they are written. -/
def isLegible (tree : Tree) : Bool := tree.every joinable

/-- Two properties hold everywhere if both do. -/
theorem every_and (p q : Operator → Tree → Tree → Bool) (tree : Tree) :
    tree.every (fun op left right => p op left right && q op left right) =
      (tree.every p && tree.every q) := by
  induction tree with
  | leaf token => rfl
  | call function position operand ih => exact ih
  | binary op position left right ihl ihr =>
    rw [every, every, every, ihl, ihr]
    ac_rfl

/-- A tree is legible if names, signs and units stand apart everywhere. -/
theorem isLegible_iff {tree : Tree} : tree.isLegible = true ↔
    tree.every namesApart = true ∧ tree.every signsApart = true ∧
      tree.every unitsApart = true := by
  have hjoin : joinable = fun op left right =>
      (namesApart op left right && signsApart op left right) && unitsApart op left right := rfl
  rw [isLegible, hjoin, every_and, every_and, Bool.and_eq_true, Bool.and_eq_true, and_assoc]

/-- Trees that differ only in positions, in signs that belong to numbers and in quotient signs that
are implied. -/
inductive Alike : Tree → Tree → Prop where
  /-- The same operand. -/
  | leaf (lexeme : Lexeme) (p q : Nat) : Alike (.leaf ⟨lexeme, p⟩) (.leaf ⟨lexeme, q⟩)
  /-- A sign in front of a number that belongs to it. -/
  | sign {number negated : Lexeme} (p q r s : Nat) (h : number.negated? = some (.ok negated)) :
    Alike (.binary .impliedMultiply p (.leaf ⟨.negation, q⟩) (.leaf ⟨number, r⟩))
      (.leaf ⟨negated, s⟩)
  /-- The same function. -/
  | call (name : String) (p q : Nat) {operand other : Tree} (h : Alike operand other) :
    Alike (.call name p operand) (.call name q other)
  /-- The same operator. -/
  | binary {op : Operator} (p q : Nat) {left right left' right' : Tree} (hop : op ≠ .assign)
    (hl : Alike left left') (hr : Alike right right') :
    Alike (.binary op p left right) (.binary op q left' right')
  /-- A quotient sign that is implied. -/
  | quotient (p q : Nat) {left right left' right' : Tree} (hl : Alike left left')
    (hr : Alike right right') :
    Alike (.binary .divide p left right) (.binary .impliedDivide q left' right')
  /-- An assignment of one variable. -/
  | assignment (name : String) (p q p' q' : Nat) {tree tree' : Tree} (h : Alike tree tree') :
    Alike (.binary .assign p (.leaf ⟨.reference name, q⟩) tree)
      (.binary .assign p' (.leaf ⟨.reference name, q'⟩) tree')

/-- Trees that are alike agree on their values, whatever the variables are. -/
theorem Alike.agree_evaluate {tree other : Tree} (h : Alike tree other) (bindings : Bindings) :
    Agree Quantity.Alike (tree.evaluate bindings) (other.evaluate bindings) := by
  induction h with
  | leaf lexeme p q => exact .refl Quantity.Alike.refl _
  | sign p q r s h =>
    obtain ⟨value, opposite, ho, hv, hn⟩ := Lexeme.evaluate_of_negated? h bindings
    rw [evaluate, evaluate, evaluate, evaluate, if_neg (by decide), hv, hn]
    exact Quantity.agree_multiply_negation ho
  | call name p q _ ih =>
    rw [evaluate, evaluate]
    exact ih.bind fun a a' ha => Quantity.agree_apply name ha
  | @binary op p q left right left' right' hop _ _ ihl ihr =>
    rw [evaluate, evaluate, if_neg hop, if_neg hop]
    exact ihl.bind fun a a' ha => ihr.bind fun b b' hb => op.agree_apply ha hb
  | quotient p q _ _ ihl ihr =>
    rw [evaluate, evaluate, if_neg (by decide), if_neg (by decide)]
    exact ihl.bind fun a a' ha => ihr.bind fun b b' hb => Quantity.agree_divide ha hb
  | assignment name p q p' q' _ ih =>
    simp only [evaluate, if_true]
    exact ih

end Tree

namespace Equation

/-- Equations with trees that are alike assign the same variable. -/
theorem target?_eq_of_alike {e f : Equation} (h : e.root.Alike f.root) :
    f.target? = e.target? := by
  rcases e with ⟨root, text⟩
  rcases f with ⟨other, source⟩
  cases h with
  | @binary op p q left right left' right' hop hl hr =>
    cases op with
    | assign => exact absurd rfl hop
    | _ => rfl
  | _ => rfl

/-- Equations with trees that are alike agree on their values, whatever the variables are. -/
theorem agree_evaluate {e f : Equation} (h : e.root.Alike f.root) (bindings : Bindings) :
    Agree Quantity.Alike (e.evaluate bindings) (f.evaluate bindings) := by
  have hroot : ∀ e : Equation, e.evaluate bindings = e.root.evaluate bindings := by
    intro e
    rw [evaluate, expression]
    split
    · next he => rw [he, Tree.evaluate, if_pos rfl]
    · rfl
  rw [hroot, hroot]
  exact h.agree_evaluate bindings

end Equation

end UnitCalculator
