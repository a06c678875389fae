import UnitCalculator.Proofs.Expression.Evaluation
import UnitCalculator.Proofs.Quantity.Dimension

/-!
# Dimensions of expressions

The dimension of an expression is found without evaluating it, from the dimensions of the variables
that it reads, as long as no exponent reads one. Where an evaluation returns a value, that has this
dimension, and where it finds dimensions that do not fit, there is none.
-/

namespace UnitCalculator

/-- The dimension of an operand, given those of variables. -/
def Lexeme.dimension? (dimensions : String → Option Dimension) (lexeme : Lexeme) :
    Option Dimension :=
  match lexeme with
  | .reference name => dimensions name
  | _ => some (lexeme.value?.getD (.number (.ofNat 0))).dimension

namespace Tree

/-- The dimension of an expression, given those of variables; exponents are evaluated without
variables. -/
def dimension? (dimensions : String → Option Dimension) : Tree → Option Dimension
  | .leaf token => token.lexeme.dimension? dimensions
  | .call function _ operand =>
    (operand.dimension? dimensions).bind (Function.dimension? function)
  | .binary op _ left right =>
    if op = .assign then right.dimension? dimensions
    else
      (left.dimension? dimensions).bind fun a =>
        (right.dimension? dimensions).bind fun b =>
          op.dimension? a b (right.evaluate fun _ => none).toOption

/-- No exponent reads a variable. -/
def hasFixedPowers : Tree → Bool
  | .leaf _ => true
  | .call _ _ operand => operand.hasFixedPowers
  | .binary op _ left right =>
    left.hasFixedPowers && right.hasFixedPowers && (op ≠ .power || right.references.isEmpty)

/-- Only the power looks at its right operand beyond the dimension. -/
theorem dimension?_operator {op : Operator} (hop : op ≠ .power) (a b : Dimension)
    (exponent other : Option Quantity) : op.dimension? a b exponent = op.dimension? a b other := by
  cases op with
  | power => exact absurd rfl hop
  | _ => rfl

/-- Evaluating an expression conforms to its dimension. -/
theorem conforms_evaluate {tree : Tree} (hp : tree.hasFixedPowers = true) {bindings : Bindings}
    {dimensions : String → Option Dimension}
    (hd : ∀ name ∈ tree.references, ∀ q, bindings name = some q →
      dimensions name = some q.dimension) :
    Conforms (tree.dimension? dimensions) (tree.evaluate bindings) := by
  induction tree with
  | leaf token =>
    rcases token with ⟨lexeme, position⟩
    cases lexeme with
    | reference name =>
      simp only [dimension?, evaluate, Lexeme.dimension?, Lexeme.evaluate]
      cases hb : bindings name with
      | none => exact conforms_error (by exact id) _
      | some q =>
        rw [hd name (by simp [references]) q hb]
        exact conforms_ok q
    | _ => exact conforms_ok _
  | call function position operand ih =>
    exact (ih hp hd).bind fun q _ => Quantity.conforms_apply function q
  | binary op position left right ihl ihr =>
    rw [hasFixedPowers, Bool.and_eq_true, Bool.and_eq_true] at hp
    obtain ⟨⟨hpl, hpr⟩, hpower⟩ := hp
    have hl := ihl hpl fun name hn => hd name (by simp [references, hn])
    have hr := ihr hpr fun name hn => hd name (by simp [references, hn])
    rw [dimension?, evaluate]
    by_cases ha : op = .assign
    · rw [if_pos ha, if_pos ha]
      exact hr
    rw [if_neg ha, if_neg ha]
    refine hl.bind fun a _ => hr.bind fun b hb => ?_
    have hb : op.dimension? a.dimension b.dimension (right.evaluate fun _ => none).toOption =
        op.dimension? a.dimension b.dimension (some b) := by
      by_cases hop : op = .power
      · -- An exponent without variables has one value, whatever the bindings.
        have hclosed : right.references = [] := by simpa [hop] using hpower
        have hsame : (right.evaluate fun _ => none) = right.evaluate bindings :=
          evaluate_congr fun name hn => by simp [hclosed] at hn
        rw [hsame, hb]
        rfl
      · exact dimension?_operator hop _ _ _ _
    rw [hb]
    exact Quantity.conforms_operator op a b

end Tree

namespace Equation

variable {e : Equation} {bindings others : Bindings}

/-- Variables have the same dimensions with other values. -/
def SameDimensions (e : Equation) (bindings others : Bindings) : Prop :=
  ∀ name ∈ e.usage, ∃ p q, bindings name = some p ∧ others name = some q ∧
    p.dimension = q.dimension

/-- Evaluations with variables of the same dimensions conform to one dimension. -/
theorem SameDimensions.conforms (h : e.SameDimensions bindings others)
    (hp : e.expression.hasFixedPowers = true) :
    Conforms (e.expression.dimension? fun name => (bindings name).map (·.dimension))
        (e.evaluate bindings) ∧
      Conforms (e.expression.dimension? fun name => (bindings name).map (·.dimension))
        (e.evaluate others) := by
  refine ⟨Tree.conforms_evaluate hp fun name _ q hq => ?_,
    Tree.conforms_evaluate hp fun name hn q hq => ?_⟩
  · rw [hq, Option.map_some]
  · obtain ⟨p, other, hb, ho, hd⟩ := h name (mem_usage.mpr hn)
    obtain rfl := Option.some.inj (ho.symm.trans hq)
    rw [hb, Option.map_some, hd]

/-- Dimensions do not depend on values. If no exponent of an equation reads a variable, then with
other values of the same dimensions the result has the same dimension, as far as there is one, and
there is none where dimensions do not fit with one of the values. -/
theorem dimension_evaluate_congr (hp : e.expression.hasFixedPowers = true)
    (hd : e.SameDimensions bindings others) :
    (∀ p q, e.evaluate bindings = .ok p → e.evaluate others = .ok q →
      p.dimension = q.dimension) ∧
    (∀ failure, e.evaluate bindings = .error failure → failure.IsMismatch →
      ∀ q, e.evaluate others ≠ .ok q) ∧
    ∀ failure, e.evaluate others = .error failure → failure.IsMismatch →
      ∀ p, e.evaluate bindings ≠ .ok p := by
  obtain ⟨hb, ho⟩ := hd.conforms hp
  refine ⟨fun p q hep heq => ?_, fun failure hf hm q heq => ?_, fun failure hf hm p hep => ?_⟩
  · exact Option.some.inj ((hb.of_ok p hep).symm.trans (ho.of_ok q heq))
  · rw [hb.of_mismatch failure hf hm] at ho
    cases ho.of_ok q heq
  · rw [ho.of_mismatch failure hf hm] at hb
    cases hb.of_ok p hep

/-- Two coordinates and a time. -/
def journey (x y t : Nat) : Bindings := fun name =>
  [("x", Quantity.of (.ofNat x) ⟨0, 1, 0, 0, 0, 0, 0⟩),
    ("y", Quantity.of (.ofNat y) ⟨0, 1, 0, 0, 0, 0, 0⟩),
    ("t", Quantity.of (.ofNat t) ⟨1, 0, 0, 0, 0, 0, 0⟩)].lookup name

/-- The speeds of two journeys have one dimension. -/
theorem dimension_evaluate_congr_speed :
    ∃ e p q, compile .standard ["t", "x", "y"] "sqrt(x^2 + y^2) / t" = .ok e ∧
      e.expression.hasFixedPowers = true ∧ e.evaluate (journey 3 4 2) = .ok p ∧
      e.evaluate (journey 1 1 7) = .ok q ∧ p.dimension = q.dimension := by
  have hok : (match compile .standard ["t", "x", "y"] "sqrt(x^2 + y^2) / t" with
    | .ok e => e.expression.hasFixedPowers && e.usage == ["t", "x", "y"] &&
      (e.evaluate (journey 3 4 2)).toOption.isSome &&
      (e.evaluate (journey 1 1 7)).toOption.isSome
    | .error _ => false) = true := by decide +kernel
  cases hc : compile .standard ["t", "x", "y"] "sqrt(x^2 + y^2) / t" with
  | error failure =>
    rw [hc] at hok
    cases hok
  | ok e =>
    rw [hc] at hok
    simp only [Bool.and_eq_true, beq_iff_eq] at hok
    obtain ⟨⟨⟨hp, hu⟩, hfirst⟩, hsecond⟩ := hok
    cases hep : e.evaluate (journey 3 4 2) with
    | error failure =>
      rw [hep] at hfirst
      cases hfirst
    | ok p =>
      cases heq : e.evaluate (journey 1 1 7) with
      | error failure =>
        rw [heq] at hsecond
        cases hsecond
      | ok q =>
        have hd : e.SameDimensions (journey 3 4 2) (journey 1 1 7) := by
          intro name hn
          simp only [hu, List.mem_cons, List.not_mem_nil, or_false] at hn
          rcases hn with rfl | rfl | rfl <;> exact ⟨_, _, rfl, rfl, rfl⟩
        exact ⟨e, p, q, rfl, hp, hep, heq, (dimension_evaluate_congr hp hd).1 p q hep heq⟩

end Equation

end UnitCalculator
