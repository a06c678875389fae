import UnitCalculator.Expression.Tree
import UnitCalculator.Quantity.Function

/-!
# Evaluating expressions

Operands are evaluated from left to right, and the first failure ends the evaluation.
-/

namespace UnitCalculator

/-- Values of variables. -/
abbrev Bindings := String → Option Quantity

/-- The value of a token that is an operand. -/
def Lexeme.evaluate (bindings : Bindings) (lexeme : Lexeme) : Outcome Quantity :=
  match lexeme with
  | .reference name =>
    match bindings name with
    | some value => .ok value
    | none => .error (.of (.undefinedVariable name))
  | _ => .ok (lexeme.value?.getD (.number (.ofNat 0)))

/-- The result of an operator; an assignment has the value of its right side. -/
def Operator.apply (op : Operator) (a b : Quantity) : Outcome Quantity :=
  match op with
  | .assign => .ok b
  | .add => a.add b
  | .subtract => a.subtract b
  | .multiply | .impliedMultiply => a.multiply b
  | .divide | .impliedDivide => a.divide b
  | .power => a.pow b

/-- The value of a tree. -/
def Tree.evaluate (bindings : Bindings) : Tree → Outcome Quantity
  | .leaf token => token.lexeme.evaluate bindings
  | .call function _ operand => do (← operand.evaluate bindings).apply function
  | .binary op _ left right =>
    if op = .assign then right.evaluate bindings
    else do
      let a ← left.evaluate bindings
      let b ← right.evaluate bindings
      op.apply a b

end UnitCalculator
