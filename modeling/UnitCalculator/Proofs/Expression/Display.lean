import UnitCalculator.Expression.Rendering
import UnitCalculator.Proofs.Quantity.Display

/-!
# Expressions that can be shown

An expression has a LaTeX text exactly if all its numbers can be shown. Only the numbers that were
written are, not those that stand for units or lookups.
-/

namespace UnitCalculator

/-- A lexeme can be shown: it is a sign, or no number, or its number can be shown. -/
def Lexeme.IsShown (figures : Nat) : Lexeme → Prop
  | .number text value => text = negationText ∨ value.value.IsShown figures
  | _ => True

namespace Tree

/-- All numbers of an expression can be shown. -/
def IsShown (figures : Nat) : Tree → Prop
  | .leaf token => token.lexeme.IsShown figures
  | .call _ _ operand => operand.IsShown figures
  | .binary _ _ left right => left.IsShown figures ∧ right.IsShown figures

variable {figures : Nat} (hl : 0 < figures) (hu : figures < working.digits)

include hl hu

end Tree

end UnitCalculator
