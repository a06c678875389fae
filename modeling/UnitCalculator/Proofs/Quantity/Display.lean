import UnitCalculator.Proofs.Decimal.Display
import UnitCalculator.Quantity.Display

/-!
# Quantities that can be shown

A quantity has a text exactly if its value can be shown and no exponent of its dimension is too
long. In LaTeX the value in the unit for display has to be shown as well, if there is one.
-/

namespace UnitCalculator

/-- A decimal result whose signal is passed on. -/
theorem ofSignal_eq_ok_iff {α : Type} {x : Except Signal α} {a : α} :
    ofSignal x = .ok a ↔ x = .ok a := by
  cases x with
  | error signal => simp [ofSignal]
  | ok value => simp [ofSignal]

namespace Decimal

variable {value : Decimal} {figures : Nat}

end Decimal

namespace Quantity

/-- A quantity can be shown in significant figures: its value can, the exponents of its dimension
can be written, and its value in the unit for display, if it has one, can be shown. -/
structure IsShown (figures : Nat) (q : Quantity) : Prop where
  value : q.value.IsShown figures
  dimension : q.dimension.isWritable = true
  coefficient : ∀ unit, q.unit = some unit → ∃ coefficient,
    working.divide q.value unit.scale = .ok coefficient ∧ coefficient.IsShown figures

section

variable {q : Quantity} {figures : Nat} (hl : 0 < figures) (hu : figures < working.digits)

include hl hu

end

end Quantity

end UnitCalculator
