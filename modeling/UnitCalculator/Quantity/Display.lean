import UnitCalculator.Quantity.Basic

/-!
# Quantities for display

In plain text a quantity is its value in SI units followed by its dimension. In LaTeX it is shown
in the unit it was entered in, if it has one. A value of one is left out before a unit.
-/

namespace UnitCalculator

/-- A unit symbol in LaTeX. -/
def latexUnit (symbol : String) : String :=
  String.ofList (symbol.toList.flatMap fun c =>
    if c = 'Ω' then "\\Omega".toList else if c = 'μ' then "\\mu ".toList else [c])

namespace Quantity

/-- A quantity in plain text. -/
def text (q : Quantity) (figures : Int) : Outcome String := do
  if (← ofSignal (q.value.isEqual (.ofNat 1))) && !q.isDimensionless then
    q.dimension.text?
  else
    return (← ofSignal (q.value.display figures)) ++ (← q.dimension.text?)

/-- A quantity in LaTeX. -/
def latex (q : Quantity) (figures : Int) : Outcome String := do
  match q.unit with
  | some unit =>
    let coefficient ← ofSignal (working.divide q.value unit.scale)
    if ← ofSignal (coefficient.isEqual (.ofNat 1)) then return latexUnit unit.symbol
    let number ← ofSignal (coefficient.display figures)
    return Decimal.latexOfText number ++ latexUnit unit.symbol
  | none =>
    if (← ofSignal (q.value.isEqual (.ofNat 1))) && !q.isDimensionless then
      q.dimension.latex?
    else
      let number ← ofSignal (q.value.display figures)
      return Decimal.latexOfText number ++ (← q.dimension.latex?)

end Quantity

end UnitCalculator
