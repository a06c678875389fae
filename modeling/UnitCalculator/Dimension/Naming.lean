import UnitCalculator.Dimension.Basic

/-!
# Names of dimensions

Base quantities and many products of them have SI units with names of their own. A dimension is
written as the named unit that has exactly this dimension, if there is one, and otherwise as a
product of powers of base units, the mass first.
-/

namespace UnitCalculator

namespace Dimension

/-- Named SI units by which dimensions are written, base units first. -/
def namedUnits : List (String × Dimension) :=
  [("s", ⟨1, 0, 0, 0, 0, 0, 0⟩),
    ("m", ⟨0, 1, 0, 0, 0, 0, 0⟩),
    ("kg", ⟨0, 0, 1, 0, 0, 0, 0⟩),
    ("A", ⟨0, 0, 0, 1, 0, 0, 0⟩),
    ("K", ⟨0, 0, 0, 0, 1, 0, 0⟩),
    ("mol", ⟨0, 0, 0, 0, 0, 1, 0⟩),
    ("cd", ⟨0, 0, 0, 0, 0, 0, 1⟩),
    ("Hz", ⟨-1, 0, 0, 0, 0, 0, 0⟩),
    ("N", ⟨-2, 1, 1, 0, 0, 0, 0⟩),
    ("Pa", ⟨-2, -1, 1, 0, 0, 0, 0⟩),
    ("J", ⟨-2, 2, 1, 0, 0, 0, 0⟩),
    ("W", ⟨-3, 2, 1, 0, 0, 0, 0⟩),
    ("C", ⟨1, 0, 0, 1, 0, 0, 0⟩),
    ("V", ⟨-3, 2, 1, -1, 0, 0, 0⟩),
    ("F", ⟨4, -2, -1, 2, 0, 0, 0⟩),
    ("Ω", ⟨-3, 2, 1, -2, 0, 0, 0⟩),
    ("S", ⟨3, -2, -1, 2, 0, 0, 0⟩),
    ("Wb", ⟨-2, 2, 1, -1, 0, 0, 0⟩),
    ("T", ⟨-2, 0, 1, -1, 0, 0, 0⟩),
    ("H", ⟨-2, 2, 1, -2, 0, 0, 0⟩),
    ("Sv", ⟨-2, 2, 0, 0, 0, 0, 0⟩)]

/-- Named SI units that are read but never written: each has the dimension of another one, or, like
the lux, of none that is written by name. -/
def readOnlyUnits : List (String × Dimension) :=
  [("O", ⟨-3, 2, 1, -2, 0, 0, 0⟩),
    ("Bq", ⟨-1, 0, 0, 0, 0, 0, 0⟩),
    ("Gy", ⟨-2, 2, 0, 0, 0, 0, 0⟩),
    ("lm", ⟨0, 0, 0, 0, 0, 0, 1⟩),
    ("lx", ⟨0, -2, 0, 0, 0, 0, 1⟩)]

/-- All named SI units. -/
def symbols : List (String × Dimension) := namedUnits ++ readOnlyUnits

/-- The dimension of a named SI unit. -/
def ofSymbol? (symbol : String) : Option Dimension := symbols.lookup symbol

/-- The named SI unit by which a dimension is written. -/
def named? (d : Dimension) : Option String :=
  (namedUnits.find? fun entry => entry.2 = d).map (·.1)

/-- The base units with their exponents, in the order in which they are written. -/
def factors (d : Dimension) : List (String × Rat) :=
  [("kg", d.mass), ("m", d.length), ("s", d.time), ("A", d.current), ("K", d.temperature),
    ("mol", d.amount), ("cd", d.luminous)]

/-- Base units that occur, with their exponents. -/
def properFactors (d : Dimension) : List (String × Rat) :=
  d.factors.filter fun factor => factor.2 ≠ 0

/-- An exponent: an integer, or a fraction in brackets. -/
def exponentText (exponent : Rat) : String :=
  if exponent.den = 1 then intText exponent.num
  else "(" ++ intText exponent.num ++ "/" ++ exponent.den.repr ++ ")"

/-- A power of a base unit in plain text. -/
def factorText (factor : String × Rat) : String :=
  if factor.2 = 1 then factor.1 else factor.1 ++ "^" ++ exponentText factor.2

/-- A power of a base unit in LaTeX. -/
def factorLatex (factor : String × Rat) : String :=
  if factor.2 = 1 then factor.1 else factor.1 ++ "^\x7b" ++ exponentText factor.2 ++ "\x7d"

/-- A dimension in plain text. -/
def text (d : Dimension) : String :=
  match d.named? with
  | some symbol => symbol
  | none => " ".intercalate (d.properFactors.map factorText)

/-- A dimension in LaTeX. -/
def latex (d : Dimension) : String :=
  match d.named? with
  | some symbol => if symbol = "Ω" then "\\Omega" else symbol
  | none => "\\,".intercalate (d.properFactors.map factorLatex)

/-- No exponent that has to be written is too long. -/
def isWritable (d : Dimension) : Bool :=
  d.exponents.all fun e => UnitCalculator.isWritable e.num && UnitCalculator.isWritable e.den

/-- A dimension in plain text, unless an exponent is too long. -/
def text? (d : Dimension) : Outcome String :=
  if d.isWritable then .ok d.text else .error .longNumeral

/-- A dimension in LaTeX, unless an exponent is too long. -/
def latex? (d : Dimension) : Outcome String :=
  if d.isWritable then .ok d.latex else .error .longNumeral

end Dimension

end UnitCalculator
