import UnitCalculator.Quantity.Basic

/-!
# Functions of quantities

The functions that expressions can call, by name. The square root takes any dimension, all others
take pure numbers.
-/

namespace UnitCalculator

/-- A function that expressions can call. -/
inductive Function where
  | sqrt
  | ln
  | log
  | exp
  | transcendental (f : Transcendental)
  deriving DecidableEq

namespace Function

/-- The functions by name. -/
def table : List (String × Function) :=
  [("sqrt", .sqrt), ("ln", .ln), ("log", .log), ("exp", .exp),
    ("sin", .transcendental .sin), ("cos", .transcendental .cos), ("tan", .transcendental .tan),
    ("asin", .transcendental .asin), ("acos", .transcendental .acos),
    ("atan", .transcendental .atan), ("sinh", .transcendental .sinh),
    ("cosh", .transcendental .cosh), ("tanh", .transcendental .tanh),
    ("asinh", .transcendental .asinh), ("acosh", .transcendental .acosh),
    ("atanh", .transcendental .atanh)]

/-- Names of all functions. -/
def names : List String := table.map (·.1)

/-- The function of a name. -/
def ofName? (name : String) : Option Function := table.lookup name

end Function

namespace Quantity

/-- Value of a function that is evaluated in binary. -/
def transcendental (f : Transcendental) (name : String) (q : Quantity) : Outcome Quantity := do
  q.requireDimensionless
  match f.evaluate working q.value with
  | none => throw (.of (.outsideDomain (.invalidArgument name)))
  | some value => return number (← ofSignal value)

/-- Applies the function of a name. -/
def apply (name : String) (q : Quantity) : Outcome Quantity :=
  match Function.ofName? name with
  | none => .error (.malformed (.unknownFunction name))
  | some .sqrt => q.sqrt
  | some .ln => q.ln
  | some .log => q.log
  | some .exp => q.exp
  | some (.transcendental f) => q.transcendental f name

end Quantity

end UnitCalculator
