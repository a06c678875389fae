import UnitCalculator.Expression.Equation
import UnitCalculator.Graph.Order

/-!
# Dependencies between equations

An equation depends on the one that assigns a variable it reads. Equations are put in an order in
which every variable is assigned before it is read. There is none if two equations assign the same
variable or if some depend on each other in a cycle.
-/

namespace UnitCalculator

/-- An equation with its place among others, which tells equal equations apart. -/
structure Entry where
  place : Nat
  equation : Equation
  deriving DecidableEq

namespace Entry

/-- Entries of equations in their given order. -/
def ofEquations (equations : List Equation) : List Entry :=
  equations.zipIdx.map fun (equation, place) => ⟨place, equation⟩

/-- The variable that an entry assigns. -/
def target? (entry : Entry) : Option String := entry.equation.target?

/-- The entry reads a variable. -/
def reads (entry : Entry) (name : String) : Bool := entry.equation.usage.contains name

/-- The entries that read what an entry assigns. -/
def dependents (entries : List Entry) (entry : Entry) : List Entry :=
  match entry.target? with
  | none => []
  | some name => entries.filter (·.reads name)

end Entry

/-- Why equations have no order. -/
inductive Disorder where
  /-- An entry that assigns a variable which an earlier one assigns. -/
  | conflict (entry : Entry)
  | cycle (members : Graph.Cycle Entry)
  deriving DecidableEq

namespace Disorder

/-- The entry at which a disorder shows: the later one of a conflict, or the first of a cycle. -/
def entry? : Disorder → Option Entry
  | .conflict entry => some entry
  | .cycle members => members.head?

/-- The variables on the way around a cycle, the first one again at the end. -/
def path : Disorder → List String
  | .conflict _ => []
  | .cycle members => (members ++ members.take 1).filterMap (·.target?)

/-- The fault that a disorder is. -/
def fault (disorder : Disorder) : Fault :=
  let name := (disorder.entry?.bind (·.target?)).getD ""
  match disorder with
  | .conflict _ => .conflictingDefinitions name
  | .cycle _ => .circularDependency name disorder.path

/-- The failure that a disorder is. -/
def failure (disorder : Disorder) : Failure :=
  .fault disorder.fault (disorder.entry?.map (·.equation.source))

end Disorder

namespace Dependency

/-- The first entry that assigns a variable assigned before it, given those assigned so far. -/
def conflict? (assigned : List String) : List Entry → Option Entry
  | [] => none
  | entry :: entries =>
    match entry.target? with
    | none => conflict? assigned entries
    | some name =>
      if name ∈ assigned then some entry else conflict? (name :: assigned) entries

/-- The entries in an order in which every variable is assigned before it is read. -/
def order (entries : List Entry) : Except Disorder (List Entry) :=
  match conflict? [] entries with
  | some entry => .error (.conflict entry)
  | none => (Graph.order entries (Entry.dependents entries)).mapError .cycle

/-- The variables that entries read, each with the entries that read it. -/
def readers (entries : List Entry) : List (String × List Entry) :=
  (Text.sortNames (entries.flatMap (·.equation.usage))).map fun name =>
    (name, entries.filter (·.reads name))

end Dependency

end UnitCalculator
