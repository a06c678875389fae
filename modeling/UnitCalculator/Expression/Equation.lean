import UnitCalculator.Expression.Evaluation
import UnitCalculator.Expression.Implied
import UnitCalculator.Expression.Rendering
import UnitCalculator.Expression.Scanner
import UnitCalculator.Text.Order

/-!
# Equations

An equation is an expression, or an assignment of one to a variable. Compiling a text splits it at
the first sign of assignment, scans it, folds signs, inserts implied operators and reads the tree.
-/

namespace UnitCalculator

/-- A compiled equation with the text it was compiled from. -/
structure Equation where
  root : Tree
  source : String
  deriving DecidableEq

namespace Equation

/-- The assigned variable. -/
def target? (e : Equation) : Option String :=
  match e.root with
  | .binary .assign _ left _ => some left.head.lexeme.text
  | _ => none

/-- The expression: the right side of an assignment. -/
def expression (e : Equation) : Tree :=
  match e.root with
  | .binary .assign _ _ right => right
  | root => root

/-- The equation assigns a variable. -/
def isAssignment (e : Equation) : Bool := e.target?.isSome

/-- The variables that the expression reads, in order, each once. -/
def usage (e : Equation) : List String := Text.sortNames e.expression.references

/-- The assigned variable, or a fault if there is none. -/
def assignedVariable (e : Equation) : Outcome String :=
  match e.target? with
  | some name => .ok name
  | none => .error (.fault (.malformed .noAssignment) (some e.source))

/-- The value of the expression. -/
def evaluate (e : Equation) (bindings : Bindings) : Outcome Quantity :=
  e.expression.evaluate bindings

/-- The equation in plain text. -/
def text (e : Equation) : String := e.root.text

/-- The equation in LaTeX. -/
def latex (e : Equation) (figures : Int) : Outcome String := e.root.latex figures

/-- The equation that tokens spell. -/
def ofTokens (tokens : List Token) (source : String) : Outcome Equation :=
  match Tree.ofTokens tokens with
  | .ok root => .ok ⟨root, source⟩
  | .error cause => .error (.fault (.malformed cause) (some source))

/-- The tokens of an assigned variable and the sign behind it, for the text before the sign. -/
def targetTokens (source : String) (before : List Char) : Outcome (List Token) :=
  let name := String.ofList (Text.trim before)
  if VariableName.isValid name then
    .ok [⟨.reference name, (before.takeWhile Text.isBlank).length⟩,
      .ofOperator .assign before.length]
  else .error (.fault (.malformed (.invalidVariableName name)) (some source))

/-- The scanned tokens of a text, with those of an assigned variable in front. -/
def scan (catalogue : Catalogue) (known : List String) (source : String) :
    Outcome (List Token) := do
  let text := source.toList
  let before := text.takeWhile (· ≠ '=')
  match text.drop before.length with
  | [] => Scanner.scan catalogue known source 0 text
  | _ :: after =>
    let target ← targetTokens source before
    let tokens ←
      Scanner.scan catalogue known (String.ofList after) (before.length + 1) after
    return target ++ tokens

/-- Folds signs and inserts implied operators. -/
def complete (tokens : List Token) : Outcome (List Token) := do
  return insertImplied none (← foldNegation none tokens)

/-- The tokens of a text, implied operators included. -/
def tokenize (catalogue : Catalogue) (known : List String) (source : String) :
    Outcome (List Token) := do
  complete (← scan catalogue known source)

/-- Compiles a text in which some variables are known. -/
def compile (catalogue : Catalogue) (known : List String) (source : String) :
    Outcome Equation := do
  ofTokens (← tokenize catalogue known source) source

end Equation

end UnitCalculator
