import UnitCalculator.Expression.Token

/-!
# Expression trees

Tokens are read into a tree with a stack of pending operators, functions and brackets. An operator
waits until one that binds no tighter follows, so stronger operators group first and equal ones to
the left. Every malformed sequence has a malformation of its own.
-/

namespace UnitCalculator

/-- An expression or an assignment. -/
inductive Tree where
  | leaf (token : Token)
  | call (function : String) (position : Nat) (operand : Tree)
  | binary (op : Operator) (position : Nat) (left right : Tree)
  deriving DecidableEq

namespace Tree

/-- The token that the root of a tree was made from. -/
def head : Tree → Token
  | .leaf token => token
  | .call function position _ => ⟨.function function, position⟩
  | .binary op position _ _ => ⟨.operator op, position⟩

/-- The tokens of a tree without brackets, a function before its operand and an operator between its
operands. -/
def tokens : Tree → List Token
  | .leaf token => [token]
  | .call function position operand => ⟨.function function, position⟩ :: operand.tokens
  | .binary op position left right => left.tokens ++ ⟨.operator op, position⟩ :: right.tokens

/-- What waits on the stack while tokens are read. -/
inductive Pending where
  | operator (op : Operator) (position : Nat)
  | function (name : String) (position : Nat)
  | bracket
  deriving DecidableEq

/-- Reading state: finished trees and what waits, the latest first. -/
structure Progress where
  output : List Tree
  stack : List Pending

/-- Combines finished trees under an operator or a function. -/
def combine (output : List Tree) : Pending → Except Malformation (List Tree)
  | .bracket => .error .unclosedBracket
  | .function name position =>
    match output with
    | operand :: others => .ok (.call name position operand :: others)
    | [] => .error (.missingArgument name)
  | .operator op position =>
    match output with
    | right :: left :: others => .ok (.binary op position left right :: others)
    | _ => .error (.missingOperand op.sign)

/-- Combines under all waiting operators that bind at least as tight as the next one. -/
def combineStronger (op : Operator) (output : List Tree) :
    List Pending → Except Malformation Progress
  | .operator waiting position :: stack =>
    if op.precedence ≤ waiting.precedence then do
      combineStronger op (← combine output (.operator waiting position)) stack
    else .ok ⟨output, .operator waiting position :: stack⟩
  | stack => .ok ⟨output, stack⟩

/-- Combines under all that waits since the last open bracket, and under the function before it. -/
def combineGroup (output : List Tree) : List Pending → Except Malformation Progress
  | [] => .error .unopenedBracket
  | .bracket :: .function name position :: stack => do
    return ⟨← combine output (.function name position), stack⟩
  | .bracket :: stack => .ok ⟨output, stack⟩
  | waiting :: stack => do combineGroup (← combine output waiting) stack

/-- Combines under all that waits at the end. -/
def combineAll (output : List Tree) : List Pending → Except Malformation (List Tree)
  | [] => .ok output
  | waiting :: stack => do combineAll (← combine output waiting) stack

/-- Reads one token; `next` is the one behind it. -/
def Progress.step (state : Progress) (token : Token) (next : Option Token) :
    Except Malformation Progress :=
  match token.lexeme with
  | .number .. | .lookup .. | .unit .. | .reference _ =>
    .ok { state with output := .leaf token :: state.output }
  | .function name =>
    if next.map (·.lexeme) = some .openBracket then
      .ok { state with stack := .function name token.position :: state.stack }
    else .error (.functionWithoutBracket name)
  | .openBracket => .ok { state with stack := .bracket :: state.stack }
  | .closeBracket => combineGroup state.output state.stack
  | .operator op => do
    let state ← combineStronger op state.output state.stack
    return { state with stack := .operator op token.position :: state.stack }

/-- Reads tokens one after the other. -/
def Progress.run (state : Progress) : List Token → Except Malformation Progress
  | [] => .ok state
  | token :: rest => do (← state.step token rest.head?).run rest

/-- A sign of assignment stands only behind a variable that comes first. -/
def assignmentAllowed : List Token → Bool
  | ⟨.reference _, _⟩ :: ⟨.operator .assign, _⟩ :: rest => !rest.any (·.isOperator .assign)
  | tokens => !tokens.any (·.isOperator .assign)

/-- The tree that tokens spell. -/
def ofTokens (tokens : List Token) : Except Malformation Tree := do
  if !assignmentAllowed tokens then throw .misplacedAssignment
  let final ← Progress.run ⟨[], []⟩ tokens
  match ← combineAll final.output final.stack with
  | [] => throw .emptyExpression
  | [tree] => return tree
  | _ => throw .missingOperator

/-- Variables that a tree reads, in order. -/
def references : Tree → List String
  | .leaf ⟨.reference name, _⟩ => [name]
  | .leaf _ => []
  | .call _ _ operand => operand.references
  | .binary _ _ left right => left.references ++ right.references

end Tree

end UnitCalculator
