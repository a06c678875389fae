import UnitCalculator.Quantity.Basic

/-!
# Tokens

An expression is a sequence of tokens. Numbers and units carry the quantities they stand for.
Besides the operators that are written there are two that are implied: the product of neighbouring
operands and the quotient of neighbouring units.
-/

namespace UnitCalculator

/-- Operators of expressions and the sign of assignment. -/
inductive Operator where
  | assign
  | add
  | subtract
  | multiply
  | divide
  | impliedMultiply
  | impliedDivide
  | power
  deriving DecidableEq

namespace Operator

/-- Name of an operator: its sign, marked where it is implied. -/
def symbol : Operator → String
  | .assign => "="
  | .add => "+"
  | .subtract => "-"
  | .multiply => "*"
  | .divide => "/"
  | .impliedMultiply => "implicit*"
  | .impliedDivide => "implicit/"
  | .power => "^"

/-- Sign of an operator, whether written or implied. -/
def sign : Operator → String
  | .impliedMultiply => "*"
  | .impliedDivide => "/"
  | op => op.symbol

/-- Binding strength. Operators of equal strength group to the left. -/
def precedence : Operator → Nat
  | .assign => 0
  | .add | .subtract => 1
  | .multiply | .divide => 2
  | .impliedMultiply | .impliedDivide => 3
  | .power => 4

/-- All operators. -/
def all : List Operator :=
  [.assign, .add, .subtract, .multiply, .divide, .impliedMultiply, .impliedDivide, .power]

/-- The operator of a name. -/
def ofSymbol? (symbol : String) : Option Operator := all.find? fun o => o.symbol = symbol

/-- The operator that a character writes. -/
def ofSign? (c : Char) : Option Operator := ofSymbol? (String.singleton c)

end Operator

/-- What a token says. -/
inductive Lexeme where
  /-- A number; its text is kept as it is written. -/
  | number (text : String) (value : Quantity)
  /-- A number that was looked up; its text is the call. -/
  | lookup (text : String) (value : Quantity)
  | unit (symbol : String) (value : Quantity)
  /-- A variable, read or assigned. -/
  | reference (name : String)
  | function (name : String)
  | operator (op : Operator)
  | openBracket
  | closeBracket
  deriving DecidableEq

namespace Lexeme

/-- The text of a lexeme. -/
def text : Lexeme → String
  | .number text _ => text
  | .lookup text _ => text
  | .unit symbol _ => symbol
  | .reference name => name
  | .function name => name
  | .operator op => op.symbol
  | .openBracket => "("
  | .closeBracket => ")"

/-- Names of the sorts of lexemes; a looked-up number is a number. -/
def sort : Lexeme → String
  | .number .. => "number"
  | .lookup .. => "number"
  | .unit .. => "unit"
  | .reference _ => "variable"
  | .function _ => "function"
  | .operator _ => "operator"
  | .openBracket => "lbracket"
  | .closeBracket => "rbracket"

/-- The quantity that a number or a unit stands for. -/
def value? : Lexeme → Option Quantity
  | .number _ value => some value
  | .lookup _ value => some value
  | .unit _ value => some value
  | _ => none

/-- Was looked up. -/
def isLookup : Lexeme → Bool
  | .lookup .. => true
  | _ => false

/-- A number, looked up or not. -/
def isNumber : Lexeme → Bool
  | .number .. | .lookup .. => true
  | _ => false

/-- A unit. -/
def isUnit : Lexeme → Bool
  | .unit .. => true
  | _ => false

/-- Ends an operand: another operand behind it is multiplied with it. -/
def endsOperand : Lexeme → Bool
  | .number .. | .lookup .. | .unit .. | .reference _ | .closeBracket => true
  | _ => false

/-- Starts an operand: an operand before it is multiplied with it. -/
def startsOperand : Lexeme → Bool
  | .number .. | .lookup .. | .unit .. | .reference _ | .openBracket | .function _ => true
  | _ => false

/-- Text of the number minus one that stands for a sign. -/
def negationText : String := "-"

/-- The number minus one that stands for a sign. -/
def negation : Lexeme := .number negationText (.number (.finite true 1 0))

end Lexeme

/-- A lexeme with its place in the text, counted in characters. -/
structure Token where
  lexeme : Lexeme
  position : Nat
  deriving DecidableEq

namespace Token

/-- An operator at a position. -/
def ofOperator (op : Operator) (position : Nat) : Token := ⟨.operator op, position⟩

/-- The token is a given operator. -/
def isOperator (op : Operator) (token : Token) : Bool := token.lexeme = .operator op

end Token

end UnitCalculator
