import UnitCalculator.Decimal.Basic
import UnitCalculator.Text.Numeral

/-!
# Failures

A calculation that goes wrong names its cause. Every fault has a kind and a code, by which callers
tell faults apart, and a message. Besides faults, a decimal signal or a limit of number texts can
end an operation.
-/

namespace UnitCalculator

/-- An integer as text. -/
def intText (n : Int) : String := if n < 0 then "-" ++ n.natAbs.repr else n.natAbs.repr

/-- What is wrong with an expression, a formula or a number text. -/
inductive Malformation where
  | invalidNumber (text : String)
  | emptyLiteral
  | invalidVariableName (name : String)
  | unclosedLookup (name : String)
  | misplacedAssignment
  | functionWithoutBracket (name : String)
  | unopenedBracket
  | unclosedBracket
  | emptyExpression
  | missingOperator
  | missingArgument (function : String)
  | missingOperand (symbol : String)
  | unknownFunction (name : String)
  | noAssignment
  | unbalancedFormula
  deriving DecidableEq

/-- Sorts of symbol that a table may lack. -/
inductive SymbolSort where
  | constant
  | element
  | nuclide
  deriving DecidableEq

/-- Why a function has no value at its arguments. -/
inductive DomainFault where
  | invalidArgument (operation : String)
  | negativeSquareRoot
  | nonPositiveLogarithm
  | fractionalPowerOfNegative
  | arithmetic (signal : Signal)
  deriving DecidableEq

/-- What was divided by zero. -/
inductive ZeroDivision where
  | quotient
  | within (operation : String)
  | negativePower
  deriving DecidableEq

/-- Causes of a failed calculation. -/
inductive Fault where
  /-- Text that starts no token, with its position. -/
  | unrecognizedInput (text : String) (position : Nat)
  | malformed (cause : Malformation)
  | unknownSymbol (sort : SymbolSort) (symbol : String)
  | unknownUnit (symbol : String)
  /-- Two dimensions that do not fit, or a dimension and a power it cannot be raised to. -/
  | incompatible (left right : String)
  | undefinedVariable (name : String)
  /-- A variable that depends on itself, with the variables on the way back to it. -/
  | circularDependency (name : String) (cycle : List String)
  | conflictingDefinitions (name : String)
  | divisionByZero (cause : ZeroDivision)
  | outsideDomain (cause : DomainFault)
  | stableNuclide (label : String)
  deriving DecidableEq

/-- Name of a signal. -/
def Signal.name : Signal → String
  | .invalidOperation => "InvalidOperation"
  | .divisionByZero => "DivisionByZero"
  | .overflow => "Overflow"

/-- Name of a sort of symbol. -/
def SymbolSort.name : SymbolSort → String
  | .constant => "constant"
  | .element => "element"
  | .nuclide => "nuclide"

/-- Message of a malformation. -/
def Malformation.message : Malformation → String
  | .invalidNumber text => "Invalid number '" ++ text ++ "'"
  | .emptyLiteral => "Empty quantity literal"
  | .invalidVariableName name => "Invalid variable name '" ++ name ++ "'"
  | .unclosedLookup name => "Unclosed bracket in " ++ name ++ "(...)"
  | .misplacedAssignment => "'=' may only follow the assigned variable name"
  | .functionWithoutBracket name => "Function '" ++ name ++ "' must be followed by '('"
  | .unopenedBracket => "Mismatched ')'"
  | .unclosedBracket => "Mismatched '('"
  | .emptyExpression => "Empty expression"
  | .missingOperator => "Missing operator between operands"
  | .missingArgument function => "Missing argument for '" ++ function ++ "'"
  | .missingOperand symbol => "Missing operand for '" ++ symbol ++ "'"
  | .unknownFunction name => "Unknown function '" ++ name ++ "'"
  | .noAssignment => "Equation does not assign a variable"
  | .unbalancedFormula => "Unbalanced brackets in chemical formula"

/-- Message of a domain fault. -/
def DomainFault.message : DomainFault → String
  | .invalidArgument operation => "Invalid argument for " ++ operation
  | .negativeSquareRoot => "Square root of a negative value"
  | .nonPositiveLogarithm => "Logarithm of a non-positive value"
  | .fractionalPowerOfNegative => "Negative base raised to a non-integer power"
  | .arithmetic signal => "Arithmetic error: " ++ signal.name

/-- Message of a division by zero. -/
def ZeroDivision.message : ZeroDivision → String
  | .quotient => "Division by zero"
  | .within operation => "Division by zero in " ++ operation
  | .negativePower => "Zero raised to a negative power"

namespace Fault

/-- Kind of a fault, as results name it. -/
def kind : Fault → String
  | .unrecognizedInput .. => "LexError"
  | .malformed _ => "ParseError"
  | .unknownSymbol .. => "UnrecognizedSymbolError"
  | .unknownUnit _ => "UnitError"
  | .incompatible .. => "DimensionMismatchError"
  | .undefinedVariable _ => "UndefinedVariableError"
  | .circularDependency .. => "CircularDependencyError"
  | .conflictingDefinitions _ => "VariableConflictError"
  | .divisionByZero _ => "DivisionByZeroError"
  | .outsideDomain _ => "MathDomainError"
  | .stableNuclide _ => "StableNuclideError"

/-- Numeric code of a fault; faults of one kind share it. -/
def code : Fault → Nat
  | .unrecognizedInput .. => 3100
  | .malformed _ => 3200
  | .unknownSymbol .. => 3300
  | .unknownUnit _ => 3301
  | .incompatible .. => 3400
  | .undefinedVariable _ => 3500
  | .circularDependency .. => 3600
  | .conflictingDefinitions _ => 3601
  | .divisionByZero _ => 3003
  | .outsideDomain _ => 3004
  | .stableNuclide _ => 3302

/-- Message of a fault. -/
def message : Fault → String
  | .unrecognizedInput text position =>
    "Unrecognized input '" ++ text ++ "' at position " ++ position.repr
  | .malformed cause => cause.message
  | .unknownSymbol sort symbol => "Unrecognized " ++ sort.name ++ " '" ++ symbol ++ "'"
  | .unknownUnit symbol => "Unrecognized unit '" ++ symbol ++ "'"
  | .incompatible left right => "Incompatible dimensions: [" ++ left ++ "] and [" ++ right ++ "]"
  | .undefinedVariable name => "Variable '" ++ name ++ "' is not defined"
  | .circularDependency name cycle =>
    "Circular dependency on variable '" ++ name ++ "': " ++
      (if cycle.isEmpty then name else " -> ".intercalate cycle)
  | .conflictingDefinitions name => "Conflicting definitions for variable '" ++ name ++ "'"
  | .divisionByZero cause => cause.message
  | .outsideDomain cause => cause.message
  | .stableNuclide label => "Nuclide '" ++ label ++ "' is stable and has no half-life"

end Fault

/-- Why an operation has no result. -/
inductive Failure where
  /-- A fault, with the text of the equation it was found in where that is known. -/
  | fault (cause : Fault) (equation : Option String)
  /-- A decimal signal that the operation does not turn into a fault. -/
  | signal (cause : Signal)
  /-- An integer of more digits than number texts may have. -/
  | longNumeral
  /-- An infinite exponent of a dimension. -/
  | infiniteExponent
  /-- A dimension divided by zero. -/
  | zeroDivisor
  /-- Dimensions are made of seven exponents. -/
  | exponentCount (given : Nat)
  | unknownLookup (name : String)
  | unknownField (name : String)
  | indexOutOfRange
  /-- A signaling NaN has no double. -/
  | signalingNaN
  deriving DecidableEq

/-- A failure by a fault that is not tied to an equation. -/
def Failure.of (cause : Fault) : Failure := .fault cause none

/-- A failure by a malformation that is not tied to an equation. -/
def Failure.malformed (cause : Malformation) : Failure := .fault (.malformed cause) none

/-- Results of operations that can fail. -/
abbrev Outcome (α : Type) := Except Failure α

/-- A decimal result whose signal is passed on. -/
def ofSignal {α : Type} : Except Signal α → Outcome α
  | .ok value => .ok value
  | .error cause => .error (.signal cause)

/-- A decimal result whose signal becomes a fault of the operation. -/
def within {α : Type} (operation : String) : Except Signal α → Outcome α
  | .ok value => .ok value
  | .error .divisionByZero => .error (.of (.divisionByZero (.within operation)))
  | .error _ => .error (.of (.outsideDomain (.invalidArgument operation)))

/-- An integer that is written as text. -/
def isWritable (n : Int) : Bool := n.natAbs < pow10 Text.numeralDigits

end UnitCalculator
