import UnitCalculator.Expression.Tree
import UnitCalculator.Quantity.Display

/-!
# Writing expressions

A tree is written with the brackets that its grouping needs: around an operand that binds less
tight than its operator, and around a right operand that binds equally. LaTeX shows quotients as
fractions and exponents raised, which need none, and puts the base of a power in brackets if it is
an operation or a function or starts with a minus sign.
-/

namespace UnitCalculator

namespace Tree

/-- Binding strength of trees that are no operation, above that of all operators. -/
def atomStrength : Nat := 5

/-- Binding strength of a tree. -/
def strength : Tree → Nat
  | .binary op .. => op.precedence
  | _ => atomStrength

/-- A left operand of an operator that needs brackets. -/
def leftNeedsBrackets (op : Operator) (left : Tree) : Bool := left.strength < op.precedence

/-- A right operand of an operator that needs brackets. -/
def rightNeedsBrackets (op : Operator) (right : Tree) : Bool := right.strength ≤ op.precedence

/-- The number minus one that stands for a sign. -/
def isNegation : Tree → Bool
  | .leaf token => token.lexeme.text = Lexeme.negationText
  | _ => false

/-- A number. -/
def isNumber : Tree → Bool
  | .leaf token => token.lexeme.isNumber
  | _ => false

/-- A unit. -/
def isUnit : Tree → Bool
  | .leaf token => token.lexeme.isUnit
  | _ => false

/-- An operation. -/
def isBinary : Tree → Bool
  | .binary .. => true
  | _ => false

/-- A single operand. -/
def isLeaf : Tree → Bool
  | .leaf _ => true
  | _ => false

/-- Puts a text in brackets if it needs them. -/
def bracketed (needed : Bool) (text : String) : String :=
  if needed then "(" ++ text ++ ")" else text

/-- Joins the texts of two operands. -/
def joinText (op : Operator) (left right : Tree) (leftText rightText : String) : String :=
  match op with
  | .assign => leftText ++ " = " ++ rightText
  | .impliedMultiply =>
    if left.isNegation then "-" ++ rightText
    else if left.isNumber && right.isUnit then leftText ++ rightText
    else leftText ++ " " ++ rightText
  | .impliedDivide => leftText ++ "/" ++ rightText
  | .power => leftText ++ "^" ++ rightText
  | op => leftText ++ " " ++ op.symbol ++ " " ++ rightText

/-- A tree in plain text. -/
def text : Tree → String
  | .leaf token => token.lexeme.text
  | .call function _ operand => function ++ "(" ++ operand.text ++ ")"
  | .binary op _ left right =>
    joinText op left right
      (bracketed (op ≠ .assign && leftNeedsBrackets op left) left.text)
      (bracketed (op ≠ .assign && rightNeedsBrackets op right) right.text)

/-- A single operand in LaTeX. -/
def leafLatex (lexeme : Lexeme) (figures : Int) : Outcome String :=
  match lexeme with
  | .unit symbol _ => .ok (latexUnit symbol)
  | .lookup text _ => .ok ("\\textrm\x7b" ++ text ++ "\x7d")
  | .number text value =>
    if text = Lexeme.negationText then .ok text
    else do return Decimal.latexOfText (← ofSignal (value.value.display figures))
  | lexeme => .ok lexeme.text

/-- Brackets that grow with what they enclose. -/
def latexBrackets (text : String) : String := "\\left(" ++ text ++ "\\right)"

/-- Puts a text in growing brackets if it needs them. -/
def latexBracketed (needed : Bool) (text : String) : String :=
  if needed then latexBrackets text else text

/-- A text in braces. -/
def braced (text : String) : String := "\x7b" ++ text ++ "\x7d"

/-- An implied product in LaTeX. -/
def productLatex (left right : Tree) (leftText rightText : String) : String :=
  if left.isNegation then "-" ++ latexBracketed right.isBinary rightText
  else
    let factor := latexBracketed (leftNeedsBrackets .impliedMultiply left) leftText
    if right.isUnit then factor ++ "\\: " ++ rightText
    else if right.isNumber || right.isBinary then factor ++ latexBrackets rightText
    else factor ++ " " ++ rightText

/-- The base of a power has brackets if it is an operation or a function or its text starts with a
minus sign. -/
def baseNeedsBrackets (base : Tree) (text : String) : Bool :=
  !base.isLeaf || text.toList.head? = some '-'

/-- Joins the LaTeX texts of two operands. -/
def joinLatex (op : Operator) (left right : Tree) (leftText rightText : String) : String :=
  match op with
  | .assign => leftText ++ " = " ++ rightText
  | .divide | .impliedDivide => "\\frac" ++ braced leftText ++ braced rightText
  | .power =>
    braced (latexBracketed (baseNeedsBrackets left leftText) leftText) ++ "^" ++ braced rightText
  | .impliedMultiply => productLatex left right leftText rightText
  | op =>
    latexBracketed (leftNeedsBrackets op left) leftText ++
      (if op = .multiply then " \\cdot " else " " ++ op.symbol ++ " ") ++
      latexBracketed (rightNeedsBrackets op right) rightText

/-- A tree in LaTeX. -/
def latex (figures : Int) : Tree → Outcome String
  | .leaf token => leafLatex token.lexeme figures
  | .call function _ operand => do
    let inner ← operand.latex figures
    if function = "sqrt" then return "\\sqrt" ++ braced inner
    return "\\textrm" ++ braced function ++ latexBrackets inner
  | .binary op _ left right => do
    let leftText ← left.latex figures
    let rightText ← right.latex figures
    return joinLatex op left right leftText rightText

end Tree

end UnitCalculator
