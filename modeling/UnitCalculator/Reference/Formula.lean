import UnitCalculator.Reference.Element
import UnitCalculator.Text.Blank
import UnitCalculator.Text.Digit

/-!
# Chemical formulas

A formula is made of element symbols, brackets of two kinds and numbers. It is read from right to
left: a number is kept until the next element or closing bracket to its left, which it multiplies,
or until the start, where it multiplies the whole. The result is a tree of elements and groups, each
with a count.
-/

namespace UnitCalculator.Reference

/-- Parts of a formula text. -/
inductive FormulaToken where
  | number (digits : String)
  | element (symbol : String)
  | openBracket (sign : Char)
  | closeBracket (sign : Char)
  deriving DecidableEq

/-- A formula: an element or a group, taken a number of times. -/
inductive Formula where
  | element (symbol : String) (count : Nat)
  | group (components : List Formula) (count : Nat)

namespace FormulaToken

/-- The text of a token. -/
def text : FormulaToken → String
  | .number digits => digits
  | .element symbol => symbol
  | .openBracket sign => String.singleton sign
  | .closeBracket sign => String.singleton sign

/-- The text that starts no token: a run of letters or a single character. -/
def rejected (c : Char) (rest : List Char) : String :=
  if Text.isLatinLetter c then String.ofList (c :: rest.takeWhile Text.isLatinLetter)
  else String.singleton c

/-- Splits a formula text into tokens; the longest symbol wins. -/
def scan (table : ElementTable) : List Char → Outcome (List FormulaToken)
  | [] => .ok []
  | c :: rest =>
    if Text.isBlank c then scan table rest
    else if Text.isDecimalDigit c then
      let more := rest.takeWhile Text.isDecimalDigit
      return .number (String.ofList (c :: more)) :: (← scan table (rest.drop more.length))
    else if c = '(' ∨ c = '[' then return .openBracket c :: (← scan table rest)
    else if c = ')' ∨ c = ']' then return .closeBracket c :: (← scan table rest)
    else match table.symbolAt? (c :: rest) with
      | none => .error (.of (.unknownSymbol .element (rejected c rest)))
      | some symbol =>
        if symbol.isEmpty then .error (.of (.unknownSymbol .element (rejected c rest)))
        else
          return .element symbol :: (← scan table (rest.drop (symbol.length - 1)))
termination_by text => text.length
decreasing_by all_goals simp only [List.length_cons, List.length_drop]; omega

end FormulaToken

namespace Formula

/-- The number that a run of digits spells, unless it is too long. -/
def countOf (digits : String) : Outcome Nat :=
  if Text.numeralDigits < digits.length then .error .longNumeral
  else .ok ((Text.digitsValue? digits.toList).getD 0)

/-- An open group: its count and the components to the right of it, read so far, belong to the
group around it. -/
structure OpenGroup where
  count : Nat
  outer : List Formula

/-- Reading from right to left: the components read since the innermost closing bracket, the open
groups and the number kept. -/
structure Progress where
  components : List Formula
  groups : List OpenGroup
  count : Nat

/-- Reads one more token to the left. -/
def Progress.step (state : Progress) : FormulaToken → Outcome Progress
  | .number digits => do return { state with count := ← countOf digits }
  | .element symbol =>
    .ok ⟨.element symbol state.count :: state.components, state.groups, 1⟩
  | .closeBracket _ => .ok ⟨[], ⟨state.count, state.components⟩ :: state.groups, 1⟩
  | .openBracket _ =>
    match state.groups with
    | [] => .error (.malformed .unbalancedFormula)
    | inner :: groups =>
      .ok ⟨.group state.components inner.count :: inner.outer, groups, state.count⟩

/-- Reads tokens from right to left, the last one first. -/
def Progress.run (state : Progress) : List FormulaToken → Outcome Progress
  | [] => .ok state
  | token :: left => do (← state.step token).run left

/-- The formula that tokens spell. -/
def ofTokens (tokens : List FormulaToken) : Outcome Formula := do
  let final ← Progress.run ⟨[], [], 1⟩ tokens.reverse
  if final.groups.isEmpty then return .group final.components final.count
  else throw (.malformed .unbalancedFormula)

/-- The formula that a text spells. -/
def ofText (table : ElementTable) (text : String) : Outcome Formula := do
  ofTokens (← FormulaToken.scan table text.toList)

mutual

/-- The molar mass of a formula. -/
def molarMass (table : ElementTable) : Formula → Outcome Quantity
  | .element symbol count => do
    (← table.molarMass symbol).multiply (.number (.ofNat count))
  | .group components count => do
    (← sumMolarMass table (.of (.ofNat 0) ElementTable.molar) components).multiply
      (.number (.ofNat count))

/-- Adds the molar masses of formulas to a sum, from left to right. -/
def sumMolarMass (table : ElementTable) (sum : Quantity) : List Formula → Outcome Quantity
  | [] => .ok sum
  | component :: components => do
    sumMolarMass table (← sum.add (← molarMass table component)) components

end

/-- A count behind an element or a group, left out if it is one. -/
def countText (count : Nat) : String := if count = 1 then "" else count.repr

mutual

/-- Text of a component. -/
def componentText : Formula → String
  | .element symbol count => symbol ++ countText count
  | .group components count => "(" ++ componentsText components ++ ")" ++ countText count

/-- Text of components side by side. -/
def componentsText : List Formula → String
  | [] => ""
  | component :: components => componentText component ++ componentsText components

end

/-- Text of a whole formula: its count stands in front. -/
def text : Formula → String
  | .element symbol count => symbol ++ countText count
  | .group components count => countText count ++ componentsText components

end Formula

end UnitCalculator.Reference
