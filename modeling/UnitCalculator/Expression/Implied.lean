import UnitCalculator.Expression.Token

/-!
# Signs and implied operators

A minus sign in front of an operand becomes part of a number, or the number minus one that
multiplies the operand. Behind a power sign minus one and its operand stand in brackets, since the
power binds tighter than the product. Operands side by side are multiplied, and a quotient of two
units binds as tight as such a product.
-/

namespace UnitCalculator

namespace Token

/-- Puts a token in front of the first part of split tokens. -/
def joinFirst (token : Token) (parts : List Token × List Token) : List Token × List Token :=
  (token :: parts.1, parts.2)

/-- Splits tokens behind the bracket that closes the current one, inside which one less than `depth`
others are open; all tokens come first if it is never closed. -/
def splitGroup : Nat → List Token → List Token × List Token
  | _, [] => ([], [])
  | depth, token :: rest =>
    match token.lexeme with
    | .openBracket => joinFirst token (splitGroup (depth + 1) rest)
    | .closeBracket =>
      if depth ≤ 1 then ([token], rest) else joinFirst token (splitGroup (depth - 1) rest)
    | _ => joinFirst token (splitGroup depth rest)

/-- Splits tokens behind the operand they start with: a bracketed group, a function with its group,
or a single token. -/
def splitOperand : List Token → List Token × List Token
  | [] => ([], [])
  | token :: rest =>
    match token.lexeme with
    | .openBracket => splitGroup 0 (token :: rest)
    | .function _ =>
      match rest with
      | [] => ([token], [])
      | next :: _ =>
        if next.lexeme = .openBracket then joinFirst token (splitGroup 0 rest)
        else ([token], rest)
    | _ => ([token], rest)

/-- Splitting a group loses no token. -/
theorem splitGroup_append (depth : Nat) (tokens : List Token) :
    (splitGroup depth tokens).1 ++ (splitGroup depth tokens).2 = tokens := by
  fun_induction splitGroup depth tokens <;> simp_all [joinFirst]

/-- Splitting an operand loses no token. -/
theorem splitOperand_append (tokens : List Token) :
    (splitOperand tokens).1 ++ (splitOperand tokens).2 = tokens := by
  unfold splitOperand
  repeat' split
  all_goals simp [joinFirst, splitGroup_append]

/-- Neither part is longer than the whole. -/
theorem splitOperand_length (tokens : List Token) :
    (splitOperand tokens).1.length ≤ tokens.length ∧
      (splitOperand tokens).2.length ≤ tokens.length := by
  have h := congrArg List.length (splitOperand_append tokens)
  simp only [List.length_append] at h
  omega

end Token

/-- The number with its sign changed. -/
def Lexeme.negated? : Lexeme → Option (Outcome Lexeme)
  | .number text value =>
    some (do return .number (negationText ++ text) (← value.negate))
  | .lookup text value =>
    some (do return .lookup (negationText ++ text) (← value.negate))
  | _ => none

/-- A minus sign behind this lexeme, or at the start, is a sign and no difference. -/
def Lexeme.allowsSign : Option Lexeme → Bool
  | none => true
  | some (.operator _) => true
  | some .openBracket => true
  | _ => false

/-- An operand that minus one can multiply. -/
def Lexeme.takesSign : Lexeme → Bool
  | .unit .. | .reference _ | .openBracket | .function _ => true
  | _ => false

/-- Folds minus signs into their operands, behind a given lexeme. -/
def foldNegation (previous : Option Lexeme) : List Token → Outcome (List Token)
  | [] => .ok []
  | token :: rest =>
    if token.isOperator .subtract && Lexeme.allowsSign previous then
      match rest with
      | [] => .ok [token]
      | operand :: after =>
        match operand.lexeme.negated? with
        | some negated => do
          let lexeme ← negated
          return ⟨lexeme, token.position⟩ :: (← foldNegation (some lexeme) after)
        | none =>
          if operand.lexeme.takesSign then
            if previous = some (.operator .power) then
              do
              let parts := Token.splitOperand (operand :: after)
              let folded ← foldNegation (some .negation) parts.1
              let last := (folded.getLast?.map (·.position)).getD token.position
              let behind ← foldNegation (some .closeBracket) parts.2
              return ⟨.openBracket, token.position⟩ :: ⟨.negation, token.position⟩ :: folded ++
                ⟨.closeBracket, last⟩ :: behind
            else
              do
              return ⟨.negation, token.position⟩ ::
                (← foldNegation (some .negation) (operand :: after))
          else do return token :: (← foldNegation (some token.lexeme) (operand :: after))
    else do return token :: (← foldNegation (some token.lexeme) rest)
termination_by tokens => tokens.length
decreasing_by all_goals grind [Token.splitOperand_length]

/-- A quotient sign between units binds like the product that is implied. -/
def bindUnits (previous : Option Lexeme) (token : Token) (rest : List Token) : Token :=
  if token.isOperator .divide && (previous.map Lexeme.isUnit).getD false &&
      (rest.head?.map (·.lexeme.isUnit)).getD false then
    .ofOperator .impliedDivide token.position
  else token

/-- Inserts the implied products and marks the quotients of units, behind a given lexeme. -/
def insertImplied (previous : Option Lexeme) : List Token → List Token
  | [] => []
  | token :: rest =>
    let bound := bindUnits previous token rest
    let inserted := bound :: insertImplied (some bound.lexeme) rest
    if (previous.map Lexeme.endsOperand).getD false && token.lexeme.startsOperand then
      .ofOperator .impliedMultiply token.position :: inserted
    else inserted

end UnitCalculator
