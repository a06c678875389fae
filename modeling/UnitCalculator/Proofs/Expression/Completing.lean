import UnitCalculator.Proofs.Expression.Insertion
import UnitCalculator.Proofs.Expression.Parsing

/-!
# Completing the tokens of operands

Signs are folded and operators inserted in one part of an expression independently of what follows
it. What happens to an operation follows from what happens to its operands.
-/

namespace UnitCalculator

open Grammar

/-- Behind a lexeme, or at the beginning, no product is implied. -/
def StartsOperand (previous : Option Lexeme) : Prop :=
  (previous.map Lexeme.endsOperand).getD false = false

/-- A sign at the start of some tokens is folded behind a given lexeme; behind a power sign only if
they are a single number. -/
def AcceptsSign (leaf : Bool) (previous : Option Lexeme) (raw : List Token) : Prop :=
  raw.head?.map (·.lexeme) = some (.operator .subtract) →
    Lexeme.allowsSign previous = true ∧ (leaf = false → previous ≠ some (.operator .power))

/-- Tokens are folded and completed on their own wherever an operand can start. -/
structure Completes (leaf : Bool) (raw mid out : List Token) (last : Lexeme) : Prop where
  /-- Signs are folded on their own. -/
  folds : ∀ {previous : Option Lexeme} {behind folded : List Token},
    StartsOperand previous → AcceptsSign leaf previous raw → Folds (some last) behind folded →
      Folds previous (raw ++ behind) (mid ++ folded)
  /-- Operators are inserted on their own. -/
  inserts : ∀ {previous : Option Lexeme} (folded : List Token), StartsOperand previous →
    insertImplied previous (mid ++ folded) = out ++ insertImplied (some last) folded
  /-- An operand starts, a unit where the tokens before folding start with one. -/
  starts : ∃ first rest first' rest', raw = first :: rest ∧ mid = first' :: rest' ∧
    first'.lexeme.startsOperand = true ∧ first'.lexeme.isUnit = first.lexeme.isUnit
  /-- An operand ends. -/
  ends : last.endsOperand = true

variable {leaf leafLeft leafRight : Bool} {raw mid out left right midLeft midRight : List Token}
variable {outLeft outRight : List Token} {last lastLeft lastRight : Lexeme}

/-- A token that starts an operand is no operator. -/
theorem Lexeme.ne_operator_of_startsOperand {lexeme : Lexeme} (h : lexeme.startsOperand = true)
    (op : Operator) : lexeme ≠ .operator op := by
  rintro rfl
  cases h

/-- Nothing is inserted before a token where an operand can start. -/
theorem insertImplied_cons {previous : Option Lexeme} {token : Token} (rest : List Token)
    (hp : StartsOperand previous) (ht : token.lexeme ≠ .operator .divide) :
    insertImplied previous (token :: rest) = token :: insertImplied (some token.lexeme) rest := by
  have hb : bindUnits previous token rest = token := by
    rcases bindUnits_cases previous token rest with hb | ⟨hd, -⟩
    · exact hb
    · exact absurd hd ht
  rw [insertImplied, hb, hp]
  rfl

/-- A product is inserted between two operands. -/
theorem insertImplied_product {lexeme : Lexeme} {token : Token} (rest : List Token)
    (hl : lexeme.endsOperand = true) (ht : token.lexeme.startsOperand = true) :
    insertImplied (some lexeme) (token :: rest) =
      .ofOperator .impliedMultiply token.position ::
        insertImplied (some (.operator .impliedMultiply)) (token :: rest) := by
  have hb : ∀ previous, bindUnits previous token rest = token := by
    intro previous
    rcases bindUnits_cases previous token rest with hb | ⟨hd, -⟩
    · exact hb
    · exact absurd hd (Lexeme.ne_operator_of_startsOperand ht _)
  have hstart : StartsOperand (some (.operator .impliedMultiply)) := rfl
  rw [insertImplied_cons rest hstart (Lexeme.ne_operator_of_startsOperand ht _), insertImplied, hb]
  simp [hl, ht]

/-- A token that is no sign is folded in the same way behind every lexeme. -/
theorem Folds.of_head {previous other : Option Lexeme} {token : Token} {rest folded : List Token}
    (ht : token.lexeme ≠ .operator .subtract) (h : Folds previous (token :: rest) folded) :
    Folds other (token :: rest) folded := by
  cases h with
  | keep hs h => exact .keep (fun he => absurd he ht) h
  | number p hs hn h => exact absurd rfl ht
  | factor p hs hp ho h => exact absurd rfl ht
  | group p ho hs h hb => exact absurd rfl ht

/-- A number without sign, a unit or a variable is completed to itself. -/
theorem completes_single {token : Token} (h : token.lexeme.isSingle = true) (leaf : Bool) :
    Completes leaf [token] [token] [token] token.lexeme := by
  obtain ⟨hj, hs, he⟩ := Lexeme.of_isSingle h
  have hop := Lexeme.ne_operator_of_startsOperand hs
  exact ⟨fun _ _ hf => .keep (fun ho => absurd ho (hop _)) hf,
    fun folded hp => insertImplied_cons folded hp (hop _),
    ⟨token, [], token, [], rfl, rfl, hs, rfl⟩, he⟩

/-- A number is a single operand, takes no sign as a factor and is no unit. -/
theorem Lexeme.of_isNumber {lexeme : Lexeme} (h : lexeme.isNumber = true) :
    lexeme.isSingle = true ∧ lexeme.takesSign = false ∧ lexeme.isUnit = false := by
  cases lexeme <;> first | exact ⟨rfl, rfl, rfl⟩ | cases h

/-- A number starts and ends an operand. -/
theorem Lexeme.startsOperand_of_isNumber {number : Lexeme} (h : number.isNumber = true) :
    number.startsOperand = true ∧ number.endsOperand = true :=
  (of_isSingle (of_isNumber h).1).2

/-- A number with its sign is completed to the number with the sign folded. -/
theorem completes_signed {number negated : Lexeme} (p q : Nat)
    (hn : number.negated? = some (.ok negated)) (leaf : Bool) :
    Completes leaf [⟨.operator .subtract, p⟩, ⟨number, q⟩] [⟨negated, p⟩] [⟨negated, p⟩]
      negated := by
  have hnumber := (Lexeme.text_of_negated? hn).2
  obtain ⟨hsingle, -, hunit⟩ := Lexeme.of_isNumber hnumber
  obtain ⟨-, hstart, hend⟩ := Lexeme.of_isSingle hsingle
  have hop := Lexeme.ne_operator_of_startsOperand hstart
  refine ⟨fun _ ha hf => .number p (ha rfl).1 hn hf,
    fun folded hp => insertImplied_cons folded hp (hop _),
    ⟨_, _, _, _, rfl, rfl, hstart, hunit⟩, hend⟩

/-- Tokens in brackets are completed on their own. -/
theorem Completes.bracketed (h : Completes leaf raw mid out last) (p q : Nat) :
    Completes true (⟨.openBracket, p⟩ :: raw ++ [⟨.closeBracket, q⟩])
      (⟨.openBracket, p⟩ :: mid ++ [⟨.closeBracket, q⟩])
      (⟨.openBracket, p⟩ :: out ++ [⟨.closeBracket, q⟩]) .closeBracket := by
  refine ⟨fun {previous behind folded} _ _ hf => ?_, fun {previous} folded hp => ?_,
    ⟨_, _, _, _, rfl, rfl, rfl, rfl⟩, rfl⟩
  · have hclose : Folds (some last) (⟨.closeBracket, q⟩ :: behind)
        (⟨.closeBracket, q⟩ :: folded) := .keep (fun he => by cases he) hf
    have hinner : Folds (some .openBracket) (raw ++ ⟨.closeBracket, q⟩ :: behind)
        (mid ++ ⟨.closeBracket, q⟩ :: folded) :=
      h.folds rfl (fun _ => ⟨rfl, fun _ he => by cases he⟩) hclose
    simp only [List.cons_append, List.append_assoc, List.nil_append]
    exact .keep (fun he => by cases he) hinner
  · have hinner := h.inserts (⟨.closeBracket, q⟩ :: folded)
      (rfl : StartsOperand (some .openBracket))
    simp only [List.cons_append, List.append_assoc, List.nil_append]
    rw [insertImplied_cons _ hp (fun he => by cases he), hinner]
    simp [insertImplied, bindUnits, Token.isOperator, Lexeme.startsOperand]

/-- A function is completed with its operand. -/
theorem Completes.call (h : Completes leaf raw mid out last) (name : String) (p q r : Nat) :
    Completes false (⟨.function name, p⟩ :: ⟨.openBracket, q⟩ :: raw ++ [⟨.closeBracket, r⟩])
      (⟨.function name, p⟩ :: ⟨.openBracket, q⟩ :: mid ++ [⟨.closeBracket, r⟩])
      (⟨.function name, p⟩ :: ⟨.openBracket, q⟩ :: out ++ [⟨.closeBracket, r⟩])
      .closeBracket := by
  have hgroup := h.bracketed q r
  refine ⟨fun {previous behind folded} _ _ hf => ?_, fun {previous} folded hp => ?_,
    ⟨_, _, _, _, rfl, rfl, rfl, rfl⟩, rfl⟩
  · have hinner := hgroup.folds (rfl : StartsOperand (some (.function name)))
      (fun he => by cases he) hf
    exact .keep (fun he => by cases he) hinner
  · have hinner := hgroup.inserts folded (rfl : StartsOperand (some (.function name)))
    simp only [List.cons_append] at hinner ⊢
    rw [insertImplied_cons _ hp (fun he => by cases he), hinner]

/-- Where a product is implied two operands are completed one after the other. -/
theorem Completes.product (hl : Completes leafLeft left midLeft outLeft lastLeft)
    (hr : Completes leafRight right midRight outRight lastRight)
    (hs : right.head?.map (·.lexeme) ≠ some (.operator .subtract)) :
    ∃ p, Completes false (left ++ right) (midLeft ++ midRight)
      (outLeft ++ ⟨.operator .impliedMultiply, p⟩ :: outRight) lastRight := by
  obtain ⟨firstLeft, restLeft, firstLeft', restLeft', rfl, rfl, hstart, hunit⟩ := hl.starts
  obtain ⟨first, rest, first', rest', rfl, rfl, hstart', -⟩ := hr.starts
  refine ⟨first'.position, fun {previous behind folded} hp ha hf => ?_,
    fun {previous} folded hp => ?_, ⟨_, _, _, _, rfl, rfl, hstart, hunit⟩, hr.ends⟩
  · have hright : Folds (some (.operator .impliedMultiply)) (first :: rest ++ behind)
        (first' :: rest' ++ folded) := hr.folds rfl (fun he => absurd he hs) hf
    have hleft := hl.folds hp (fun he => ⟨(ha he).1, fun _ => (ha he).2 rfl⟩)
      (Folds.of_head (fun he => hs (congrArg some he)) hright)
    rw [List.append_assoc, List.append_assoc]
    exact hleft
  · have hright := hr.inserts folded (rfl : StartsOperand (some (.operator .impliedMultiply)))
    have hleft := hl.inserts (first' :: rest' ++ folded) hp
    rw [List.append_assoc, hleft, List.cons_append, insertImplied_product _ hl.ends hstart']
    rw [List.cons_append] at hright
    rw [hright, List.append_assoc]
    rfl

/-- A sign in front of an operand that takes it as a factor is completed to that factor. -/
theorem Completes.negation (h : Completes leaf raw mid out last) (p : Nat)
    (ht : ∀ first ∈ raw.head?, first.lexeme.takesSign = true) :
    ∃ q, Completes false (⟨.operator .subtract, p⟩ :: raw) (⟨.negation, p⟩ :: mid)
      (⟨.negation, p⟩ :: ⟨.operator .impliedMultiply, q⟩ :: out) last := by
  obtain ⟨first, rest, first', rest', rfl, rfl, hstart, -⟩ := h.starts
  have htakes : first.lexeme.takesSign = true := ht first rfl
  have hs : first.lexeme ≠ .operator .subtract := by
    intro he
    rw [he] at htakes
    cases htakes
  refine ⟨first'.position, fun {previous behind folded} hp ha hf => ?_,
    fun {previous} folded hp => ?_, ⟨_, _, _, _, rfl, rfl, rfl, rfl⟩, h.ends⟩
  · have hinner : Folds (some (.operator .impliedMultiply)) (first :: rest ++ behind)
        (first' :: rest' ++ folded) :=
      h.folds rfl (fun he => absurd (Option.some.inj he) hs) hf
    obtain ⟨hallows, hpower⟩ := ha rfl
    exact .factor p hallows (hpower rfl) htakes (Folds.of_head hs hinner)
  · have hinner := h.inserts folded (rfl : StartsOperand (some (.operator .impliedMultiply)))
    rw [List.cons_append] at hinner
    have hends : Lexeme.negation.endsOperand = true := rfl
    rw [List.cons_append, List.cons_append, insertImplied_cons _ hp (fun he => by cases he),
      insertImplied_product _ hends hstart, hinner]
    rfl

/-- The operator that is read between two operands: a quotient sign between units is an implied
one. -/
def readOperator (written : Operator) (before behind : Lexeme) : Operator :=
  if written = .divide && before.isUnit && behind.isUnit then .impliedDivide else written

/-- An operator between two operands is bound as it is read. -/
theorem insertImplied_operator {op : Operator} {p : Nat} {token : Token} (rest : List Token)
    (last : Lexeme) :
    insertImplied (some last) (⟨.operator op, p⟩ :: token :: rest) =
      ⟨.operator (readOperator op last token.lexeme), p⟩ ::
        insertImplied (some (.operator (readOperator op last token.lexeme))) (token :: rest) := by
  have hbound : bindUnits (some last) ⟨.operator op, p⟩ (token :: rest) =
      ⟨.operator (readOperator op last token.lexeme), p⟩ := by
    simp only [bindUnits, readOperator, Token.isOperator, Option.map_some, Option.getD_some,
      List.head?_cons, Lexeme.operator.injEq]
    split
    · rfl
    · rfl
  rw [insertImplied, hbound]
  simp [Lexeme.startsOperand]

/-- No sign is folded behind an operand. -/
theorem Lexeme.allowsSign_of_endsOperand {lexeme : Lexeme} (h : lexeme.endsOperand = true) :
    allowsSign (some lexeme) = false := by
  cases lexeme <;> first | rfl | cases h

/-- Operands with an operator between them are completed on both sides of it. -/
theorem Completes.operation (hl : Completes leafLeft left midLeft outLeft lastLeft)
    (hr : Completes leafRight right midRight outRight lastRight) (op : Operator) (p : Nat)
    (hp : op = .power → right.head?.map (·.lexeme) = some (.operator .subtract) →
      leafRight = true) {first : Token} (hf : first ∈ right.head?) :
    Completes false (left ++ ⟨.operator op, p⟩ :: right) (midLeft ++ ⟨.operator op, p⟩ :: midRight)
      (outLeft ++ ⟨.operator (readOperator op lastLeft first.lexeme), p⟩ :: outRight)
      lastRight := by
  obtain ⟨firstLeft, restLeft, firstLeft', restLeft', rfl, rfl, hstart, hunit⟩ := hl.starts
  obtain ⟨head, rest, first', rest', rfl, rfl, hstart', hunit'⟩ := hr.starts
  obtain rfl : head = first := Option.some.inj hf
  refine ⟨fun {previous behind folded} hprevious ha hfold => ?_,
    fun {previous} folded hprevious => ?_, ⟨_, _, _, _, rfl, rfl, hstart, hunit⟩, hr.ends⟩
  · have hright := hr.folds (rfl : StartsOperand (some (.operator op)))
      (fun he => ⟨rfl, fun hleaf hop => by
        rw [hp (Lexeme.operator.inj (Option.some.inj hop)) he] at hleaf
        cases hleaf⟩) hfold
    have hkeep : Folds (some lastLeft) (⟨.operator op, p⟩ :: (head :: rest ++ behind))
        (⟨.operator op, p⟩ :: (first' :: rest' ++ folded)) := by
      refine .keep (fun _ hallows => ?_) hright
      rw [Lexeme.allowsSign_of_endsOperand hl.ends] at hallows
      cases hallows
    have hleft := hl.folds hprevious (fun he => ⟨(ha he).1, fun _ => (ha he).2 rfl⟩) hkeep
    rw [List.append_assoc, List.append_assoc]
    exact hleft
  · have hread : readOperator op lastLeft first'.lexeme =
        readOperator op lastLeft head.lexeme := by
      rw [readOperator, readOperator, hunit']
    have hright := hr.inserts folded
      (rfl : StartsOperand (some (.operator (readOperator op lastLeft first'.lexeme))))
    rw [List.cons_append] at hright
    have hleft := hl.inserts (⟨.operator op, p⟩ :: first' :: (rest' ++ folded)) hprevious
    rw [List.append_assoc, List.append_assoc]
    refine hleft.trans ?_
    rw [insertImplied_operator, hright, hread]
    rfl

end UnitCalculator
