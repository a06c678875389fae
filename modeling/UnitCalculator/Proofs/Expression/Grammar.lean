import Mathlib.Data.List.Chain
import UnitCalculator.Expression.Tree

/-!
# The grammar of expressions

An expression is a chain of operands joined by operators; an operand is a number, a unit, a
variable, an expression in brackets or a function before one. The tree of such a chain is fixed by
the binding strengths: every operator takes on its left what binds at least as tight and on its
right what binds tighter.
-/

namespace UnitCalculator

/-- An operand that is a single token. -/
def Lexeme.isSingle : Lexeme → Bool
  | .number .. | .lookup .. | .unit .. | .reference _ => true
  | _ => false

/-- An opening or closing bracket. -/
def Token.isBracket (token : Token) : Bool :=
  token.lexeme = .openBracket || token.lexeme = .closeBracket

namespace Grammar

/-- Parts of expressions. -/
inductive Part where
  | operand
  | expression

/-- The token sequences that are operands or expressions. -/
inductive Phrase : Part → List Token → Prop
  | single {token : Token} (h : token.lexeme.isSingle = true) : Phrase .operand [token]
  | group {tokens : List Token} (p q : Nat) (h : Phrase .expression tokens) :
    Phrase .operand (⟨.openBracket, p⟩ :: tokens ++ [⟨.closeBracket, q⟩])
  | call {tokens : List Token} (name : String) (p q r : Nat) (h : Phrase .expression tokens) :
    Phrase .operand
      (⟨.function name, p⟩ :: ⟨.openBracket, q⟩ :: tokens ++ [⟨.closeBracket, r⟩])
  | lone {tokens : List Token} (h : Phrase .operand tokens) : Phrase .expression tokens
  | chain {left right : List Token} {op : Operator} (p : Nat) (hop : op ≠ .assign)
    (hl : Phrase .expression left) (hr : Phrase .operand right) :
    Phrase .expression (left ++ ⟨.operator op, p⟩ :: right)

/-- An expression, or a variable and the sign of assignment before one. -/
inductive Sentence : List Token → Prop
  | expression {tokens : List Token} (h : Phrase .expression tokens) : Sentence tokens
  | assignment {tokens : List Token} (name : String) (p q : Nat)
    (h : Phrase .expression tokens) :
    Sentence (⟨.reference name, p⟩ :: ⟨.operator .assign, q⟩ :: tokens)

/-- Tokens spell a tree in which no operator outside brackets binds less tight than a given
strength. -/
inductive Spells : Nat → List Token → Tree → Prop
  | leaf {strength : Nat} {token : Token} (h : token.lexeme.isSingle = true) :
    Spells strength [token] (.leaf token)
  | group {strength : Nat} {tokens : List Token} {tree : Tree} (p q : Nat)
    (h : Spells 1 tokens tree) :
    Spells strength (⟨.openBracket, p⟩ :: tokens ++ [⟨.closeBracket, q⟩]) tree
  | call {strength : Nat} {tokens : List Token} {tree : Tree} (name : String) (p q r : Nat)
    (h : Spells 1 tokens tree) :
    Spells strength
      (⟨.function name, p⟩ :: ⟨.openBracket, q⟩ :: tokens ++ [⟨.closeBracket, r⟩])
      (.call name p tree)
  | binary {strength : Nat} {left right : List Token} {l r : Tree} {op : Operator} (p : Nat)
    (hop : strength ≤ op.precedence) (hl : Spells op.precedence left l)
    (hr : Spells (op.precedence + 1) right r) :
    Spells strength (left ++ ⟨.operator op, p⟩ :: right) (.binary op p l r)

/-- Tokens spell the tree of an expression or of an assignment. -/
inductive Means : List Token → Tree → Prop
  | expression {tokens : List Token} {tree : Tree} (h : Spells 1 tokens tree) : Means tokens tree
  | assignment {tokens : List Token} {tree : Tree} (name : String) (p q : Nat)
    (h : Spells 1 tokens tree) :
    Means (⟨.reference name, p⟩ :: ⟨.operator .assign, q⟩ :: tokens)
      (.binary .assign q (.leaf ⟨.reference name, p⟩) tree)

/-- What is spelled at a strength is spelled at every weaker one. -/
theorem Spells.mono {strength weaker : Nat} {tokens : List Token} {tree : Tree}
    (h : Spells strength tokens tree) (hw : weaker ≤ strength) : Spells weaker tokens tree := by
  cases h with
  | leaf h => exact .leaf h
  | group p q h => exact .group p q h
  | call name p q r h => exact .call name p q r h
  | binary p hop hl hr => exact .binary p (hw.trans hop) hl hr

/-- Whatever spells a tree has tokens. -/
theorem Spells.ne_nil {strength : Nat} {tokens : List Token} {tree : Tree}
    (h : Spells strength tokens tree) : tokens ≠ [] := by
  cases h <;> simp

/-- Every operator but the sign of assignment has a positive strength. -/
theorem precedence_pos {op : Operator} : 1 ≤ op.precedence ↔ op ≠ .assign := by
  cases op <;> simp [Operator.precedence]

/-- Read in order, a spelled tree has the tokens without the brackets. -/
theorem Spells.tokens_eq {strength : Nat} {tokens : List Token} {tree : Tree}
    (h : Spells strength tokens tree) : tree.tokens = tokens.filter (!·.isBracket) := by
  induction h with
  | @leaf _ token h =>
    have hb : token.isBracket = false := by
      rcases token with ⟨lexeme, position⟩
      cases lexeme <;> simp_all [Lexeme.isSingle, Token.isBracket]
    simp [Tree.tokens, hb]
  | group p q _ ih => simp [ih, Token.isBracket]
  | call name p q r _ ih => simp [Tree.tokens, ih, Token.isBracket]
  | binary p _ _ _ ihl ihr => simp [Tree.tokens, ihl, ihr, Token.isBracket]

/-- Read in order, the tree that tokens mean has the tokens without the brackets. -/
theorem Means.tokens_eq {tokens : List Token} {tree : Tree} (h : Means tokens tree) :
    tree.tokens = tokens.filter (!·.isBracket) := by
  cases h with
  | expression h => exact h.tokens_eq
  | assignment name p q h => simp [Tree.tokens, h.tokens_eq, Token.isBracket]

/-- No sign of assignment occurs in a spelled tree's tokens. -/
theorem Spells.not_assign {strength : Nat} {tokens : List Token} {tree : Tree}
    (h : Spells strength tokens tree) (hs : 1 ≤ strength) :
    ∀ token ∈ tokens, token.lexeme ≠ .operator .assign := by
  induction h with
  | @leaf _ token h =>
    intro t ht he
    rw [List.mem_singleton] at ht
    rw [← ht, he] at h
    simp [Lexeme.isSingle] at h
  | group p q _ ih => simpa [or_imp, forall_and] using ih le_rfl
  | call name p q r _ ih => simpa [or_imp, forall_and] using ih le_rfl
  | @binary _ left right _ _ op p hop _ _ ihl ihr =>
    have hop' : op ≠ .assign := precedence_pos.mp (hs.trans hop)
    intro t ht
    rcases List.mem_append.mp ht with ht | ht
    · exact ihl (hs.trans hop) t ht
    · rcases List.mem_cons.mp ht with rfl | ht
      · simpa using hop'
      · exact ihr (by omega) t ht

/-- Tokens without a sign of assignment mean an expression. -/
theorem Means.spells {tokens : List Token} {tree : Tree} (h : Means tokens tree)
    (ha : ∀ token ∈ tokens, token.lexeme ≠ .operator .assign) : Spells 1 tokens tree := by
  cases h with
  | expression h => exact h
  | assignment name p q h => exact absurd rfl (ha ⟨.operator .assign, q⟩ (by simp))

/-- Tokens behind a variable and the sign of assignment mean an assignment. -/
theorem means_assignment_iff {name : String} {p q : Nat} {tokens : List Token} {tree : Tree} :
    Means (⟨.reference name, p⟩ :: ⟨.operator .assign, q⟩ :: tokens) tree ↔
      ∃ expression, Spells 1 tokens expression ∧
        tree = .binary .assign q (.leaf ⟨.reference name, p⟩) expression := by
  constructor
  · intro h
    cases h with
    | expression h => exact absurd rfl (h.not_assign le_rfl ⟨.operator .assign, q⟩ (by simp))
    | assignment _ _ _ h => exact ⟨_, h, rfl⟩
  · rintro ⟨expression, h, rfl⟩
    exact .assignment name p q h

/-- An expression joined to another one by an operator. -/
theorem Phrase.join {left right : List Token} {op : Operator} (p : Nat) (hop : op ≠ .assign)
    (hl : Phrase .expression left) (hr : Phrase .expression right) :
    Phrase .expression (left ++ ⟨.operator op, p⟩ :: right) := by
  generalize hk : Part.expression = kind at hr
  induction hr with
  | single h => cases hk
  | group p q h => cases hk
  | call name p q r h => cases hk
  | lone h => exact .chain p hop hl h
  | chain q hop' _ hr ih => simpa using Phrase.chain q hop' (ih rfl) hr

/-- Whatever spells a tree is an expression. -/
theorem Spells.phrase {strength : Nat} {tokens : List Token} {tree : Tree}
    (h : Spells strength tokens tree) (hs : 1 ≤ strength) : Phrase .expression tokens := by
  induction h with
  | leaf h => exact .lone (.single h)
  | group p q _ ih => exact .lone (.group p q (ih le_rfl))
  | call name p q r _ ih => exact .lone (.call name p q r (ih le_rfl))
  | binary p hop _ _ ihl ihr =>
    exact .join p (precedence_pos.mp (hs.trans hop)) (ihl (hs.trans hop)) (ihr (by omega))

/-- One more operand at the end goes where its operator binds. -/
theorem Spells.extend {strength : Nat} {left right : List Token} {l r : Tree} {op : Operator}
    (h : Spells strength left l) (p : Nat) (hop : strength ≤ op.precedence)
    (hr : ∀ s, Spells s right r) :
    ∃ tree, Spells strength (left ++ ⟨.operator op, p⟩ :: right) tree := by
  induction h with
  | leaf h => exact ⟨_, .binary p hop (.leaf h) (hr _)⟩
  | group q q' h => exact ⟨_, .binary p hop (.group q q' h) (hr _)⟩
  | call name q q' q'' h => exact ⟨_, .binary p hop (.call name q q' q'' h) (hr _)⟩
  | @binary _ _ _ _ _ inner q hinner hl hr' _ ihr =>
    by_cases hb : op.precedence ≤ inner.precedence
    · exact ⟨_, .binary p hop (.binary q hb hl hr') (hr _)⟩
    · obtain ⟨tree, ht⟩ := ihr (by omega)
      exact ⟨_, by simpa using Spells.binary q hinner hl ht⟩

/-- Every operand and every expression spells a tree, an operand at any strength. -/
theorem Phrase.exists_spells {part : Part} {tokens : List Token} (h : Phrase part tokens) :
    match part with
    | .operand => ∃ tree, ∀ strength, Spells strength tokens tree
    | .expression => ∃ tree, Spells 1 tokens tree := by
  induction h with
  | single h => exact ⟨_, fun _ => .leaf h⟩
  | group p q _ ih =>
    obtain ⟨tree, ht⟩ := ih
    exact ⟨tree, fun _ => .group p q ht⟩
  | call name p q r _ ih =>
    obtain ⟨tree, ht⟩ := ih
    exact ⟨_, fun _ => .call name p q r ht⟩
  | lone _ ih =>
    obtain ⟨tree, ht⟩ := ih
    exact ⟨tree, ht 1⟩
  | chain p hop _ _ ihl ihr =>
    obtain ⟨l, hl⟩ := ihl
    obtain ⟨r, hr⟩ := ihr
    exact hl.extend p (precedence_pos.mpr hop) hr

/-- The sentences are the token sequences that mean a tree. -/
theorem sentence_iff {tokens : List Token} : Sentence tokens ↔ ∃ tree, Means tokens tree := by
  constructor
  · intro h
    cases h with
    | expression h =>
      obtain ⟨tree, ht⟩ := h.exists_spells
      exact ⟨tree, .expression ht⟩
    | assignment name p q h =>
      obtain ⟨tree, ht⟩ := h.exists_spells
      exact ⟨_, .assignment name p q ht⟩
  · rintro ⟨tree, h⟩
    cases h with
    | expression h => exact .expression (h.phrase le_rfl)
    | assignment name p q h => exact .assignment name p q (h.phrase le_rfl)

end Grammar

end UnitCalculator
