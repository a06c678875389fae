import UnitCalculator.Proofs.Expression.Insertion

/-!
# Marks of lexemes

Some lexemes are marked. The marks of a text, in order, are those of the tokens it is folded and
completed to and of the tree they spell, as far as these steps keep what is marked.
-/

namespace UnitCalculator

open Grammar

variable {α : Type} {mark : Lexeme → Option α}

/-- The marks of some tokens, in order. -/
def Token.marks (mark : Lexeme → Option α) (tokens : List Token) : List α :=
  (tokens.map (·.lexeme)).filterMap mark

/-- The marks of a tree, in order. -/
def Tree.marks (mark : Lexeme → Option α) (tree : Tree) : List α := Token.marks mark tree.tokens

namespace Token

/-- No tokens have no marks. -/
@[simp] theorem marks_nil : marks mark [] = [] := rfl

/-- The mark of the first token comes first. -/
@[simp] theorem marks_cons (token : Token) (rest : List Token) :
    marks mark (token :: rest) = (mark token.lexeme).toList ++ marks mark rest := by
  rw [marks, List.map_cons, List.filterMap_cons]
  cases mark token.lexeme <;> rfl

/-- The marks of the first tokens come first. -/
@[simp] theorem marks_append (first second : List Token) :
    marks mark (first ++ second) = marks mark first ++ marks mark second := by
  rw [marks, List.map_append, List.filterMap_append]
  rfl

end Token

/-- Inserted operators keep the marks, if products have none and quotients one and the same. -/
theorem marks_insertImplied (hp : mark (.operator .impliedMultiply) = none)
    (hq : mark (.operator .impliedDivide) = mark (.operator .divide)) (previous : Option Lexeme)
    (tokens : List Token) :
    Token.marks mark (insertImplied previous tokens) = Token.marks mark tokens := by
  induction tokens generalizing previous with
  | nil => rfl
  | cons token rest ih =>
    have hbound : mark (bindUnits previous token rest).lexeme = mark token.lexeme := by
      rcases bindUnits_cases previous token rest with hb | ⟨hd, hb, -⟩
      · rw [hb]
      · rw [hb, hd, hq]
    rw [insertImplied]
    split
    · simp [Token.ofOperator, hp, hbound, ih]
    · simp [hbound, ih]

/-- A spelled tree has the marks of its tokens, if brackets have none. -/
theorem Grammar.Spells.marks_eq {strength : Nat} {tokens : List Token} {tree : Tree}
    (h : Spells strength tokens tree) (ho : mark .openBracket = none)
    (hc : mark .closeBracket = none) : tree.marks mark = Token.marks mark tokens := by
  rw [Tree.marks, h.tokens_eq]
  clear h
  induction tokens with
  | nil => rfl
  | cons token rest ih =>
    rcases token with ⟨lexeme, p⟩
    cases lexeme <;> simp_all [Token.isBracket]

end UnitCalculator
