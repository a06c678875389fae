import UnitCalculator.Proofs.Expression.Folding

/-!
# Inserting implied operators

Once signs are folded, a product is implied between operands side by side and a quotient sign
between units becomes an implied one. What the inserted operators depend on is only whether the
lexeme before them ends an operand and whether it is a unit.
-/

namespace UnitCalculator

/-- A quotient sign is marked only between units; everything else stays as it is. -/
theorem bindUnits_cases (previous : Option Lexeme) (token : Token) (rest : List Token) :
    bindUnits previous token rest = token ∨
      token.lexeme = .operator .divide ∧
        bindUnits previous token rest = ⟨.operator .impliedDivide, token.position⟩ ∧
        (∃ lexeme, previous = some lexeme ∧ lexeme.isUnit = true) ∧
        ∃ next ∈ rest.head?, next.lexeme.isUnit = true := by
  unfold bindUnits
  split
  · next h =>
    simp only [Bool.and_eq_true] at h
    obtain ⟨⟨hd, hp⟩, hr⟩ := h
    refine .inr ⟨of_decide_eq_true hd, rfl, ?_, ?_⟩
    · cases previous with
      | none => cases hp
      | some lexeme => exact ⟨lexeme, rfl, hp⟩
    · cases rest with
      | nil => cases hr
      | cons next rest => exact ⟨next, rfl, hr⟩
  · exact .inl rfl

/-- What may stand side by side once implied operators are inserted. -/
structure Lexeme.Meets (a b : Lexeme) : Prop where
  /-- The factor that stands for a sign multiplies what follows. -/
  factor : a = .negation → b = .operator .impliedMultiply
  /-- An operand is expected before such a factor. -/
  sign : b = .negation → a.precedesFactor
  /-- A unit stands before an implied quotient sign. -/
  before : b = .operator .impliedDivide → a.isUnit = true
  /-- A unit stands behind an implied quotient sign. -/
  behind : a = .operator .impliedDivide → b.isUnit = true

/-- Lexemes of a text with signs folded and implied operators inserted. -/
def Lexeme.Completed (native : Lexeme → Prop) (lexeme : Lexeme) : Prop :=
  lexeme.Folded native ∨ lexeme = .operator .impliedMultiply ∨ lexeme = .operator .impliedDivide

/-- Only implied operators are inserted. -/
theorem completed_of_insertImplied {native : Lexeme → Prop} {previous : Option Lexeme}
    {tokens : List Token} (h : ∀ token ∈ tokens, token.lexeme.Folded native) :
    ∀ token ∈ insertImplied previous tokens, token.lexeme.Completed native := by
  induction tokens generalizing previous with
  | nil => simp [insertImplied]
  | cons token rest ih =>
    obtain ⟨ht, hrest⟩ := List.forall_mem_cons.mp h
    have hbound : (bindUnits previous token rest).lexeme.Completed native := by
      rcases bindUnits_cases previous token rest with hb | ⟨-, hb, -⟩
      · rw [hb]
        exact .inl ht
      · rw [hb]
        exact .inr (.inr rfl)
    have hinserted : ∀ inserted ∈ bindUnits previous token rest ::
        insertImplied (some (bindUnits previous token rest).lexeme) rest,
        inserted.lexeme.Completed native :=
      List.forall_mem_cons.mpr ⟨hbound, ih hrest⟩
    rw [insertImplied]
    split
    · exact List.forall_mem_cons.mpr ⟨.inr (.inl rfl), hinserted⟩
    · exact hinserted

/-- What takes a sign as a factor starts an operand. -/
theorem Lexeme.startsOperand_of_takesSign {lexeme : Lexeme} (h : lexeme.takesSign = true) :
    lexeme.startsOperand = true := by
  cases lexeme <;> first | rfl | cases h

/-- What a factor that stands for a sign can stand behind ends no operand. -/
theorem Lexeme.precedesFactor.endsOperand {lexeme : Lexeme} (h : lexeme.precedesFactor) :
    lexeme.endsOperand = false := by
  rcases h with rfl | ⟨op, rfl, -⟩
  · rfl
  · rfl

/-- What meets an operator that becomes an implied quotient sign still meets as it may. -/
theorem bindUnits_foldMeets {previous : Option Lexeme} {token : Token} {rest : List Token}
    {next : Lexeme} (ht : token.lexeme ≠ .operator .impliedDivide)
    (hn : next ∈ (Token.enclosed rest).head?) (h : token.lexeme.FoldMeets next) :
    (bindUnits previous token rest).lexeme.FoldMeets next ∧
      ((bindUnits previous token rest).lexeme = .operator .impliedDivide →
        next.isUnit = true) := by
  rcases bindUnits_cases previous token rest with hb | ⟨-, hb, -, second, hs, hu⟩
  · rw [hb]
    exact ⟨h, fun he => absurd he ht⟩
  · obtain rfl : next = second.lexeme := by
      cases rest with
      | nil => cases hs
      | cons first rest =>
        obtain rfl := Option.some.inj hs
        exact (Option.some.inj hn).symm
    rw [hb]
    refine ⟨⟨fun he => (by cases he), fun he => ?_⟩, fun _ => hu⟩
    rw [he] at hu
    cases hu

/-- Tokens with implied operators inserted meet as they may, if the folded tokens do. -/
theorem isChain_insertImplied {previous : Lexeme} {tokens : List Token}
    (h : (Token.enclosed tokens).IsChain Lexeme.FoldMeets)
    (hop : ∀ token ∈ tokens, token.lexeme ≠ .operator .impliedDivide)
    (hfirst : ∀ next ∈ (Token.enclosed tokens).head?,
      previous.FoldMeets next ∧ (previous = .operator .impliedDivide → next.isUnit = true)) :
    (previous :: Token.enclosed (insertImplied (some previous) tokens)).IsChain Lexeme.Meets := by
  induction tokens generalizing previous with
  | nil =>
    obtain ⟨hmeets, hunit⟩ := hfirst .closeBracket rfl
    refine List.isChain_pair.mpr ⟨fun he => ?_, fun he => (by cases he), fun he => (by cases he),
      fun he => ?_⟩
    · cases hmeets.operand he
    · cases hunit he
  | cons token rest ih =>
    obtain ⟨ht, hrest⟩ := List.forall_mem_cons.mp hop
    obtain ⟨hmeets, hunit⟩ := hfirst token.lexeme rfl
    obtain ⟨hnext, hchain⟩ := List.isChain_cons.mp h
    have hbehind : (Token.enclosed (bindUnits (some previous) token rest ::
        insertImplied (some (bindUnits (some previous) token rest).lexeme) rest)).IsChain
          Lexeme.Meets :=
      ih hchain hrest fun next hn => bindUnits_foldMeets ht hn (hnext next hn)
    rw [insertImplied]
    simp only [Option.map_some, Option.getD_some]
    split
    · next hends =>
      obtain ⟨hends, hstarts⟩ := (Bool.and_eq_true _ _).mp hends
      have hb : bindUnits (some previous) token rest = token := by
        rcases bindUnits_cases (some previous) token rest with hb | ⟨hd, -⟩
        · exact hb
        · rw [hd] at hstarts
          cases hstarts
      rw [hb] at hbehind ⊢
      refine List.isChain_cons_cons.mpr ⟨⟨fun _ => rfl, fun he => (by cases he),
        fun he => (by cases he), fun he => ?_⟩,
        List.isChain_cons_cons.mpr ⟨⟨fun he => (by cases he),
        fun he => ?_, fun he => absurd he ht, fun he => by cases he⟩, hbehind⟩⟩
      · rw [he] at hends
        cases hends
      · rw [(hmeets.sign he).endsOperand] at hends
        cases hends
    · next hends =>
      refine List.isChain_cons_cons.mpr ⟨⟨fun he => ?_, fun he => ?_, fun he => ?_, fun he => ?_⟩,
        hbehind⟩
      · refine absurd ?_ hends
        rw [he, Lexeme.startsOperand_of_takesSign (hmeets.operand he)]
        rfl
      · rcases bindUnits_cases (some previous) token rest with hb | ⟨-, hb, -⟩
        · exact hmeets.sign (by rw [← he, hb])
        · rw [hb] at he
          cases he
      · rcases bindUnits_cases (some previous) token rest with hb | ⟨-, -, ⟨lexeme, hl, hu⟩, -⟩
        · rw [hb] at he
          exact absurd he ht
        · rw [Option.some.inj hl]
          exact hu
      · have hu := hunit he
        rcases bindUnits_cases (some previous) token rest with hb | ⟨hd, -⟩
        · rw [hb]
          exact hu
        · rw [hd] at hu
          cases hu

end UnitCalculator
