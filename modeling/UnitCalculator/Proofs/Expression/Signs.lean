import UnitCalculator.Proofs.Expression.Completing

/-!
# Counting signs

A minus sign is folded only where it stands behind no operand and in front of one. Such signs are
counted: every other one stays an operator, and every factor that stands for a sign comes from one
in front of what takes it.
-/

namespace UnitCalculator

/-- Number of minus signs that stand behind no operand and in front of a lexeme of some kind. An
operand may stand before all lexemes. -/
def signs (kind : Lexeme → Bool) : Bool → List Lexeme → Nat
  | _, [] => 0
  | behind, lexeme :: rest =>
    (lexeme = .operator .subtract && !behind && (rest.head?.map kind).getD false).toNat +
      signs kind lexeme.endsOperand rest

variable {kind : Lexeme → Bool} {behind : Bool} {lexemes first second : List Lexeme}

/-- A minus sign behind an operand is not counted. -/
theorem signs_le (kind : Lexeme → Bool) (behind : Bool) (lexemes : List Lexeme) :
    signs kind true lexemes ≤ signs kind behind lexemes := by
  cases lexemes with
  | nil => exact le_rfl
  | cons lexeme rest => simp [signs]

/-- Signs of two parts are signs of the whole, if an operand ends the first part at most. -/
theorem signs_append_le (kind : Lexeme → Bool) (behind : Bool) (first second : List Lexeme) :
    signs kind behind first + signs kind true second ≤ signs kind behind (first ++ second) := by
  induction first generalizing behind with
  | nil => simpa [signs] using signs_le kind behind second
  | cons lexeme rest ih =>
    have hrest := ih lexeme.endsOperand
    have hhead : (lexeme = .operator .subtract && !behind &&
        (rest.head?.map kind).getD false).toNat ≤
        (lexeme = .operator .subtract && !behind &&
          ((rest ++ second).head?.map kind).getD false).toNat := by
      cases rest with
      | nil => simp
      | cons next rest => exact le_rfl
    rw [List.cons_append, signs, signs]
    omega

/-- Signs of two parts are those of the whole, if an operand ends the first part. -/
theorem signs_append (h : ∃ last ∈ first.getLast?, last.endsOperand = true) :
    signs kind behind (first ++ second) = signs kind behind first + signs kind true second := by
  induction first generalizing behind with
  | nil =>
    obtain ⟨last, hl, -⟩ := h
    cases hl
  | cons lexeme rest ih =>
    cases rest with
    | nil =>
      obtain ⟨last, hl, he⟩ := h
      obtain rfl : lexeme = last := Option.some.inj hl
      have hsign : lexeme ≠ .operator .subtract := by
        rintro rfl
        cases he
      simp [signs, hsign, he]
    | cons next rest =>
      rw [List.getLast?_cons_cons] at h
      have hstep : ∀ tail, signs kind behind (lexeme :: next :: tail) =
          (lexeme = .operator .subtract && !behind && kind next).toNat +
            signs kind lexeme.endsOperand (next :: tail) := fun tail => rfl
      rw [List.cons_append, List.cons_append, hstep, hstep, ← List.cons_append, ih h, Nat.add_assoc]

/-- An operand stands before a text. -/
def Lexeme.isBehindOperand (previous : Option Lexeme) : Bool :=
  (previous.map endsOperand).getD false

/-- Where signs are allowed, no operand stands before them. -/
theorem Lexeme.isBehindOperand_of_allowsSign {previous : Option Lexeme}
    (h : allowsSign previous = true) : isBehindOperand previous = false := by
  cases previous with
  | none => rfl
  | some lexeme => cases lexeme <;> first | rfl | cases h

/-- The first sign of a text is counted if it is allowed and the next lexeme is of the kind. -/
theorem signs_sign {previous : Option Lexeme} (hp : Lexeme.allowsSign previous = true)
    {next : Lexeme} (hn : kind next = true) (rest : List Lexeme) :
    signs kind (Lexeme.isBehindOperand previous) (.operator .subtract :: next :: rest) =
      1 + signs kind false (next :: rest) := by
  rw [signs, Lexeme.isBehindOperand_of_allowsSign hp, List.head?_cons, Option.map_some,
    Option.getD_some, hn]
  rfl

/-- Signs behind the first lexeme are counted. -/
theorem signs_tail_le (kind : Lexeme → Bool) (behind : Bool) (lexeme : Lexeme)
    (rest : List Lexeme) :
    signs kind lexeme.endsOperand rest ≤ signs kind behind (lexeme :: rest) :=
  Nat.le_add_left _ _

/-- What starts an operand is no sign. -/
theorem Lexeme.ne_sign_of_startsOperand {lexeme : Lexeme} (h : lexeme.startsOperand = true) :
    lexeme ≠ .operator .subtract := ne_operator_of_startsOperand h _

/-- Splitting behind an operand keeps the lexemes. -/
theorem map_lexeme_of_splitOperand {operand : Token} {rest before after : List Token}
    (h : Token.splitOperand (operand :: rest) = (before, after)) :
    operand.lexeme :: rest.map (·.lexeme) = before.map (·.lexeme) ++ after.map (·.lexeme) := by
  have happend := Token.splitOperand_append (operand :: rest)
  rw [h] at happend
  rw [← List.map_append, happend, List.map_cons]

/-- Every minus sign is counted or stays an operator. -/
theorem Folds.count_sign_le {previous : Option Lexeme} {raw folded : List Token}
    (h : Folds previous raw folded) :
    (raw.map (·.lexeme)).count (.operator .subtract) ≤
      (folded.map (·.lexeme)).count (.operator .subtract) +
        signs Lexeme.startsOperand (Lexeme.isBehindOperand previous) (raw.map (·.lexeme)) := by
  have hbehind : ∀ lexeme : Lexeme, Lexeme.isBehindOperand (some lexeme) = lexeme.endsOperand :=
    fun lexeme => rfl
  have hends : Lexeme.negation.endsOperand = true := rfl
  induction h with
  | nil previous => exact Nat.zero_le _
  | @keep previous token rest folded hs h ih =>
    rw [hbehind] at ih
    simp only [List.map_cons, List.count_cons, signs]
    omega
  | @number previous operand rest folded negated p hs hn h ih =>
    obtain ⟨hstart, hend⟩ := Lexeme.startsOperand_of_isNumber (Lexeme.isNumber_of_negated? hn)
    obtain ⟨hstart', hend'⟩ := Lexeme.startsOperand_of_isNumber (Lexeme.text_of_negated? hn).2
    have htail := signs_tail_le Lexeme.startsOperand false operand.lexeme
      (rest.map (·.lexeme))
    rw [hbehind, hend'] at ih
    rw [hend] at htail
    rw [List.map_cons, List.map_cons, List.map_cons, signs_sign hs hstart, List.count_cons_self,
      List.count_cons_of_ne (Lexeme.ne_sign_of_startsOperand hstart),
      List.count_cons_of_ne (Lexeme.ne_sign_of_startsOperand hstart')]
    omega
  | @factor previous operand rest folded p hs hp ho h ih =>
    have hstart := Lexeme.startsOperand_of_takesSign ho
    have hle := signs_le Lexeme.startsOperand false (operand.lexeme :: rest.map (·.lexeme))
    have hfactor : Lexeme.negation ≠ .operator .subtract := by decide
    rw [hbehind, hends, List.map_cons] at ih
    rw [List.map_cons, List.map_cons, List.map_cons, signs_sign hs hstart, List.count_cons_self,
      List.count_cons_of_ne hfactor]
    omega
  | @group operand rest first second folded behind p ho hs h hb ih ihb =>
    have hmap := map_lexeme_of_splitOperand hs
    have hstart := Lexeme.startsOperand_of_takesSign ho
    have hle := signs_append_le Lexeme.startsOperand false (first.map (·.lexeme))
      (second.map (·.lexeme))
    have hle' := signs_le Lexeme.startsOperand false (first.map (·.lexeme))
    rw [hbehind, hends] at ih
    have hclose : Lexeme.closeBracket.endsOperand = true := rfl
    rw [hbehind, hclose] at ihb
    rw [List.map_cons, List.map_cons, signs_sign rfl hstart, List.count_cons_self,
      hmap]
    simp only [List.map_cons, List.map_append, List.cons_append, List.count_append,
      List.count_cons_of_ne (show Lexeme.openBracket ≠ .operator .subtract by decide),
      List.count_cons_of_ne (show Lexeme.negation ≠ .operator .subtract by decide),
      List.count_cons_of_ne (show Lexeme.closeBracket ≠ .operator .subtract by decide)]
    omega

variable {catalogue : Catalogue} {known : List String}

/-- Every factor that stands for a sign comes from a sign that is counted. -/
theorem Folds.count_negation_le {previous : Option Lexeme} {raw folded : List Token}
    (h : Folds previous raw folded)
    (hn : ∀ token ∈ raw, token.lexeme.Native catalogue known) :
    (folded.map (·.lexeme)).count .negation ≤
      signs Lexeme.takesSign (Lexeme.isBehindOperand previous) (raw.map (·.lexeme)) := by
  have hbehind : ∀ lexeme : Lexeme, Lexeme.isBehindOperand (some lexeme) = lexeme.endsOperand :=
    fun lexeme => rfl
  have hends : Lexeme.negation.endsOperand = true := rfl
  induction h with
  | nil previous => exact Nat.zero_le _
  | @keep previous token rest folded hs h ih =>
    obtain ⟨htoken, hrest⟩ := List.forall_mem_cons.mp hn
    have htail := signs_tail_le Lexeme.takesSign (Lexeme.isBehindOperand previous) token.lexeme
      (rest.map (·.lexeme))
    rw [List.map_cons, List.map_cons, List.count_cons_of_ne htoken.ne_negation]
    exact (ih hrest).trans htail
  | @number previous operand rest folded negated p hs hneg h ih =>
    obtain ⟨-, hrest⟩ := List.forall_mem_cons.mp hn
    obtain ⟨hoperand, hrest⟩ := List.forall_mem_cons.mp hrest
    obtain ⟨-, hend⟩ := Lexeme.startsOperand_of_isNumber (Lexeme.isNumber_of_negated? hneg)
    obtain ⟨-, hend'⟩ := Lexeme.startsOperand_of_isNumber (Lexeme.text_of_negated? hneg).2
    have htail := signs_tail_le Lexeme.takesSign false operand.lexeme
      (rest.map (·.lexeme))
    have htail' := signs_tail_le Lexeme.takesSign (Lexeme.isBehindOperand previous)
      (.operator .subtract) (operand.lexeme :: rest.map (·.lexeme))
    have hfolded := ih hrest
    rw [hbehind, hend', ← hend] at hfolded
    rw [List.map_cons, List.map_cons, List.map_cons,
      List.count_cons_of_ne (hoperand.negated_ne_negation hneg)]
    exact hfolded.trans (htail.trans htail')
  | @factor previous operand rest folded p hs hp ho h ih =>
    have hfolded := ih (List.forall_mem_cons.mp hn).2
    have hle := signs_le Lexeme.takesSign false (operand.lexeme :: rest.map (·.lexeme))
    rw [hbehind, hends, List.map_cons] at hfolded
    rw [List.map_cons, List.map_cons, List.map_cons, signs_sign hs ho, List.count_cons_self]
    omega
  | @group operand rest first second folded behind p ho hs h hb ih ihb =>
    obtain ⟨hfirst, hsecond⟩ :=
      Token.forall_of_splitOperand hs (List.forall_mem_cons.mp hn).2
    have hmap := map_lexeme_of_splitOperand hs
    have hle := signs_append_le Lexeme.takesSign false (first.map (·.lexeme))
      (second.map (·.lexeme))
    have hle' := signs_le Lexeme.takesSign false (first.map (·.lexeme))
    have hclose : Lexeme.closeBracket.endsOperand = true := rfl
    have hfolded := ih hfirst
    have hbehind' := ihb hsecond
    rw [hbehind, hends] at hfolded
    rw [hbehind, hclose] at hbehind'
    rw [List.map_cons, List.map_cons, signs_sign rfl ho, hmap]
    simp only [List.map_cons, List.map_append, List.cons_append, List.count_append,
      List.count_cons_self,
      List.count_cons_of_ne (show Lexeme.openBracket ≠ .negation by decide),
      List.count_cons_of_ne (show Lexeme.closeBracket ≠ .negation by decide)]
    omega

end UnitCalculator
