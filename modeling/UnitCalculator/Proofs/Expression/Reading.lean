import UnitCalculator.Proofs.Expression.Writing

/-!
# Reading expressions and assignments

A text is scanned, its signs are folded, implied operators are inserted, and the tokens spell a
tree. An equation is compiled from an expression without a sign of assignment, or from one behind a
variable and the first such sign.
-/

namespace UnitCalculator

open Grammar

/-- A text is read as a tree: from the beginning, or behind the sign of assignment. -/
def Tree.Reads (catalogue : Catalogue) (known : List String) (source : String) (position : Nat)
    (previous : Option Lexeme) (text : List Char) (tree : Tree) : Prop :=
  ∃ raw folded, Scanner.scan catalogue known source position text = .ok raw ∧
    Folds previous raw folded ∧ Spells 1 (insertImplied previous folded) tree

variable {catalogue : Catalogue} {known : List String} {source : String} {position : Nat}
variable {native : Lexeme → Prop}

/-- A lexeme of the text that is folded is still there, unless it is a number. -/
theorem Lexeme.Folded.native_operator {op : Operator}
    (h : (Lexeme.operator op).Folded native) : native (.operator op) := by
  cases h with
  | native h => exact h
  | negated h hneg => cases Lexeme.isSigned_of_negated? hneg
  | bracket h => rcases h with h | h <;> cases h

/-- Nothing is inserted at the beginning, as behind a bracket. -/
theorem insertImplied_none (tokens : List Token) :
    insertImplied none tokens = insertImplied (some .openBracket) tokens := by
  cases tokens with
  | nil => rfl
  | cons token rest => simp [insertImplied, bindUnits, Lexeme.isUnit, Lexeme.endsOperand]

/-- Folded and inserted tokens of a text spell a tree with lexemes of that text. -/
theorem Tree.exists_writtenAs_of_folds {previous : Option Lexeme} {raw folded : List Token}
    {tree : Tree} (hp : previous = none ∨ previous = some (.operator .assign))
    (hn : ∀ lexeme, native lexeme → lexeme.Native catalogue known)
    (hraw : ∀ token ∈ raw, native token.lexeme) (hf : Folds previous raw folded)
    (hs : Spells 1 (insertImplied previous folded) tree) :
    ∃ lexemes, tree.WrittenAs native lexemes := by
  have hfolded := folded_of_folds hf hraw
  have hstart : previous.getD .openBracket ≠ .operator .impliedDivide := by
    rcases hp with rfl | rfl
    · exact fun he => by cases he
    · exact fun he => by cases he
  have hinsert : insertImplied previous folded =
      insertImplied (some (previous.getD .openBracket)) folded := by
    rcases hp with rfl | rfl
    · exact insertImplied_none folded
    · rfl
  have hfold := isChain_of_folds hf (fun token ht => hn _ (hraw token ht))
    (fun op hop => by
      rcases hp with rfl | rfl
      · cases hop
      · obtain rfl := Lexeme.operator.inj (Option.some.inj hop)
        exact .inl (by decide))
    (fun he => by rcases hp with rfl | rfl <;> cases he)
  obtain ⟨hfirst, hrest⟩ := List.isChain_cons.mp hfold
  have hchain := isChain_insertImplied hrest
    (fun token ht he => by
      have hnative := hfolded token ht
      rw [he] at hnative
      rcases Operator.precedence_of_native (hn _ hnative.native_operator) with h | h
      · exact absurd h (by decide)
      · cases h)
    (fun next hnext => ⟨hfirst next hnext, fun he => absurd he hstart⟩)
  rw [← hinsert] at hchain
  have htokens : (Token.enclosed (insertImplied previous folded ++ [])).IsChain Lexeme.Meets := by
    rw [List.append_nil]
    exact hchain.tail
  rcases exists_writtenAs hs le_rfl htokens (completed_of_insertImplied hfolded)
    (fun op ho => by cases ho) with ⟨p, he, -⟩ | hw
  · rw [he] at hchain
    cases (List.isChain_cons_cons.mp hchain.tail).1.factor rfl
  · exact hw

/-- The tree that a text is read as has lexemes that are native and made of characters of the
text. -/
theorem Tree.Reads.exists_writtenAs {previous : Option Lexeme} {text : List Char} {tree : Tree}
    (h : tree.Reads catalogue known source position previous text)
    (hp : previous = none ∨ previous = some (.operator .assign)) :
    ∃ lexemes, tree.WrittenAs (fun lexeme => lexeme.Native catalogue known ∧
      ∀ c ∈ lexeme.text.toList, c ∈ text) lexemes := by
  obtain ⟨raw, folded, hs, hf, hspells⟩ := h
  exact Tree.exists_writtenAs_of_folds hp (fun lexeme hl => hl.1)
    (Scanner.native_of_scan hs) hf hspells

namespace Equation

/-- Tokens are completed by folding signs and inserting implied operators. -/
theorem complete_eq_ok_iff {raw tokens : List Token} :
    complete raw = .ok tokens ↔ ∃ folded, Folds none raw folded ∧
      insertImplied none folded = tokens := by
  constructor
  · intro h
    obtain ⟨folded, hf, hi⟩ := bind_eq_ok_iff.mp h
    exact ⟨folded, folds_of_foldNegation hf, pure_eq_ok_iff.mp hi⟩
  · rintro ⟨folded, hf, rfl⟩
    exact bind_eq_ok_iff.mpr ⟨folded, foldNegation_of_folds hf, rfl⟩

/-- An equation consists of the tree that its tokens mean and of its text. -/
theorem compile_eq_ok_iff {e : Equation} :
    compile catalogue known source = .ok e ↔ e.source = source ∧ ∃ raw folded,
      scan catalogue known source = .ok raw ∧ Folds none raw folded ∧
        Means (insertImplied none folded) e.root := by
  constructor
  · intro h
    obtain ⟨tokens, ht, he⟩ := bind_eq_ok_iff.mp h
    have hmeans := means_of_ofTokens ht he
    obtain ⟨raw, hs, hc⟩ := bind_eq_ok_iff.mp ht
    obtain ⟨folded, hf, rfl⟩ := complete_eq_ok_iff.mp hc
    exact ⟨(ofTokens_eq_ok_iff.mp he).2, raw, folded, hs, hf, hmeans⟩
  · rintro ⟨rfl, raw, folded, hs, hf, hmeans⟩
    exact bind_eq_ok_iff.mpr ⟨insertImplied none folded, bind_eq_ok_iff.mpr
      ⟨raw, hs, complete_eq_ok_iff.mpr ⟨folded, hf, rfl⟩⟩,
      ofTokens_eq_ok_iff.mpr ⟨Tree.ofTokens_of_means hmeans, rfl⟩⟩

/-- A text without a sign of assignment is scanned as a whole. -/
theorem scan_expression (h : '=' ∉ source.toList) :
    scan catalogue known source = Scanner.scan catalogue known source 0 source.toList := by
  have hall : ∀ c ∈ source.toList, decide (c ≠ '=') = true := by
    intro c hc
    rw [decide_eq_true_eq]
    rintro rfl
    exact h hc
  have htake : source.toList.takeWhile (· ≠ '=') = source.toList := by
    have happend : (source.toList ++ []).takeWhile (· ≠ '=') = source.toList :=
      Text.takeWhile_append hall .nil
    rwa [List.append_nil] at happend
  simp only [scan, htake, List.drop_length]

/-- A text with a sign of assignment is scanned behind the first one. -/
theorem scan_assignment {before after : List Char} (h : source.toList = before ++ '=' :: after)
    (hb : '=' ∉ before) :
    scan catalogue known source = (do
      let target ← targetTokens source before
      let tokens ← Scanner.scan catalogue known (String.ofList after) (before.length + 1) after
      return target ++ tokens) := by
  have htake : source.toList.takeWhile (· ≠ '=') = before := by
    rw [h, Text.takeWhile_ne_append hb]
  have hdrop : source.toList.drop before.length = '=' :: after := by rw [h, List.drop_left]
  simp only [scan, htake, hdrop]

/-- No sign of assignment is inserted. -/
theorem not_assign_of_folds {previous : Option Lexeme} {raw folded : List Token}
    (h : ∀ token ∈ raw, token.lexeme ≠ .operator .assign) (hf : Folds previous raw folded) :
    ∀ token ∈ insertImplied previous folded, token.lexeme ≠ .operator .assign := by
  intro token ht he
  have hfolded : ∀ token ∈ folded, token.lexeme.Folded (· ≠ .operator .assign) :=
    folded_of_folds hf h
  have hc := completed_of_insertImplied hfolded token ht
  rw [he] at hc
  rcases hc with hc | hc | hc
  · exact hc.native_operator rfl
  · cases hc
  · cases hc

/-- An equation without a sign of assignment is an expression. -/
theorem compile_expression {e : Equation} (h : '=' ∉ source.toList) :
    compile catalogue known source = .ok e ↔
      e.source = source ∧ e.root.Reads catalogue known source 0 none source.toList := by
  rw [compile_eq_ok_iff, scan_expression h]
  refine and_congr_right fun _ => exists_congr fun raw => exists_congr fun folded =>
    and_congr_right fun hs => and_congr_right fun hf => ⟨fun hmeans => ?_, .expression⟩
  have hraw : ∀ token ∈ raw, token.lexeme ≠ .operator .assign := by
    intro token ht he
    have hchars := (Scanner.native_of_scan hs token ht).2
    rw [he] at hchars
    exact h (hchars '=' (by decide))
  exact hmeans.spells (not_assign_of_folds hraw hf)

/-- Behind a variable and the sign of assignment tokens are folded and inserted as behind that
sign. -/
theorem folds_assignment {name : String} {p q : Nat} {raw tokens : List Token} :
    (∃ folded, Folds none (⟨.reference name, p⟩ :: .ofOperator .assign q :: raw) folded ∧
      insertImplied none folded = tokens) ↔
      ∃ folded, Folds (some (.operator .assign)) raw folded ∧
        ⟨.reference name, p⟩ :: .ofOperator .assign q ::
          insertImplied (some (.operator .assign)) folded = tokens := by
  constructor
  · rintro ⟨folded, hf, rfl⟩
    cases hf with
    | keep hs hf =>
      cases hf with
      | keep hs hf => exact ⟨_, hf, rfl⟩
  · rintro ⟨folded, hf, rfl⟩
    exact ⟨_, .keep (fun he => by cases he) (.keep (fun he => by cases he) hf), rfl⟩

/-- The tokens before an assignment, if the name can be assigned. -/
theorem targetTokens_eq_ok_iff {before : List Char} {target : List Token} :
    targetTokens source before = .ok target ↔
      VariableName.isValid (String.ofList (Text.trim before)) = true ∧
        target = [⟨.reference (String.ofList (Text.trim before)),
          (before.takeWhile Text.isBlank).length⟩, .ofOperator .assign before.length] := by
  simp only [targetTokens]
  split
  · next hv => simp [hv, eq_comm]
  · next hv => simp [hv]

/-- An equation with a sign of assignment is an assignment. -/
theorem compile_assignment {e : Equation} {before after : List Char}
    (h : source.toList = before ++ '=' :: after) (hb : '=' ∉ before) :
    compile catalogue known source = .ok e ↔ e.source = source ∧
      VariableName.isValid (String.ofList (Text.trim before)) = true ∧
      ∃ tree, tree.Reads catalogue known (String.ofList after) (before.length + 1)
          (some (.operator .assign)) after ∧
        e.root = .binary .assign before.length
          (.leaf ⟨.reference (String.ofList (Text.trim before)),
            (before.takeWhile Text.isBlank).length⟩) tree := by
  rw [compile_eq_ok_iff, scan_assignment h hb]
  refine and_congr_right fun _ => ?_
  constructor
  · rintro ⟨raw, folded, hs, hf, hmeans⟩
    obtain ⟨target, ht, hs⟩ := bind_eq_ok_iff.mp hs
    obtain ⟨tokens, htokens, he⟩ := bind_eq_ok_iff.mp hs
    obtain ⟨hv, rfl⟩ := targetTokens_eq_ok_iff.mp ht
    obtain rfl := pure_eq_ok_iff.mp he
    obtain ⟨inner, hinner, he⟩ := folds_assignment.mp ⟨folded, hf, rfl⟩
    rw [← he] at hmeans
    obtain ⟨tree, htree, hroot⟩ := means_assignment_iff.mp hmeans
    exact ⟨hv, tree, ⟨tokens, inner, htokens, hinner, htree⟩, hroot⟩
  · rintro ⟨hv, tree, ⟨tokens, inner, hs, hinner, htree⟩, hroot⟩
    obtain ⟨folded, hf, he⟩ := folds_assignment.mpr ⟨inner, hinner, rfl⟩
    refine ⟨_, folded, bind_eq_ok_iff.mpr ⟨_, targetTokens_eq_ok_iff.mpr ⟨hv, rfl⟩,
      bind_eq_ok_iff.mpr ⟨tokens, hs, rfl⟩⟩, hf, ?_⟩
    rw [he]
    exact means_assignment_iff.mpr ⟨tree, htree, hroot⟩

end Equation

end UnitCalculator
