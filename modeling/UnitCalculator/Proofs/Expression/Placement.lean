import UnitCalculator.Proofs.Expression.Failure
import UnitCalculator.Proofs.Expression.Insertion

/-!
# Places of tokens

The tokens of an equation stand in the order of their positions, all of them inside the text. A sign
that is folded leaves its position to what it becomes, a bracket that is put in takes the position
of what it closes, and an implied operator that of its right operand, so none is moved past another.
-/

namespace UnitCalculator

namespace Token

/-- The positions of tokens do not decrease from one bound to another. -/
def Within : Nat → Nat → List Token → Prop
  | low, high, [] => low ≤ high
  | low, high, token :: rest => low ≤ token.position ∧ Within token.position high rest

variable {low middle high : Nat} {tokens first second : List Token}

/-- The bounds are in order. -/
theorem Within.bounds (h : Within low high tokens) : low ≤ high := by
  induction tokens generalizing low with
  | nil => exact h
  | cons token rest ih => exact h.1.trans (ih h.2)

/-- A lower bound can be lowered. -/
theorem Within.mono (h : Within middle high tokens) (hl : low ≤ middle) :
    Within low high tokens := by
  cases tokens with
  | nil => exact hl.trans h
  | cons token rest => exact ⟨hl.trans h.1, h.2⟩

/-- Tokens up to a bound are followed by tokens from there on. -/
theorem Within.append (hf : Within low middle first) (hs : Within middle high second) :
    Within low high (first ++ second) := by
  induction first generalizing low with
  | nil => exact hs.mono hf
  | cons token rest ih => exact ⟨hf.1, ih hf.2⟩

/-- Tokens that are followed by others end where these start. -/
theorem Within.exists_cut (h : Within low high (first ++ second)) :
    ∃ middle, Within low middle first ∧ Within middle high second := by
  induction first generalizing low with
  | nil => exact ⟨low, le_rfl, h⟩
  | cons token rest ih =>
    obtain ⟨middle, hf, hs⟩ := ih h.2
    exact ⟨middle, ⟨h.1, hf⟩, hs⟩

/-- The position of the last token bounds all of them. -/
theorem Within.last (h : Within low high tokens) :
    Within low ((tokens.getLast?.map (·.position)).getD low) tokens ∧
      (tokens.getLast?.map (·.position)).getD low ≤ high := by
  induction tokens generalizing low with
  | nil => exact ⟨le_rfl, h⟩
  | cons token rest ih =>
    obtain ⟨hrest, hlast⟩ := ih h.2
    have hsame : ((token :: rest).getLast?.map (·.position)).getD low =
        (rest.getLast?.map (·.position)).getD token.position := by
      rw [List.getLast?_cons]
      cases rest.getLast? <;> rfl
    rw [hsame]
    exact ⟨⟨h.1, hrest⟩, hlast⟩

/-- Every token stands behind those before it, between the bounds. -/
theorem Within.ordered (h : Within low high tokens) :
    tokens.Pairwise (·.position ≤ ·.position) ∧
      ∀ token ∈ tokens, low ≤ token.position ∧ token.position ≤ high := by
  induction tokens generalizing low with
  | nil => simp
  | cons token rest ih =>
    obtain ⟨hordered, hbetween⟩ := ih h.2
    refine ⟨List.pairwise_cons.mpr ⟨fun next hn => (hbetween next hn).1, hordered⟩,
      List.forall_mem_cons.mpr ⟨⟨h.1, h.2.bounds⟩, fun next hn => ?_⟩⟩
    exact ⟨h.1.trans (hbetween next hn).1, (hbetween next hn).2⟩

end Token

open Token

/-- Folding signs keeps tokens between their bounds. -/
theorem within_of_folds {previous : Option Lexeme} {tokens folded : List Token}
    (h : Folds previous tokens folded) {low high : Nat} (hw : Within low high tokens) :
    Within low high folded := by
  induction h generalizing low high with
  | nil previous => exact hw
  | keep hs h ih => exact ⟨hw.1, ih hw.2⟩
  | number p hs hn h ih => exact ⟨hw.1, ih (hw.2.2.mono hw.2.1)⟩
  | factor p hs hp ho h ih => exact ⟨hw.1, ih hw.2⟩
  | @group operand rest first second folded behind p ho hs h hb ih ihb =>
    have hparts : first ++ second = operand :: rest := by
      simpa [hs] using Token.splitOperand_append (operand :: rest)
    obtain ⟨middle, hfirst, hsecond⟩ := Within.exists_cut (hparts ▸ hw.2)
    obtain ⟨hinner, hlast⟩ := (ih hfirst).last
    exact ⟨hw.1, le_rfl, hinner.append ⟨le_rfl, (ihb hsecond).mono hlast⟩⟩

/-- Inserting implied operators keeps tokens between their bounds. -/
theorem within_insertImplied {tokens : List Token} {low high : Nat} (h : Within low high tokens)
    (previous : Option Lexeme) : Within low high (insertImplied previous tokens) := by
  induction tokens generalizing low previous with
  | nil => exact h
  | cons token rest ih =>
    have hplace : (bindUnits previous token rest).position = token.position := by
      rcases bindUnits_cases previous token rest with hb | ⟨-, hb, -⟩
      · rw [hb]
      · rw [hb]
    rw [insertImplied]
    split
    · exact ⟨h.1, hplace.ge, hplace ▸ ih h.2 _⟩
    · exact ⟨hplace ▸ h.1, hplace ▸ ih h.2 _⟩

/-- Tokens that tile a text stand inside it. -/
theorem Scanner.Layout.within {position : Nat} {text : List Char} {tokens : List Token}
    (h : Layout position text tokens) {low high : Nat} (hl : low ≤ position) (hb : low ≤ high)
    (hh : position + text.length ≤ high + 1) : Within low high tokens := by
  induction h generalizing low with
  | blanks hg => exact hb
  | @token position gap span rest lexeme tokens hg hs hne h ih =>
    have hspan := List.length_pos_iff.mpr hne
    simp only [List.length_append] at hh
    exact ⟨by dsimp only; omega, ih (by dsimp only; omega) (by dsimp only; omega) (by omega)⟩

namespace Equation

variable {catalogue : Catalogue} {known : List String} {source : String} {tokens : List Token}

/-- The scanned tokens of an equation stand inside its text. -/
theorem within_of_scan (h : scan catalogue known source = .ok tokens) :
    Within 0 (source.length - 1) tokens := by
  have hlength : source.toList.length = source.length := String.length_toList ..
  rw [scan] at h
  split at h
  · exact (Scanner.layout_of_scan h).within le_rfl (Nat.zero_le _) (by omega)
  · next sign after hafter =>
    obtain ⟨target, ht, h⟩ := bind_eq_ok_iff.mp h
    obtain ⟨behind, hb, h⟩ := bind_eq_ok_iff.mp h
    obtain rfl := pure_eq_ok_iff.mp h
    have hsplit := List.prefix_iff_eq_append.mp
      (List.takeWhile_prefix (· ≠ '=') (l := source.toList))
    rw [hafter] at hsplit
    generalize source.toList.takeWhile (· ≠ '=') = before at hsplit ht hb
    rw [← hsplit, List.length_append, List.length_cons] at hlength
    have hblanks := (List.takeWhile_sublist Text.isBlank (l := before)).length_le
    have hbehind : Within before.length (source.length - 1) behind :=
      (Scanner.layout_of_scan hb).within (by omega) (by omega) (by omega)
    rw [targetTokens] at ht
    split at ht
    · obtain rfl := Except.ok.inj ht
      exact ⟨Nat.zero_le _, hblanks, hbehind⟩
    · cases ht

/-- The tokens of an equation, implied operators included, stand in order inside its text. -/
theorem within_of_tokenize (h : tokenize catalogue known source = .ok tokens) :
    Within 0 (source.length - 1) tokens := by
  obtain ⟨scanned, hs, h⟩ := bind_eq_ok_iff.mp h
  obtain ⟨folded, hf, h⟩ := bind_eq_ok_iff.mp h
  obtain rfl := pure_eq_ok_iff.mp h
  exact within_insertImplied (within_of_folds (folds_of_foldNegation hf) (within_of_scan hs)) _

/-- An empty text has no tokens. -/
theorem eq_nil_of_tokenize (h : tokenize catalogue known "" = .ok tokens) : tokens = [] := by
  have hempty : scan catalogue known "" = .ok [] := by
    rw [scan]
    exact Scanner.scan.eq_1 catalogue known "" 0
  have hcomplete : complete [] = .ok [] := by rw [complete, foldNegation]; rfl
  rw [tokenize, hempty] at h
  exact (Except.ok.inj (hcomplete.symm.trans h)).symm

/-- Scanning loses nothing. Every round takes at least one character of what is left and none beyond
its end. Scanned tokens and the blanks between them make up the text, each token stands behind the
one before, and its text is what stands at its position unless it was looked up. Characters that
start no token are reported where they stand. With signs folded and implied operators inserted the
tokens are still in order and inside the text. -/
theorem tokens_layout_spec (catalogue : Catalogue) (known : List String) (source : String) :
    (∀ position c rest piece, Scanner.pieceAt catalogue known source position c rest = .ok piece →
      0 < piece.length ∧ piece.length ≤ (c :: rest).length) ∧
    (∀ position text tokens, Scanner.scan catalogue known source position text = .ok tokens →
      Scanner.Layout position text tokens ∧ tokens.Pairwise (·.position < ·.position) ∧
      ∀ token ∈ tokens, token.lexeme.isLookup = false →
        token.lexeme.text.toList <+: text.drop (token.position - position)) ∧
    (∀ position text run place equation, Scanner.scan catalogue known source position text =
        .error (.fault (.unrecognizedInput run place) equation) →
      position ≤ place ∧ run ≠ "" ∧ run.toList <+: text.drop (place - position)) ∧
    (∀ run place equation, tokenize catalogue known source =
        .error (.fault (.unrecognizedInput run place) equation) →
      run ≠ "" ∧ run.toList <+: source.toList.drop place) ∧
    ∀ tokens, tokenize catalogue known source = .ok tokens →
      tokens.Pairwise (·.position ≤ ·.position) ∧
      ∀ token ∈ tokens, token.position < source.length := by
  refine ⟨fun position c rest piece h => Scanner.pieceAt_length h, fun position text tokens h => ?_,
    fun position text run place equation h =>
      (Scanner.failsBy_scan catalogue known source position text _ h).reported_at,
    fun run place equation h => (failsBy_tokenize catalogue known source _ h).reported_at.2,
    fun tokens h => ?_⟩
  · have hlayout := Scanner.layout_of_scan h
    exact ⟨hlayout, hlayout.increasing.1, fun token ht hl => hlayout.slice ht hl⟩
  · obtain ⟨hordered, hinside⟩ := (within_of_tokenize h).ordered
    refine ⟨hordered, fun token ht => ?_⟩
    have hsome : source.length ≠ 0 := by
      intro hzero
      obtain rfl := String.length_eq_zero_iff.mp hzero
      rw [eq_nil_of_tokenize h] at ht
      cases ht
    have hlast := (hinside token ht).2
    omega

/-- An assignment with a lookup, a sign behind a power sign and implied products. -/
theorem tokens_layout_spec_lookup : ∃ tokens,
    tokenize .standard ["x"] "E = 2x con ( c )^-x m/s" = .ok tokens ∧
    tokens.map (·.position) = [0, 2, 4, 5, 5, 7, 7, 16, 17, 17, 18, 18, 18, 20, 20, 21, 22] ∧
    tokens.Pairwise (·.position ≤ ·.position) ∧
    ∀ token ∈ tokens, token.position < "E = 2x con ( c )^-x m/s".length := by
  have hplaces : (tokenize .standard ["x"] "E = 2x con ( c )^-x m/s").toOption.map
      (·.map (·.position)) =
      some [0, 2, 4, 5, 5, 7, 7, 16, 17, 17, 18, 18, 18, 20, 20, 21, 22] := by
    decide +kernel
  cases h : tokenize .standard ["x"] "E = 2x con ( c )^-x m/s" with
  | error failure =>
    rw [h] at hplaces
    cases hplaces
  | ok tokens =>
    rw [h] at hplaces
    have hspec := (tokens_layout_spec .standard ["x"] "E = 2x con ( c )^-x m/s").2.2.2.2 tokens h
    exact ⟨tokens, rfl, Option.some.inj hplaces, hspec.1, hspec.2⟩

end Equation

end UnitCalculator
