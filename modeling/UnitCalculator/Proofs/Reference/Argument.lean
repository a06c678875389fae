import UnitCalculator.Proofs.Reference.FormulaText

/-!
# Arguments of lookups

Formulas, nuclides and the standard constants are named by letters, digits, brackets, hyphens and
blanks.
-/

namespace UnitCalculator

namespace Reference

open Text

/-- A character of the names that are looked up. -/
def isNameCharacter (c : Char) : Bool :=
  isBlank c || isDecimalDigit c || isLatinLetter c || "()[]-".toList.contains c

theorem isNameCharacter_of_isBlank {c : Char} (h : isBlank c = true) :
    isNameCharacter c = true := by simp [isNameCharacter, h]

theorem isNameCharacter_of_isDecimalDigit {c : Char} (h : isDecimalDigit c = true) :
    isNameCharacter c = true := by simp [isNameCharacter, h]

theorem isNameCharacter_of_isLatinLetter {c : Char} (h : isLatinLetter c = true) :
    isNameCharacter c = true := by simp [isNameCharacter, h]

/-- Signs of sums, products and commands are no characters of names. -/
theorem of_isNameCharacter {c : Char} (h : isNameCharacter c = true) :
    c ≠ '+' ∧ c ≠ '*' ∧ c ≠ '\\' := by
  have hnot : ∀ other : Char, isNameCharacter other = false → c ≠ other := by
    rintro other ho rfl
    rw [h] at ho
    cases ho
  exact ⟨hnot '+' (by decide), hnot '*' (by decide), hnot '\\' (by decide)⟩

/-- The symbols of a table are made of characters of names. -/
def ElementTable.IsNamed (table : ElementTable) : Prop :=
  ∀ symbol ∈ table.symbols, ∀ c ∈ symbol.toList, isNameCharacter c = true

/-- A text that is scanned as a formula is made of characters of names. -/
theorem FormulaToken.isNameCharacter_of_scan {table : ElementTable} (ht : table.IsNamed)
    (text : List Char) : ∀ tokens, scan table text = .ok tokens →
      ∀ c ∈ text, isNameCharacter c = true := by
  have hnext : ∀ (token : FormulaToken) (x : Outcome (List FormulaToken)) (first rest : List Char),
      (∀ c ∈ first, isNameCharacter c = true) →
      (∀ tokens, x = .ok tokens → ∀ c ∈ rest, isNameCharacter c = true) →
      ∀ tokens, (do return token :: (← x)) = .ok tokens →
        ∀ c ∈ first ++ rest, isNameCharacter c = true := by
    intro token x first rest hf hx tokens h
    obtain ⟨behind, hb, -⟩ := bind_eq_ok_iff.mp h
    exact List.forall_mem_append.mpr ⟨hf, hx behind hb⟩
  have hone : ∀ {c : Char}, isNameCharacter c = true → ∀ d ∈ [c], isNameCharacter d = true :=
    fun hc => List.forall_mem_singleton.mpr hc
  fun_induction scan table text with
  | case1 => exact fun tokens h c hc => absurd hc List.not_mem_nil
  | case2 c rest hb ih =>
    exact fun tokens h => List.forall_mem_cons.mpr ⟨isNameCharacter_of_isBlank hb, ih tokens h⟩
  | case3 c rest hb hd more ih =>
    have hsplit : c :: rest = (c :: more) ++ rest.drop more.length := by
      rw [List.cons_append]
      exact congrArg (c :: ·) (List.prefix_iff_eq_append.mp (List.takeWhile_prefix _)).symm
    rw [hsplit]
    refine hnext _ _ _ _ (List.forall_mem_cons.mpr ⟨isNameCharacter_of_isDecimalDigit hd, ?_⟩) ih
    exact fun d hm => isNameCharacter_of_isDecimalDigit (List.mem_takeWhile_imp hm)
  | case4 c rest hb hd ho ih =>
    refine hnext _ _ [c] rest (hone ?_) ih
    rcases ho with rfl | rfl <;> decide
  | case5 c rest hb hd ho hc ih =>
    refine hnext _ _ [c] rest (hone ?_) ih
    rcases hc with rfl | rfl <;> decide
  | case6 =>
    intro tokens h
    cases h
  | case7 =>
    intro tokens h
    cases h
  | case8 c rest hb hd ho hc symbol hat he ih =>
    obtain ⟨hm, hs, -⟩ := longestAt?_eq_some_iff.mp hat
    obtain ⟨behind, hbehind⟩ := startsWith_iff.mp hs
    have hdrop : rest.drop (symbol.length - 1) = behind := by
      cases hl : symbol.toList with
      | nil => exact absurd (String.isEmpty_iff.mpr (String.toList_eq_nil_iff.mp hl)) he
      | cons first more =>
        rw [hl] at hbehind
        obtain ⟨-, rfl⟩ := List.cons.inj hbehind
        rw [← String.length_toList, hl, List.length_cons, Nat.add_sub_cancel, List.append_eq,
          List.drop_left]
    rw [← hbehind]
    exact hnext _ _ _ _ (ht symbol hm) (hdrop ▸ ih)

/-- What is left of a text without blanks and a hyphen at its start. -/
theorem Nuclide.isNameCharacter_of_dropHyphen {text : List Char}
    (h : ∀ c ∈ dropHyphen text, isNameCharacter c = true) :
    ∀ c ∈ text, isNameCharacter c = true := by
  have hblank : ∀ {text : List Char}, (∀ c ∈ trimLeft text, isNameCharacter c = true) →
      ∀ c ∈ text, isNameCharacter c = true := by
    intro text ht
    rw [← List.takeWhile_append_dropWhile (p := isBlank) (l := text)]
    refine List.forall_mem_append.mpr ⟨fun c hc => ?_, ht⟩
    exact isNameCharacter_of_isBlank (List.mem_takeWhile_imp hc)
  refine hblank ?_
  rw [dropHyphen] at h
  split at h
  · next rest hrest =>
    rw [hrest]
    exact List.forall_mem_cons.mpr ⟨by decide, hblank h⟩
  · exact h

/-- Nuclide notation is made of characters of names. -/
theorem Nuclide.isNameCharacter_of_splitNotation? {text : List Char}
    {parts : List Char × List Char} (h : splitNotation? text = some parts) :
    ∀ c ∈ trim text, isNameCharacter c = true := by
  have hsymbol : ∀ {letters : List Char}, isSymbol letters = true →
      ∀ c ∈ letters, isNameCharacter c = true := by
    intro letters hl c hc
    simp only [isSymbol, Bool.and_eq_true] at hl
    exact isNameCharacter_of_isLatinLetter (List.all_eq_true.mp hl.2 c hc)
  have hnumeral : ∀ {digits : List Char}, isNumeral digits = true →
      ∀ c ∈ digits, isNameCharacter c = true := by
    intro digits hd c hc
    simp only [isNumeral, Bool.and_eq_true] at hd
    exact isNameCharacter_of_isDecimalDigit (List.all_eq_true.mp hd.2 c hc)
  have hsplit : ∀ p : Char → Bool, (∀ c ∈ (trim text).takeWhile p, isNameCharacter c = true) →
      (∀ c ∈ dropHyphen ((trim text).drop ((trim text).takeWhile p).length),
        isNameCharacter c = true) → ∀ c ∈ trim text, isNameCharacter c = true := by
    intro p hfirst hbehind
    rw [← List.prefix_iff_eq_append.mp (List.takeWhile_prefix (l := trim text) p)]
    exact List.forall_mem_append.mpr ⟨hfirst, isNameCharacter_of_dropHyphen hbehind⟩
  simp only [splitNotation?] at h
  split at h
  · split at h
    · next hp =>
      rw [Bool.and_eq_true] at hp
      exact hsplit _ (hsymbol hp.1) (hnumeral hp.2)
    · cases h
  · split at h
    · next hp =>
      refine hsplit _ (fun c hc => ?_) (hsymbol hp)
      exact isNameCharacter_of_isDecimalDigit (List.mem_takeWhile_imp hc)
    · cases h

/-- The symbols of the named elements are made of characters of names. -/
theorem isNamed_standard : Catalogue.standard.elements.IsNamed := by
  intro symbol hs c hc
  obtain ⟨first, small, hl, hfirst, hsmall⟩ :=
    exists_of_isCapitalised (isCapitalised_standard symbol hs)
  rw [hl] at hc
  rcases List.mem_cons.mp hc with rfl | hc
  · exact isNameCharacter_of_isLatinLetter (Bool.or_eq_true_iff.mpr (.inl hfirst))
  · exact isNameCharacter_of_isLatinLetter (Bool.or_eq_true_iff.mpr (.inr (hsmall c hc)))

end Reference

namespace Catalogue

open Reference

/-- What is looked up in the standard tables is made of characters of names. -/
theorem isNameCharacter_of_lookup {name : String} {argument : List Char} {value : Quantity}
    (ht : Text.trim argument = argument)
    (h : standard.lookup name (String.ofList argument) = .ok value) :
    ∀ c ∈ argument, isNameCharacter c = true := by
  have htrim : Text.trimString (String.ofList argument) = String.ofList argument := by
    rw [Text.trimString, String.toList_ofList, ht]
  have hnotation : ∀ {field : String}, standard.nuclides.lookupText (String.ofList argument) field =
      .ok value → ∀ c ∈ argument, isNameCharacter c = true := by
    intro field hf
    obtain ⟨parts, hp, -⟩ := bind_eq_ok_iff.mp hf
    rw [Nuclide.ofNotation] at hp
    split at hp
    · cases hp
    · next digits letters hs =>
      have hall := Nuclide.isNameCharacter_of_splitNotation? hs
      rwa [String.toList_ofList, ht] at hall
  simp only [lookup, htrim] at h
  split at h
  · rw [constant] at h
    split at h
    · next found hfound =>
      obtain ⟨entry, he, -⟩ := Option.map_eq_some_iff.mp hfound
      have hall : ∀ entry ∈ standard.constants, entry.symbol.toList.all isNameCharacter = true := by
        decide +kernel
      have hsymbol : entry.symbol = String.ofList argument := by simpa using List.find?_some he
      have hchars := hall entry (List.mem_of_find?_eq_some he)
      rw [hsymbol, String.toList_ofList] at hchars
      exact List.all_eq_true.mp hchars
    · cases h
  · split at h
    · obtain ⟨formula, hf, -⟩ := bind_eq_ok_iff.mp h
      obtain ⟨tokens, hscan, -⟩ := bind_eq_ok_iff.mp hf
      rw [String.toList_ofList] at hscan
      exact FormulaToken.isNameCharacter_of_scan isNamed_standard argument tokens hscan
    · split at h
      · exact hnotation h
      · split at h
        · exact hnotation h
        · split at h
          · exact hnotation h
          · cases h

end Catalogue

end UnitCalculator
