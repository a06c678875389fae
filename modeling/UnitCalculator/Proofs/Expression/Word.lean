import Mathlib.Data.List.Find
import UnitCalculator.Proofs.Expression.Numeral
import UnitCalculator.Proofs.Units.Symbol

/-!
# Words in front of a text

A name is called where a bracket follows it as a whole word. A word is read as the longest unit or
known variable that starts it, and the text of that one alone is read in the same way.
-/

namespace UnitCalculator

namespace Scanner

open Text

/-- Code points of characters that words start with. -/
theorem toNat_of_startsWord {c : Char} (h : startsWord c = true) :
    (65 ≤ c.toNat ∧ c.toNat ≤ 90) ∨ (97 ≤ c.toNat ∧ c.toNat ≤ 122) ∨ c.toNat = 937 ∨
      c.toNat = 956 := by
  simp only [startsWord, isLatinLetter, Bool.or_eq_true, Bool.and_eq_true, decide_eq_true_eq] at h
  rcases h with ((⟨hl, hu⟩ | ⟨hl, hu⟩) | rfl) | rfl
  · exact .inl ⟨hl, hu⟩
  · exact .inr (.inl ⟨hl, hu⟩)
  · exact .inr (.inr (.inr rfl))
  · exact .inr (.inr (.inl rfl))

/-- Code points of the characters of words. -/
theorem toNat_of_continuesWord {c : Char} (h : continuesWord c = true) :
    (48 ≤ c.toNat ∧ c.toNat ≤ 57) ∨ (65 ≤ c.toNat ∧ c.toNat ≤ 90) ∨ c.toNat = 95 ∨
      (97 ≤ c.toNat ∧ c.toNat ≤ 122) ∨ c.toNat = 937 ∨ c.toNat = 956 := by
  simp only [continuesWord, isLatinDigit, Bool.or_eq_true, Bool.and_eq_true,
    decide_eq_true_eq] at h
  rcases h with (h | ⟨hl, hu⟩) | rfl
  · rcases toNat_of_startsWord h with h | h | h | h <;> simp [h]
  · exact .inl ⟨hl, hu⟩
  · exact .inr (.inr (.inl rfl))

/-- Words contain no blanks. -/
theorem isBlank_of_continuesWord {c : Char} (h : continuesWord c = true) : isBlank c = false := by
  have hn := toNat_of_continuesWord h
  have hwide : ∀ space ∈ wideSpaces, 122 < space ∧ space ≠ 937 ∧ space ≠ 956 := by decide
  refine Bool.eq_false_iff.mpr fun hb => ?_
  rcases isBlank_iff.mp hb with hb | hb | hb
  · omega
  · omega
  · obtain ⟨hletter, homega, hmu⟩ := hwide _ hb
    omega

/-- A text that starts with a character of words opens no bracket. -/
theorem opensBracket_of_continuesWord {c : Char} (h : continuesWord c = true)
    (rest : List Char) : opensBracket (c :: rest) = false := by
  have hblank : isBlank c = false := isBlank_of_continuesWord h
  have hopen : c ≠ '(' := by
    rintro rfl
    exact absurd h (by decide)
  simp [opensBracket, trimLeft, hblank, hopen]

/-- Names of word characters stand before a bracket only where they are the whole word. -/
theorem callAt?_append {names : List String} {run rest : List Char}
    (hn : ∀ name ∈ names, ∀ c ∈ name.toList, continuesWord c = true)
    (hr : ∀ c ∈ run, continuesWord c = true) (he : Ends continuesWord rest) :
    callAt? names (run ++ rest) =
      if opensBracket rest then names.find? (· = String.ofList run) else none := by
  have hwhole : ∀ name ∈ names,
      (startsWith name (run ++ rest) && opensBracket ((run ++ rest).drop name.length)) =
        (opensBracket rest && decide (name = String.ofList run)) := by
    intro name hname
    rw [Bool.eq_iff_iff, Bool.and_eq_true, Bool.and_eq_true, startsWith_iff, decide_eq_true_eq]
    constructor
    · rintro ⟨hstart, hopen⟩
      have hleads : name.toList <+: run := prefix_of_prefix_append (hn name hname) he hstart
      obtain ⟨more, rfl⟩ := hleads
      rw [← String.length_toList, List.append_assoc, List.drop_left] at hopen
      cases more with
      | nil => exact ⟨hopen, by rw [List.append_nil, String.ofList_toList]⟩
      | cons c more =>
        have hc : continuesWord c = true := hr c (by simp)
        rw [List.cons_append, opensBracket_of_continuesWord hc] at hopen
        cases hopen
    · rintro ⟨hopen, rfl⟩
      rw [← String.length_toList, String.toList_ofList, List.drop_left]
      exact ⟨List.prefix_append run rest, hopen⟩
  rw [callAt?]
  split
  · next hopen =>
    refine List.find?_congr fun name hname => ?_
    rw [hwhole name hname, hopen, Bool.true_and]
  · next hopen =>
    rw [List.find?_eq_none]
    intro name hname
    simp [hwhole name hname, hopen]

/-- The unit at the start of a text has the longest symbol that fits. -/
theorem of_unitAt? {text : List Char} {size : Nat} {symbol : String} {value : Quantity}
    (h : unitAt? text size = some (symbol, value)) :
    Units.resolve? symbol = some value ∧ ∃ n, n < size ∧
      symbol = String.ofList (text.take (n + 1)) ∧
      ∀ m, n < m → m < size → Units.resolve? (String.ofList (text.take (m + 1))) = none := by
  induction size with
  | zero => cases h
  | succ size ih =>
    simp only [unitAt?] at h
    split at h
    · next unit hunit =>
      obtain ⟨rfl, rfl⟩ := Prod.mk.inj (Option.some.inj h)
      exact ⟨hunit, size, by omega, rfl, fun m hl hu => by omega⟩
    · next hnone =>
      obtain ⟨hr, n, hn, hs, hlonger⟩ := ih h
      refine ⟨hr, n, by omega, hs, fun m hl hu => ?_⟩
      rcases Nat.lt_succ_iff_lt_or_eq.mp hu with hu | rfl
      · exact hlonger m hl hu
      · exact hnone

/-- Without a unit at the start of a text no start of it is a symbol. -/
theorem of_unitAt?_none {text : List Char} {size : Nat} (h : unitAt? text size = none) {m : Nat}
    (hm : m < size) : Units.resolve? (String.ofList (text.take (m + 1))) = none := by
  induction size with
  | zero => omega
  | succ size ih =>
    simp only [unitAt?] at h
    split at h
    · cases h
    · next hnone =>
      rcases Nat.lt_succ_iff_lt_or_eq.mp hm with hm | rfl
      · exact ih h hm
      · exact hnone

/-- A symbol is the unit at its own start. -/
theorem unitAt?_self {symbol : String} {value : Quantity}
    (h : Units.resolve? symbol = some value) (hne : symbol.toList ≠ []) :
    unitAt? symbol.toList symbol.toList.length = some (symbol, value) := by
  obtain ⟨size, hsize⟩ : ∃ size, symbol.toList.length = size + 1 :=
    Nat.exists_eq_succ_of_ne_zero fun hl => hne (List.length_eq_zero_iff.mp hl)
  rw [hsize, unitAt?, ← hsize, List.take_length, String.ofList_toList, h]

/-- A name at the start of a word that is longer than every unit there is no symbol. -/
theorem resolve?_eq_none_of_longer {name : String} {word : List Char}
    (hp : name.toList <+: word) (hne : name.toList ≠ [])
    (h : ∀ symbol value, unitAt? word word.length = some (symbol, value) →
      symbol.length < name.length) : Units.resolve? name = none := by
  obtain ⟨size, hsize⟩ : ∃ size, name.toList.length = size + 1 :=
    Nat.exists_eq_succ_of_ne_zero fun hl => hne (List.length_eq_zero_iff.mp hl)
  have hlt : size < word.length := by
    have := hp.length_le
    omega
  have hname : String.ofList (word.take (size + 1)) = name := by
    rw [← hsize, ← List.prefix_iff_eq_take.mp hp, String.ofList_toList]
  cases hu : unitAt? word word.length with
  | none =>
    have hnone := of_unitAt?_none hu hlt
    rwa [hname] at hnone
  | some unit =>
    obtain ⟨symbol, value⟩ := unit
    obtain ⟨-, n, hn, hs, hlonger⟩ := of_unitAt? hu
    have hshort : symbol.length < name.length := h symbol value hu
    have hlength : symbol.length = n + 1 := by
      rw [hs, ← String.length_toList, String.toList_ofList, List.length_take]
      omega
    rw [String.length_toList] at hsize
    have hnone := hlonger size (by omega) hlt
    rwa [hname] at hnone

/-- A known name that is no symbol is the variable at its own start. -/
theorem wordAt?_reference {known : List String} {name : String}
    (hself : longestAt? (known.filter (· ≠ "")) name.toList = some name)
    (hnone : Units.resolve? name = none) : wordAt? known name.toList = some (.reference name) := by
  simp only [wordAt?, hself]
  cases hu : unitAt? name.toList name.toList.length with
  | none => rfl
  | some unit =>
    obtain ⟨symbol, value⟩ := unit
    obtain ⟨hr, n, hn, hs, -⟩ := of_unitAt? hu
    have hlength : symbol.length = n + 1 := by
      rw [hs, ← String.length_toList, String.toList_ofList, List.length_take]
      omega
    have hne : n + 1 ≠ name.toList.length := by
      intro he
      rw [he, List.take_length, String.ofList_toList] at hs
      rw [hs, hnone] at hr
      cases hr
    rw [String.length_toList] at hn hne
    exact if_pos (by omega)

/-- A symbol is the unit at its own start, whatever variables are known. -/
theorem wordAt?_unit (known : List String) {symbol : String} {value : Quantity}
    (hr : Units.resolve? symbol = some value) (hne : symbol.toList ≠ []) :
    wordAt? known symbol.toList = some (.unit symbol value) := by
  simp only [wordAt?, unitAt?_self hr hne]
  cases hl : longestAt? (known.filter (· ≠ "")) symbol.toList with
  | none => rfl
  | some name =>
    obtain ⟨-, hstart, -⟩ := longestAt?_eq_some_iff.mp hl
    have hle := (startsWith_iff.mp hstart).length_le
    rw [String.length_toList, String.length_toList] at hle
    exact if_neg (by omega)

/-- A unit or known variable whose text starts a word and spells it alone as well. -/
structure StartsWord (known : List String) (word : List Char) (lexeme : Lexeme) : Prop where
  /-- The text starts the word. -/
  start : lexeme.text.toList <+: word
  /-- The text is not empty. -/
  nonempty : lexeme.text.toList ≠ []
  /-- The text alone is read as the same lexeme. -/
  alone : wordAt? known lexeme.text.toList = some lexeme
  /-- The lexeme is a variable or the unit of its symbol. -/
  sort : (∃ name, lexeme = .reference name) ∨
    ∃ symbol value, lexeme = .unit symbol value ∧ Units.resolve? symbol = some value

/-- A known name that is longer than every unit at the start of a word is the variable there. -/
theorem startsWord_reference {known : List String} {word : List Char} {name : String}
    (hlongest : longestAt? (known.filter (· ≠ "")) word = some name)
    (hlonger : ∀ symbol value, unitAt? word word.length = some (symbol, value) →
      symbol.length < name.length) : StartsWord known word (.reference name) := by
  obtain ⟨hmem, hstart, hbound⟩ := longestAt?_eq_some_iff.mp hlongest
  have hleads : name.toList <+: word := startsWith_iff.mp hstart
  have hne : name.toList ≠ [] := by
    intro hnil
    have hempty : name ≠ "" := by simpa using (List.mem_filter.mp hmem).2
    exact hempty (by rw [← String.ofList_toList (s := name), hnil])
  refine ⟨hleads, hne, wordAt?_reference ?_ (resolve?_eq_none_of_longer hleads hne hlonger),
    .inl ⟨name, rfl⟩⟩
  refine longestAt?_eq_some_iff.mpr ⟨hmem, startsWith_iff.mpr List.prefix_rfl, ?_⟩
  intro other ho hso
  exact hbound other ho (startsWith_iff.mpr ((startsWith_iff.mp hso).trans hleads))

/-- The symbol of the unit at the start of a word is that unit. -/
theorem startsWord_unit (known : List String) {word : List Char} {symbol : String}
    {value : Quantity} (hu : unitAt? word word.length = some (symbol, value)) :
    StartsWord known word (.unit symbol value) := by
  obtain ⟨hr, n, hn, rfl, -⟩ := of_unitAt? hu
  have hne : (String.ofList (word.take (n + 1))).toList ≠ [] := by
    rw [String.toList_ofList]
    exact List.ne_nil_of_length_pos (by rw [List.length_take]; omega)
  refine ⟨?_, hne, wordAt?_unit known hr hne, .inr ⟨_, value, rfl, hr⟩⟩
  rw [Lexeme.text, String.toList_ofList]
  exact List.take_prefix (n + 1) word

/-- What a word starts with is a unit or a known variable, and stands there alone as well. -/
theorem startsWord_of_wordAt? {known : List String} {word : List Char} {lexeme : Lexeme}
    (h : wordAt? known word = some lexeme) : StartsWord known word lexeme := by
  simp only [wordAt?] at h
  split at h
  · next name symbol value hn hu =>
    split at h
    · next hlt =>
      obtain rfl := Option.some.inj h
      refine startsWord_reference hn fun other value' ho => ?_
      rw [hu] at ho
      obtain ⟨rfl, -⟩ := Prod.mk.inj (Option.some.inj ho)
      exact hlt
    · obtain rfl := Option.some.inj h
      exact startsWord_unit known hu
  · next name hn hu =>
    obtain rfl := Option.some.inj h
    refine startsWord_reference hn fun other value' ho => ?_
    rw [hu] at ho
    cases ho
  · next symbol value hn hu =>
    obtain rfl := Option.some.inj h
    exact startsWord_unit known hu
  · cases h

end Scanner

end UnitCalculator
