import Mathlib.Data.List.TakeWhile
import UnitCalculator.Text.Blank
import UnitCalculator.Text.Matching

/-!
# Runs of characters and longest names

A run of characters of a class ends where another character follows. The longest of some names at
the start of a text is the longest of them at the start of that name alone.
-/

namespace UnitCalculator.Text

/-- No character of a class stands at the start of a text. -/
def Ends (p : Char → Bool) (text : List Char) : Prop := ∀ c ∈ text.head?, p c = false

variable {p : Char → Bool} {run rest : List Char}

/-- Nothing ends every run. -/
theorem Ends.nil : Ends p [] := by simp [Ends]

/-- A character outside a class ends its runs. -/
theorem Ends.cons {c : Char} (h : p c = false) : Ends p (c :: rest) := by simpa [Ends] using h

/-- A run is taken up to where it ends. -/
theorem takeWhile_append (hr : ∀ c ∈ run, p c = true) (he : Ends p rest) :
    (run ++ rest).takeWhile p = run := by
  have hnil : rest.takeWhile p = [] := by
    cases rest with
    | nil => rfl
    | cons c rest => simp [he c (by simp)]
  rw [List.takeWhile_append_of_pos hr, hnil, List.append_nil]

/-- What stands in front of the first occurrence of a character is taken up to it. -/
theorem takeWhile_ne_append {c : Char} (h : c ∉ run) (behind : List Char) :
    (run ++ c :: behind).takeWhile (· ≠ c) = run := by
  refine takeWhile_append (fun d hd => ?_) (.cons (by simp))
  rw [decide_eq_true_eq]
  exact fun he => h (he ▸ hd)

/-- A text without a class at its start keeps nothing of it. -/
theorem dropWhile_of_ends (he : Ends p rest) : rest.dropWhile p = rest := by
  cases rest with
  | nil => rfl
  | cons c rest => simp [he c (by simp)]

/-- Behind a run the text goes on where the run ends. -/
theorem dropWhile_append (hr : ∀ c ∈ run, p c = true) (he : Ends p rest) :
    (run ++ rest).dropWhile p = rest := by
  rw [List.dropWhile_append_of_pos hr, dropWhile_of_ends he]

/-- What is left of a text without a class at its start ends the runs of that class. -/
theorem ends_dropWhile (text : List Char) : Ends p (text.dropWhile p) := by
  induction text with
  | nil => exact .nil
  | cons c text ih =>
    cases hc : p c with
    | false => simpa [hc] using Ends.cons hc
    | true => simpa [hc] using ih

/-- What ends the runs of a class does so if the text is cut short. -/
theorem Ends.cut {text : List Char} (h : Ends p text) (hp : rest <+: text) :
    Ends p rest := by
  obtain ⟨behind, rfl⟩ := hp
  cases rest with
  | nil => exact .nil
  | cons c rest => exact .cons (h c (by simp))

/-- A stripped text has nothing left to strip. -/
theorem strip_strip (p : Char → Bool) (text : List Char) :
    strip p (strip p text) = strip p text := by
  have hfront : Ends p (strip p text) := by
    refine (ends_dropWhile text).cut ?_
    rw [strip, ← List.reverse_suffix, List.reverse_reverse]
    exact List.dropWhile_suffix p
  have hback : Ends p (strip p text).reverse := by
    rw [strip, List.reverse_reverse]
    exact ends_dropWhile _
  rw [strip, dropWhile_of_ends hfront, dropWhile_of_ends hback, List.reverse_reverse]

/-- A word between runs of a class of which it holds nothing is what is left of the text. -/
theorem strip_append {front word back : List Char} (hf : ∀ c ∈ front, p c = true)
    (hw : ∀ c ∈ word, p c = false) (hb : ∀ c ∈ back, p c = true) :
    strip p (front ++ word ++ back) = word := by
  have hends : ∀ text : List Char, (∀ c ∈ text, p c = false) → Ends p text := by
    intro text ht
    cases text with
    | nil => exact .nil
    | cons c rest => exact .cons (ht c List.mem_cons_self)
  have hback : ∀ text : List Char, (∀ c ∈ text, p c = false) →
      ((text ++ back).reverse.dropWhile p).reverse = text := by
    intro text ht
    rw [List.reverse_append, dropWhile_append (fun c hc => hb c (List.mem_reverse.mp hc))
      (hends _ fun c hc => ht c (List.mem_reverse.mp hc)), List.reverse_reverse]
  rw [strip, List.append_assoc, List.dropWhile_append_of_pos hf]
  cases word with
  | nil =>
    have hnone : back.dropWhile p = [] := List.dropWhile_eq_nil_iff.mpr hb
    rw [List.nil_append, hnone]
    rfl
  | cons c rest =>
    have hfirst : Ends p (c :: rest ++ back) := .cons (hw c List.mem_cons_self)
    rw [dropWhile_of_ends hfirst, hback _ hw]

/-- A space behind a word is no part of it. -/
theorem trim_space {word : List Char} (h : ∀ c ∈ word, isBlank c = false) :
    trim (word ++ [' ']) = word :=
  strip_append (List.forall_mem_nil _) h (List.forall_mem_singleton.mpr (by decide))

/-- A text is its stripped part between runs of the class. -/
theorem exists_strip (p : Char → Bool) (text : List Char) : ∃ front back,
    text = front ++ strip p text ++ back ∧ (∀ c ∈ front, p c = true) ∧
      ∀ c ∈ back, p c = true := by
  have hback := List.takeWhile_append_dropWhile (p := p) (l := (text.dropWhile p).reverse)
  have hrest : text.dropWhile p =
      strip p text ++ ((text.dropWhile p).reverse.takeWhile p).reverse := by
    rw [strip, ← List.reverse_append, hback, List.reverse_reverse]
  refine ⟨text.takeWhile p, ((text.dropWhile p).reverse.takeWhile p).reverse, ?_, ?_, ?_⟩
  · rw [List.append_assoc, ← hrest, List.takeWhile_append_dropWhile]
  · exact fun c hc => List.mem_takeWhile_imp hc
  · exact fun c hc => List.mem_takeWhile_imp (List.mem_reverse.mp hc)

/-- A name at the start of a text is a prefix of it. -/
theorem startsWith_iff {name : String} {text : List Char} :
    startsWith name text = true ↔ name.toList <+: text :=
  List.isPrefixOf_iff_prefix

/-- A run of a class that starts a text stands in front of where the runs of that class end. -/
theorem prefix_of_prefix_append {name : List Char} (hn : ∀ c ∈ name, p c = true)
    (he : Ends p rest) (h : name <+: run ++ rest) : name <+: run := by
  rcases Nat.le_total name.length run.length with hl | hl
  · exact List.prefix_of_prefix_length_le h (List.prefix_append run rest) hl
  · obtain ⟨more, rfl⟩ := List.prefix_of_prefix_length_le (List.prefix_append run rest) h hl
    cases more with
    | nil => simp
    | cons c more =>
      obtain ⟨behind, rfl⟩ := (List.prefix_append_right_inj run).mp h
      have hc : p c = false := he c (by simp)
      rw [hn c (by simp)] at hc
      cases hc

/-- Names of one length at the start of a text are the same. -/
theorem eq_of_startsWith {a b : String} {text : List Char} (ha : startsWith a text = true)
    (hb : startsWith b text = true) (hl : a.length = b.length) : a = b := by
  have hp := List.prefix_of_prefix_length_le (startsWith_iff.mp ha) (startsWith_iff.mp hb)
    (by rw [String.length_toList, String.length_toList, hl])
  refine String.toList_inj.mp (hp.eq_of_length ?_)
  rw [String.length_toList, String.length_toList, hl]

/-- The longest of some names is one of them, and none is longer. -/
theorem foldl_longer (first : String) (others : List String) :
    others.foldl longer first ∈ first :: others ∧
      ∀ name ∈ first :: others, name.length ≤ (others.foldl longer first).length := by
  induction others generalizing first with
  | nil => simp
  | cons second others ih =>
    obtain ⟨hm, hl⟩ := ih (longer first second)
    have hlonger : longer first second ∈ [first, second] ∧
        first.length ≤ (longer first second).length ∧
        second.length ≤ (longer first second).length := by
      unfold longer
      split
      · next h => exact ⟨by simp, by omega, Nat.le_refl _⟩
      · next h => exact ⟨by simp, Nat.le_refl _, by omega⟩
    obtain ⟨hchosen, hfirst, hsecond⟩ := hlonger
    have hbound := hl _ List.mem_cons_self
    rw [List.foldl_cons]
    constructor
    · rcases List.mem_cons.mp hm with he | hm
      · rw [he]
        exact List.mem_append_left others hchosen
      · exact List.mem_cons_of_mem _ (List.mem_cons_of_mem _ hm)
    · intro name hn
      rcases List.mem_cons.mp hn with rfl | hn
      · exact Nat.le_trans hfirst hbound
      · rcases List.mem_cons.mp hn with rfl | hn
        · exact Nat.le_trans hsecond hbound
        · exact hl name (List.mem_cons_of_mem _ hn)

/-- The longest of some names at the start of a text. -/
theorem longestAt?_eq_some_iff {names : List String} {text : List Char} {name : String} :
    longestAt? names text = some name ↔
      name ∈ names ∧ startsWith name text = true ∧
        ∀ other ∈ names, startsWith other text = true → other.length ≤ name.length := by
  unfold longestAt?
  split
  · next h =>
    have hnone : ∀ other ∈ names, ¬ startsWith other text = true := List.filter_eq_nil_iff.mp h
    constructor
    · intro he
      cases he
    · rintro ⟨hn, hs, -⟩
      exact absurd hs (hnone name hn)
  · next first others h =>
    have hmem : ∀ other, other ∈ first :: others ↔
        other ∈ names ∧ startsWith other text = true := by
      intro other
      rw [← h, List.mem_filter]
    obtain ⟨hm, hl⟩ := foldl_longer first others
    obtain ⟨hn, hs⟩ := (hmem _).mp hm
    constructor
    · rintro ⟨⟩
      exact ⟨hn, hs, fun other ho hso => hl other ((hmem other).mpr ⟨ho, hso⟩)⟩
    · rintro ⟨hname, hstart, hbound⟩
      have hle := hl name ((hmem name).mpr ⟨hname, hstart⟩)
      exact congrArg some (eq_of_startsWith hs hstart (Nat.le_antisymm (hbound _ hn hs) hle))

end UnitCalculator.Text
