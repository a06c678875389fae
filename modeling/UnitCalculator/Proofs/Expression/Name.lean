import UnitCalculator.Proofs.Expression.Evaluation
import UnitCalculator.Proofs.Expression.Reading

/-!
# Names that lines assign

A line assigns the identifier in front of its first sign of assignment, with blanks around it at
most. The name is found by looking for an identifier at the start of the line, or by cutting the
line at the sign and trimming what stands before it. Both find the same names, so the variable of a
compiled equation is the one that is found without compiling.
-/

namespace UnitCalculator

namespace VariableName

open Text

/-- A line assigns a name: the name is an identifier, a sign of assignment follows it, and nothing
but blanks stands in front of it and between the two. -/
def Assigns (line name : List Char) : Prop :=
  isIdentifier name = true ∧ ∃ front back rest, line = front ++ name ++ back ++ '=' :: rest ∧
    (∀ c ∈ front, isBlank c = true) ∧ ∀ c ∈ back, isBlank c = true

variable {line name : List Char} {v : String}

/-- An identifier is a letter in front of further characters. -/
theorem exists_of_isIdentifier (h : isIdentifier name = true) :
    ∃ c rest, name = c :: rest ∧ isLatinLetter c = true ∧
      ∀ d ∈ rest, isIdentifierChar d = true := by
  cases name with
  | nil => cases h
  | cons c rest =>
    rw [isIdentifier, Bool.and_eq_true, List.all_eq_true] at h
    exact ⟨c, rest, rfl, h⟩

/-- Identifiers are made of word characters. -/
theorem continuesWord_of_isIdentifierChar {c : Char} (h : isIdentifierChar c = true) :
    Scanner.continuesWord c = true := by
  simp only [isIdentifierChar, Bool.or_eq_true] at h
  simp only [Scanner.continuesWord, Scanner.startsWord, Bool.or_eq_true]
  tauto

/-- Identifiers start like words. -/
theorem startsWord_of_isLatinLetter {c : Char} (h : isLatinLetter c = true) :
    Scanner.startsWord c = true := by
  rw [Scanner.startsWord, h]
  rfl

/-- An identifier is a word. -/
theorem continuesWord_of_isIdentifier (h : isIdentifier name = true) :
    ∀ c ∈ name, Scanner.continuesWord c = true := by
  obtain ⟨c, rest, rfl, hc, hrest⟩ := exists_of_isIdentifier h
  refine List.forall_mem_cons.mpr ⟨?_, fun d hd =>
    continuesWord_of_isIdentifierChar (hrest d hd)⟩
  rw [Scanner.continuesWord, startsWord_of_isLatinLetter hc]
  rfl

/-- No blank stands in an identifier. -/
theorem isBlank_of_isIdentifier (h : isIdentifier name = true) : ∀ c ∈ name, isBlank c = false :=
  fun c hc => Scanner.isBlank_of_continuesWord (continuesWord_of_isIdentifier h c hc)

/-- No sign of assignment stands in an identifier. -/
theorem not_mem_of_isIdentifier (h : isIdentifier name = true) : '=' ∉ name := fun hm =>
  absurd (continuesWord_of_isIdentifier h '=' hm) (by decide)

/-- A name that can be assigned is an identifier. -/
theorem isIdentifier_of_isValid (h : isValid v = true) : isIdentifier v.toList = true := by
  simp only [isValid, Bool.and_eq_true] at h
  exact h.1.1.1

/-- A name that can be assigned is made of word characters. -/
theorem continuesWord_of_isValid (h : isValid v = true) :
    ∀ c ∈ v.toList, Scanner.continuesWord c = true :=
  continuesWord_of_isIdentifier (isIdentifier_of_isValid h)

/-- Behind blanks a line assigns at most the identifier that its first letter starts. -/
theorem assigned?_of_trimLeft {c : Char} {rest : List Char} (ht : trimLeft line = c :: rest) :
    assigned? line =
      if isLatinLetter c ∧ (trimLeft (rest.dropWhile isIdentifierChar)).head? = some '=' then
        some (String.ofList (c :: rest.takeWhile isIdentifierChar))
      else none := by
  have hdrop : rest.drop (rest.takeWhile isIdentifierChar).length =
      rest.dropWhile isIdentifierChar := by
    have hsplit := congrArg (List.drop (rest.takeWhile isIdentifierChar).length)
      (List.takeWhile_append_dropWhile (p := isIdentifierChar) (l := rest))
    rw [← hsplit, List.drop_left]
  cases hc : isLatinLetter c with
  | false => simp [assigned?, ht, hc]
  | true =>
    simp only [assigned?, ht, hc, if_true, List.isEmpty_cons, Bool.false_eq_true, if_false,
      List.length_cons, List.drop_succ_cons, hdrop, true_and]
    cases trimLeft (rest.dropWhile isIdentifierChar) with
    | nil => rfl
    | cons d behind => by_cases hd : d = '=' <;> simp [hd]

/-- The name that is found in a line is the one that the line assigns. -/
theorem assigned?_eq_some_iff : assigned? line = some v ↔ Assigns line v.toList := by
  constructor
  · intro h
    cases ht : trimLeft line with
    | nil => simp [assigned?, ht] at h
    | cons c rest =>
      rw [assigned?_of_trimLeft ht, Option.ite_none_right_eq_some, Option.some.injEq] at h
      obtain ⟨⟨hc, hsign⟩, rfl⟩ := h
      obtain ⟨behind, hbehind⟩ := List.head?_eq_some_iff.mp hsign
      have hline := List.takeWhile_append_dropWhile (p := isBlank) (l := line)
      have hrest := List.takeWhile_append_dropWhile (p := isIdentifierChar) (l := rest)
      have hback := List.takeWhile_append_dropWhile (p := isBlank)
        (l := rest.dropWhile isIdentifierChar)
      have hstart : line.dropWhile isBlank = c :: rest := ht
      have hopen : (rest.dropWhile isIdentifierChar).dropWhile isBlank = '=' :: behind := hbehind
      refine ⟨?_, line.takeWhile isBlank, (rest.dropWhile isIdentifierChar).takeWhile isBlank,
        behind, ?_, fun _ => List.mem_takeWhile_imp, fun _ => List.mem_takeWhile_imp⟩
      · rw [String.toList_ofList, isIdentifier, hc, Bool.true_and, List.all_eq_true]
        exact fun _ => List.mem_takeWhile_imp
      · rw [String.toList_ofList, List.append_assoc, ← hopen, hback, List.append_assoc,
          List.cons_append, hrest, ← hstart, hline]
  · rintro ⟨hv, front, back, rest, hline, hfront, hback⟩
    obtain ⟨c, word, hword, hc, hchars⟩ := exists_of_isIdentifier hv
    have hblank : isBlank c = false := isBlank_of_isIdentifier hv c (by simp [hword])
    have hends : Ends isIdentifierChar (back ++ '=' :: rest) := by
      cases back with
      | nil => exact .cons (by decide)
      | cons d back =>
        refine .cons (Bool.eq_false_iff.mpr fun hd => ?_)
        have hunblank := Scanner.isBlank_of_continuesWord (continuesWord_of_isIdentifierChar hd)
        rw [hback d List.mem_cons_self] at hunblank
        cases hunblank
    have hstart : trimLeft line = c :: (word ++ (back ++ '=' :: rest)) := by
      rw [hline, hword, List.append_assoc, List.append_assoc, trimLeft]
      exact dropWhile_append hfront (.cons hblank)
    have hsign : trimLeft (back ++ '=' :: rest) = '=' :: rest :=
      dropWhile_append hback (.cons (by decide))
    rw [assigned?_of_trimLeft hstart, dropWhile_append hchars hends, hsign,
      takeWhile_append hchars hends, if_pos ⟨hc, rfl⟩, ← hword, String.ofList_toList]

/-- A line assigns what is left of the part before its first sign of assignment without the blanks
around it, if that is an identifier. -/
theorem assigns_iff : Assigns line name ↔
    '=' ∈ line ∧ trim (line.takeWhile (· ≠ '=')) = name ∧ isIdentifier name = true := by
  constructor
  · rintro ⟨hname, front, back, rest, rfl, hfront, hback⟩
    have hsign : isBlank '=' = false := by decide
    have hbefore : '=' ∉ front ++ name ++ back := by
      rw [List.mem_append, List.mem_append]
      rintro ((hm | hm) | hm)
      · exact Bool.false_ne_true (hsign.symm.trans (hfront _ hm))
      · exact not_mem_of_isIdentifier hname hm
      · exact Bool.false_ne_true (hsign.symm.trans (hback _ hm))
    refine ⟨by simp, ?_, hname⟩
    rw [takeWhile_ne_append hbefore, trim,
      strip_append hfront (isBlank_of_isIdentifier hname) hback]
  · rintro ⟨hm, htrim, hname⟩
    obtain ⟨before, rest, rfl, hbefore⟩ := List.eq_append_cons_of_mem hm
    obtain ⟨front, back, hsplit, hfront, hback⟩ := exists_strip isBlank before
    rw [takeWhile_ne_append hbefore, trim] at htrim
    rw [htrim] at hsplit
    exact ⟨hname, front, back, rest, by rw [hsplit], hfront, hback⟩

/-- Cutting a line at its first sign of assignment finds the same name. -/
theorem assigned?_eq_some_iff_trim : assigned? line = some v ↔
    '=' ∈ line ∧ trim (line.takeWhile (· ≠ '=')) = v.toList ∧ isIdentifier v.toList = true :=
  assigned?_eq_some_iff.trans assigns_iff

end VariableName

namespace Scanner

/-- A known name that can be assigned is the variable at its own start. -/
theorem wordAt?_of_isValid {known : List String} {v : String}
    (hv : VariableName.isValid v = true) (hk : v ∈ known) :
    wordAt? known v.toList = some (.reference v) := by
  have hne : v ≠ "" := by
    rintro rfl
    exact absurd hv (by decide)
  have hnone : Units.resolve? v = none := by
    simp only [VariableName.isValid, Bool.and_eq_true] at hv
    exact Option.isNone_iff_eq_none.mp hv.2
  refine wordAt?_reference (Text.longestAt?_eq_some_iff.mpr ⟨?_, ?_, ?_⟩) hnone
  · exact List.mem_filter.mpr ⟨hk, by simpa using hne⟩
  · exact Text.startsWith_iff.mpr List.prefix_rfl
  · intro other _ hother
    have hle := (Text.startsWith_iff.mp hother).length_le
    rwa [String.length_toList, String.length_toList] at hle

end Scanner

namespace Equation

variable {catalogue : Catalogue} {known : List String} {source v : String} {e : Equation}

/-- The variable of a compiled equation is the name that its text assigns. -/
theorem target?_of_compile (h : compile catalogue known source = .ok e) :
    e.target? = VariableName.assigned? source.toList := by
  by_cases hs : '=' ∈ source.toList
  · obtain ⟨before, after, hsplit, hb⟩ := List.eq_append_cons_of_mem hs
    obtain ⟨-, hvalid, tree, -, hroot⟩ := (compile_assignment hsplit hb).mp h
    have hassigned : VariableName.assigned? source.toList =
        some (String.ofList (Text.trim before)) := by
      refine VariableName.assigned?_eq_some_iff_trim.mpr ⟨hs, ?_, ?_⟩
      · rw [hsplit, Text.takeWhile_ne_append hb, String.toList_ofList]
      · exact VariableName.isIdentifier_of_isValid hvalid
    rw [target?, hroot, hassigned]
    rfl
  · have hassigned : VariableName.assigned? source.toList = none := by
      rw [Option.eq_none_iff_forall_ne_some]
      exact fun v hv => hs (VariableName.assigned?_eq_some_iff_trim.mp hv).1
    obtain ⟨-, raw, folded, -, -, hspells⟩ := (compile_expression hs).mp h
    have hplain := hspells.plain le_rfl
    rw [hassigned, target?]
    split
    · next he =>
      rw [he] at hplain
      exact absurd rfl hplain.1
    · rfl

/-- A compiled equation assigns only a name that can be assigned. -/
theorem isValid_of_compile (h : compile catalogue known source = .ok e)
    (ht : e.target? = some v) : VariableName.isValid v = true := by
  obtain ⟨hs, htrim, -⟩ := VariableName.assigned?_eq_some_iff_trim.mp
    ((target?_of_compile h).symm.trans ht)
  obtain ⟨before, after, hsplit, hb⟩ := List.eq_append_cons_of_mem hs
  obtain ⟨-, hvalid, tree, -, hroot⟩ := (compile_assignment hsplit hb).mp h
  rw [target?, hroot] at ht
  rwa [← Option.some.inj ht]

end Equation

end UnitCalculator
