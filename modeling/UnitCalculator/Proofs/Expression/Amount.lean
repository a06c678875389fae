import UnitCalculator.Proofs.Expression.Denoting

/-!
# Amounts as expressions

An amount is a number text, blanks, and the symbol of a unit or nothing. As an expression it is the
number, or the product of the number and the unit that is implied between them.
-/

namespace UnitCalculator

open Scanner Text Grammar

namespace Scanner

/-- Number texts hold digits, points, signs and marks of powers of ten. -/
theorem IsNumeral.isDecimalDigit_or {text : List Char} (h : IsNumeral text) :
    ∀ c ∈ text, isDecimalDigit c = true ∨ c ∈ ['.', '+', '-', 'e', 'E'] := by
  obtain ⟨decimal, power, hdecimal, hpower, rfl⟩ := h
  intro c hc
  rcases List.mem_append.mp hc with hc | hc
  · obtain ⟨whole, hw, ⟨-, rfl⟩ | ⟨fraction, hf, -, rfl⟩⟩ := hdecimal
    · exact .inl (hw c hc)
    · rcases List.mem_append.mp hc with hc | hc
      · exact .inl (hw c hc)
      · rcases List.mem_cons.mp hc with rfl | hc
        · exact .inr (by decide)
        · exact .inl (hf c hc)
  · rcases hpower with rfl | ⟨mark, sign, digits, hmark, hsign, -, hd, rfl⟩
    · cases hc
    · rcases List.mem_cons.mp hc with rfl | hc
      · rcases hmark with rfl | rfl <;> exact .inr (by decide)
      · rcases List.mem_append.mp hc with hc | hc
        · rcases hsign with rfl | rfl | rfl
          · cases hc
          · exact .inr (by simp [List.mem_singleton.mp hc])
          · exact .inr (by simp [List.mem_singleton.mp hc])
        · exact .inl (hd c hc)

/-- A text without digits and points does not go on with a number text. -/
theorem endsNumeral_of_forall {rest : List Char}
    (h : ∀ c ∈ rest, isDecimalDigit c = false ∧ c ≠ '.') : EndsNumeral rest := by
  have hhead : ∀ c ∈ rest.head?, c ∈ rest := fun c hc => List.mem_of_mem_head? hc
  refine ⟨fun c hc => (h c (hhead c hc)).1, fun c hc => by simpa using (h c (hhead c hc)).2, ?_⟩
  cases rest with
  | nil => rfl
  | cons mark behind =>
    have hnone : ∀ signs, (behind.drop signs).takeWhile isDecimalDigit = [] := by
      intro signs
      have hends : Ends isDecimalDigit (behind.drop signs) := fun c hc =>
        (h c (List.mem_cons_of_mem _ (List.mem_of_mem_drop (List.mem_of_mem_head? hc)))).1
      exact takeWhile_append (List.forall_mem_nil _) hends
    simp only [powerLength, hnone, List.length_nil, if_true, ite_self]

/-- Neither blanks nor the characters of symbols go on with a number text. -/
theorem endsNumeral_append {blanks symbol : List Char} (hb : ∀ c ∈ blanks, isBlank c = true)
    (hs : ∀ c ∈ symbol, startsWord c = true) : EndsNumeral (blanks ++ symbol) := by
  refine endsNumeral_of_forall fun c hc => ?_
  rcases List.mem_append.mp hc with hc | hc
  · have hblank := hb c hc
    refine ⟨Bool.eq_false_iff.mpr fun hd => ?_, ?_⟩
    · rw [isBlank_of_isDecimalDigit hd] at hblank
      cases hblank
    · rintro rfl
      exact absurd hblank (by decide)
  · obtain ⟨-, hdigit, hpoint, -⟩ := of_startsWord (hs c hc)
    exact ⟨hdigit, hpoint⟩

end Scanner

namespace Equation

variable {catalogue : Catalogue} {known : List String} {t blanks u : String} {unit : Quantity}

/-- Amounts assign nothing. -/
theorem not_mem_amount (ht : IsNumeral t.toList) (hb : ∀ c ∈ blanks.toList, isBlank c = true)
    (hu : ∀ c ∈ u.toList, startsWord c = true) : '=' ∉ (t ++ blanks ++ u).toList := by
  rw [String.toList_append, String.toList_append, List.mem_append, List.mem_append]
  rintro ((hm | hm) | hm)
  · rcases ht.isDecimalDigit_or '=' hm with hd | hd
    · exact absurd hd (by decide)
    · exact absurd hd (by decide)
  · exact absurd (hb '=' hm) (by decide)
  · exact absurd (hu '=' hm) (by decide)

/-- A number text in front of blanks is the number. -/
theorem compile_number (ht : IsNumeral t.toList) (hb : ∀ c ∈ blanks.toList, isBlank c = true) :
    compile catalogue known (t ++ blanks) = (do
      let x ← numberOf t.toList
      return ⟨.leaf ⟨.number t (.number x), 0⟩, t ++ blanks⟩) := by
  have htext : (t ++ blanks).toList = t.toList ++ (blanks.toList ++ []) := by
    rw [String.toList_append, List.append_nil]
  have hsign : '=' ∉ (t ++ blanks).toList := by
    have hnone : ∀ c ∈ "".toList, startsWord c = true := List.forall_mem_nil _
    have h := not_mem_amount ht hb hnone
    rwa [String.append_empty] at h
  have hends : EndsNumeral (blanks.toList ++ []) := endsNumeral_append hb (List.forall_mem_nil _)
  rw [compile, tokenize, scan_expression hsign, htext, scan_numeral ht hends, scan_blanks hb,
    Scanner.scan, String.ofList_toList]
  cases numberOf t.toList with
  | error failure => rfl
  | ok x =>
    refine bind_eq_ok_iff.mpr ⟨[⟨.number t (.number x), 0⟩], ?_, ?_⟩
    · exact complete_eq_ok_iff.mpr ⟨_, .keep (fun he => by cases he) (.nil _), rfl⟩
    · exact ofTokens_eq_ok_iff.mpr ⟨Tree.ofTokens_of_means (.expression (.leaf rfl)), rfl⟩

/-- A number text, blanks and a symbol are the product of the number and the unit. -/
theorem compile_number_unit (ht : IsNumeral t.toList)
    (hb : ∀ c ∈ blanks.toList, isBlank c = true) (hu : Units.resolve? u = some unit) :
    ∃ p, compile catalogue known (t ++ blanks ++ u) = (do
      let x ← numberOf t.toList
      return ⟨.binary .impliedMultiply p (.leaf ⟨.number t (.number x), 0⟩)
        (.leaf ⟨.unit u unit, p⟩), t ++ blanks ++ u⟩) := by
  have hword := Units.startsWord_of_resolve? hu
  have hne : u.toList ≠ [] := fun he => Units.ne_empty_of_resolve? hu (String.toList_eq_nil_iff.mp he)
  have htext : (t ++ blanks ++ u).toList = t.toList ++ (blanks.toList ++ u.toList) := by
    rw [String.toList_append, String.toList_append, List.append_assoc]
  have hscan : ∀ p, Scanner.scan catalogue known (t ++ blanks ++ u) p u.toList =
      .ok [⟨.unit u unit, p⟩] := by
    intro p
    have h : Scanner.scan catalogue known (t ++ blanks ++ u) p (u.toList ++ []) = _ :=
      scan_native (Shows.native_unit hu hne) .nil
    rw [List.append_nil, Scanner.scan] at h
    exact h
  refine ⟨0 + t.toList.length + blanks.toList.length, ?_⟩
  rw [compile, tokenize, scan_expression (not_mem_amount ht hb hword), htext,
    scan_numeral ht (endsNumeral_append hb hword), scan_blanks hb, hscan, String.ofList_toList]
  cases numberOf t.toList with
  | error failure => rfl
  | ok x =>
    refine bind_eq_ok_iff.mpr ⟨_, complete_eq_ok_iff.mpr
      ⟨_, .keep (fun he => by cases he) (.keep (fun he => by cases he) (.nil _)), rfl⟩, ?_⟩
    exact ofTokens_eq_ok_iff.mpr ⟨Tree.ofTokens_of_means
      (.expression (.binary _ (by decide) (.leaf rfl) (.leaf rfl))), rfl⟩

/-- The value of a number text in front of blanks. -/
theorem evaluate_number (bindings : Bindings) (ht : IsNumeral t.toList)
    (hb : ∀ c ∈ blanks.toList, isBlank c = true) :
    (do
      let e ← compile catalogue known (t ++ blanks)
      e.evaluate bindings) = (do
      let x ← numberOf t.toList
      return .number x) := by
  rw [compile_number ht hb]
  cases numberOf t.toList <;> rfl

/-- The value of a number text, blanks and a symbol. -/
theorem evaluate_number_unit (bindings : Bindings) (ht : IsNumeral t.toList)
    (hb : ∀ c ∈ blanks.toList, isBlank c = true) (hu : Units.resolve? u = some unit) :
    (do
      let e ← compile catalogue known (t ++ blanks ++ u)
      e.evaluate bindings) = (do
      let x ← numberOf t.toList
      (Quantity.number x).multiply unit) := by
  obtain ⟨p, hc⟩ := compile_number_unit ht hb hu
  rw [hc]
  cases numberOf t.toList <;> rfl

end Equation

end UnitCalculator
