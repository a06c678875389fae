import UnitCalculator.Proofs.Expression.Name
import UnitCalculator.Proofs.Expression.Native

/-!
# Names that are read back

A name that can be assigned is no unit, function or lookup. Where it stands as a whole word and is
known it is read as one variable: no unit or known name in it is longer, and a function or a lookup
that it begins with is called only if a bracket follows that beginning.
-/

namespace UnitCalculator

open Scanner

variable {catalogue : Catalogue} {known : List String} {v : String}

namespace Lexeme

/-- A known name that can be assigned is what its own text spells. -/
theorem native_of_isValid (hv : VariableName.isValid v = true) (hk : v ∈ known) :
    (Lexeme.reference v).Native catalogue known := by
  have hname := VariableName.isIdentifier_of_isValid hv
  obtain ⟨c, rest, hl, hc, hrest⟩ := VariableName.exists_of_isIdentifier hname
  refine .word hl (VariableName.startsWord_of_isLatinLetter hc) (fun d hd => ?_)
    (wordAt?_of_isValid hv hk)
  exact VariableName.continuesWord_of_isIdentifierChar (hrest d hd)

/-- A name that can be assigned is called nowhere, so it may stand in front of everything that does
not go on with the word. -/
theorem canPrecede_of_isValid (hv : VariableName.isValid v = true) {rest : List Char}
    (he : Text.Ends continuesWord rest) : (Lexeme.reference v).CanPrecede rest := by
  refine ⟨he, fun hcallable => ?_⟩
  simp only [VariableName.isValid, Bool.and_eq_true, Bool.not_eq_true'] at hv
  have hmem : v ∈ Function.names ++ Catalogue.lookupNames := by
    simpa [isCallable, Lexeme.text] using hcallable
  rcases List.mem_append.mp hmem with hm | hm
  · have hnot := List.contains_iff_mem.mpr hm
    rw [hv.1.1.2] at hnot
    cases hnot
  · have hnot := List.contains_iff_mem.mpr hm
    rw [hv.1.2] at hnot
    cases hnot

end Lexeme

/-- A known name that can be assigned is scanned as one variable where its word ends. -/
theorem Scanner.scan_name {source : String} {position : Nat} {rest : List Char}
    (hv : VariableName.isValid v = true) (hk : v ∈ known) (he : Text.Ends continuesWord rest) :
    scan catalogue known source position (v.toList ++ rest) =
      (scan catalogue known source (position + v.length) rest).map
        (⟨.reference v, position⟩ :: ·) :=
  scan_native (Lexeme.native_of_isValid hv hk) (Lexeme.canPrecede_of_isValid hv he)

namespace Equation

/-- A known name that can be assigned is one variable if it stands alone. -/
theorem tokenize_name (hv : VariableName.isValid v = true) (hk : v ∈ known) :
    tokenize catalogue known v = .ok [⟨.reference v, 0⟩] := by
  have hsign := VariableName.not_mem_of_isIdentifier (VariableName.isIdentifier_of_isValid hv)
  have hname : Scanner.scan catalogue known v 0 (v.toList ++ []) = _ := scan_name hv hk .nil
  rw [List.append_nil, Scanner.scan] at hname
  rw [tokenize, scan_expression hsign, hname]
  exact complete_eq_ok_iff.mpr ⟨_, .keep (fun he => by cases he) (.nil _), rfl⟩

/-- A known name that can be assigned is one variable between brackets. -/
theorem tokenize_bracketed_name (hv : VariableName.isValid v = true) (hk : v ∈ known) :
    tokenize catalogue known ("(" ++ v ++ ")") =
      .ok [⟨.openBracket, 0⟩, ⟨.reference v, 1⟩, ⟨.closeBracket, 1 + v.length⟩] := by
  have htext : ("(" ++ v ++ ")").toList = '(' :: (v.toList ++ [')']) := by
    simp [String.toList_append]
  have hsign : '=' ∉ ("(" ++ v ++ ")").toList := by
    rw [htext, List.mem_cons, List.mem_append, List.mem_singleton]
    rintro (he | hm | he)
    · cases he
    · exact VariableName.not_mem_of_isIdentifier (VariableName.isIdentifier_of_isValid hv) hm
    · cases he
  set source := "(" ++ v ++ ")"
  have hopen : Scanner.scan catalogue known source 0 ('(' :: (v.toList ++ [')'])) =
      (Scanner.scan catalogue known source 1 (v.toList ++ [')'])).map (⟨.openBracket, 0⟩ :: ·) :=
    scan_native .openBracket trivial
  have hname : Scanner.scan catalogue known source 1 (v.toList ++ [')']) =
      (Scanner.scan catalogue known source (1 + v.length) [')']).map (⟨.reference v, 1⟩ :: ·) :=
    scan_name hv hk (.cons (by decide))
  have hclose : Scanner.scan catalogue known source (1 + v.length) [')'] = _ :=
    scan_native .closeBracket trivial
  rw [Scanner.scan] at hclose
  have hscan : Scanner.scan catalogue known source 0 source.toList =
      .ok [⟨.openBracket, 0⟩, ⟨.reference v, 1⟩, ⟨.closeBracket, 1 + v.length⟩] := by
    rw [htext, hopen, hname, hclose]
    rfl
  rw [tokenize, scan_expression hsign, hscan]
  exact complete_eq_ok_iff.mpr ⟨_, .keep (fun he => by cases he) (.keep (fun he => by cases he)
    (.keep (fun he => by cases he) (.nil _))), rfl⟩

/-- The equation that reads a variable and nothing else. -/
def ofName (v : String) : Equation := ⟨.leaf ⟨.reference v, 0⟩, v⟩

/-- Reading a variable assigns none. -/
theorem target?_ofName (v : String) : (ofName v).target? = none := rfl

/-- Reading a variable gives its value. -/
theorem evaluate_ofName_eq_ok_iff {bindings : Bindings} {value : Quantity} :
    (ofName v).evaluate bindings = .ok value ↔ bindings v = some value := by
  change Lexeme.evaluate bindings (.reference v) = .ok value ↔ _
  rw [Lexeme.evaluate]
  cases bindings v <;> simp

/-- A known name that can be assigned is compiled to reading that variable. -/
theorem compile_name (hv : VariableName.isValid v = true) (hk : v ∈ known) :
    compile catalogue known v = .ok (ofName v) :=
  bind_eq_ok_iff.mpr ⟨_, tokenize_name hv hk,
    ofTokens_eq_ok_iff.mpr ⟨Tree.ofTokens_of_means (.expression (.leaf rfl)), rfl⟩⟩

end Equation

end UnitCalculator
