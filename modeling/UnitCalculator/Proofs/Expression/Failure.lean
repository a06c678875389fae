import UnitCalculator.Proofs.Expression.Layout
import UnitCalculator.Proofs.Quantity.Failure

/-!
# Failures of compiling

A text fails to compile where it starts no token, where tokens form no equation, or where a lookup
finds nothing. Besides, a numeral can be too long, and reference data and signed numbers are
computed with. What starts no token is reported with the place where it stands. How equations depend
on each other plays no part in it.
-/

namespace UnitCalculator

/-- Failures of consulting reference data and of joining tokens. -/
inductive Failure.IsReferential : Failure → Prop where
  | operational {failure : Failure} (h : failure.IsOperational) : IsReferential failure
  | malformed (cause : Malformation) (source : Option String) :
    IsReferential (.fault (.malformed cause) source)
  | unknownSymbol (sort : SymbolSort) (symbol : String) :
    IsReferential (.of (.unknownSymbol sort symbol))
  | stableNuclide (label : String) : IsReferential (.of (.stableNuclide label))
  | longNumeral : IsReferential .longNumeral

/-- Failures of compiling a text that starts at a position. -/
inductive Failure.IsTextual (position : Nat) : List Char → Failure → Prop where
  | referential {text : List Char} {failure : Failure} (h : failure.IsReferential) :
    IsTextual position text failure
  /-- Characters that start no token are reported where they stand. -/
  | unrecognizedInput {before run rest : List Char} (h : run ≠ []) :
    IsTextual position (before ++ run ++ rest)
      (.of (.unrecognizedInput (String.ofList run) (position + before.length)))

/-- A failure in a text is one in the text with something in front of it. -/
theorem Failure.IsTextual.behind {position : Nat} {front text : List Char} {failure : Failure}
    (h : failure.IsTextual (position + front.length) text) :
    failure.IsTextual position (front ++ text) := by
  cases h with
  | referential h => exact .referential h
  | @unrecognizedInput before run rest h =>
    rw [Nat.add_assoc, ← List.length_append, ← List.append_assoc, ← List.append_assoc]
    exact .unrecognizedInput h

/-- What starts no token stands at the reported place, and is reported in full. -/
theorem Failure.IsTextual.reported_at {position place : Nat} {text : List Char} {run : String}
    {equation : Option String}
    (h : (Failure.fault (.unrecognizedInput run place) equation).IsTextual position text) :
    position ≤ place ∧ run ≠ "" ∧ run.toList <+: text.drop (place - position) := by
  cases h with
  | referential h => cases h with | operational h => cases h with | numeric h => cases h
  | @unrecognizedInput before run rest h =>
    refine ⟨Nat.le_add_right .., fun he => h (String.ofList_eq_empty_iff.mp he), ?_⟩
    rw [Nat.add_sub_cancel_left, List.append_assoc, List.drop_left, String.toList_ofList]
    exact List.prefix_append ..

/-- A decimal step whose signal is passed on. -/
theorem failsBy_referential_step {α : Type} (x : Except Signal α) :
    FailsBy Failure.IsReferential (ofSignal x) :=
  failsBy_ofSignal x fun cause => .operational (.numeric (.signal cause))

namespace Reference

open Failure

/-- Looking an element up. -/
theorem ElementTable.failsBy_element (table : ElementTable) (symbol : String) :
    FailsBy IsReferential (table.element symbol) := by
  rw [element]
  cases table.find? symbol with
  | none => exact failsBy_error (.unknownSymbol _ _)
  | some element => exact failsBy_ok element

/-- Splitting a formula text into tokens. -/
theorem FormulaToken.failsBy_scan (table : ElementTable) (text : List Char) :
    FailsBy IsReferential (scan table text) := by
  have hnext : ∀ (token : FormulaToken) (rest : List Char),
      FailsBy IsReferential (scan table rest) →
        FailsBy IsReferential (do return token :: (← scan table rest)) :=
    fun token rest h => h.bind fun tokens _ => failsBy_ok (token :: tokens)
  fun_induction scan table text with
  | case1 => exact failsBy_ok []
  | case2 c rest hb ih => exact ih
  | case3 c rest hb hd more ih => exact hnext _ _ ih
  | case4 c rest hb hd ho ih => exact hnext _ _ ih
  | case5 c rest hb hd ho hc ih => exact hnext _ _ ih
  | case6 => exact failsBy_error (.unknownSymbol _ _)
  | case7 => exact failsBy_error (.unknownSymbol _ _)
  | case8 c rest hb hd ho hc symbol hs he ih => exact hnext _ _ ih

/-- Reading formula tokens. -/
theorem Formula.failsBy_run (state : Progress) (tokens : List FormulaToken) :
    FailsBy IsReferential (state.run tokens) := by
  induction tokens generalizing state with
  | nil => exact failsBy_ok state
  | cons token left ih =>
    refine FailsBy.bind ?_ fun next _ => ih next
    cases token with
    | number digits =>
      refine FailsBy.bind ?_ fun count _ => failsBy_ok _
      rw [countOf]
      split
      · exact failsBy_error .longNumeral
      · exact failsBy_ok _
    | element symbol => exact failsBy_ok _
    | closeBracket sign => exact failsBy_ok _
    | openBracket sign =>
      rw [Progress.step]
      split
      · exact failsBy_error (.malformed _ _)
      · exact failsBy_ok _

/-- Reading a formula. -/
theorem Formula.failsBy_ofText (table : ElementTable) (text : String) :
    FailsBy IsReferential (ofText table text) := by
  refine (FormulaToken.failsBy_scan table _).bind fun tokens _ => ?_
  refine (failsBy_run _ _).bind fun final _ => ?_
  cases final.groups.isEmpty with
  | true => exact failsBy_ok _
  | false => exact failsBy_error (.malformed _ _)

/-- Sums of quantities fail as operations do. -/
theorem failsBy_referential_add (a b : Quantity) : FailsBy IsReferential (a.add b) :=
  (Quantity.failsBy_operator .add a b).mono fun _ => .operational

/-- Products of quantities fail as operations do. -/
theorem failsBy_referential_multiply (a b : Quantity) : FailsBy IsReferential (a.multiply b) :=
  (Quantity.failsBy_operator .multiply a b).mono fun _ => .operational

/-- The molar mass of an element. -/
theorem ElementTable.failsBy_molarMass (table : ElementTable) (symbol : String) :
    FailsBy IsReferential (table.molarMass symbol) :=
  (table.failsBy_element symbol).bind fun _ _ =>
    (failsBy_referential_step _).bind fun _ _ => failsBy_ok _

mutual

/-- The molar mass of a formula. -/
theorem Formula.failsBy_molarMass (table : ElementTable) :
    (formula : Formula) → FailsBy IsReferential (molarMass table formula)
  | .element symbol _ =>
    (table.failsBy_molarMass symbol).bind fun _ _ => failsBy_referential_multiply _ _
  | .group components _ =>
    (failsBy_sumMolarMass table _ components).bind fun _ _ => failsBy_referential_multiply _ _

/-- The sum of the molar masses of formulas. -/
theorem Formula.failsBy_sumMolarMass (table : ElementTable) (sum : Quantity) :
    (formulas : List Formula) → FailsBy IsReferential (sumMolarMass table sum formulas)
  | [] => failsBy_ok sum
  | component :: components =>
    (failsBy_molarMass table component).bind fun _ _ =>
      (failsBy_referential_add _ _).bind fun _ _ => failsBy_sumMolarMass table _ components

end

/-- Reading the notation of a nuclide. -/
theorem Nuclide.failsBy_ofNotation (table : ElementTable) (text : String) :
    FailsBy IsReferential (ofNotation table text) := by
  rw [ofNotation]
  split
  · exact failsBy_error (.unknownSymbol _ _)
  · split
    · exact failsBy_error .longNumeral
    · exact (table.failsBy_element _).bind fun _ _ => failsBy_ok _

/-- A field of a nuclide. -/
theorem NuclideTable.failsBy_field (n : Nuclide) (a : Int) (field : NuclideField) :
    FailsBy IsReferential (NuclideTable.field n a field) := by
  cases field with
  | mass =>
    exact (failsBy_referential_step _).bind fun _ _ =>
      (failsBy_referential_step _).bind fun _ _ => failsBy_ok _
  | bindingEnergy =>
    exact (failsBy_referential_step _).bind fun _ _ =>
      (failsBy_referential_step _).bind fun _ _ => failsBy_ok _
  | halfLife =>
    rw [NuclideTable.field]
    cases n.halfLife with
    | some seconds => exact failsBy_ok _
    | none => exact failsBy_error (.stableNuclide _)

/-- Looking up a field of a nuclide by its notation. -/
theorem NuclideTable.failsBy_lookupText (table : NuclideTable) (text name : String)
    (hn : (NuclideField.table.lookup name).isSome = true) :
    FailsBy IsReferential (table.lookupText text name) := by
  obtain ⟨field, hf⟩ := Option.isSome_iff_exists.mp hn
  have hname : NuclideField.ofName name = .ok field := by rw [NuclideField.ofName, hf]
  have hfield : FailsBy IsReferential (NuclideField.ofName name) := hname ▸ failsBy_ok field
  refine (Nuclide.failsBy_ofNotation _ text).bind fun found _ => hfield.bind fun _ _ => ?_
  refine FailsBy.bind ?_ fun n _ => hfield.bind fun field _ => failsBy_field n _ field
  rw [nuclide]
  cases table.find? found.1 found.2 with
  | some n => exact failsBy_ok n
  | none => exact failsBy_error (.unknownSymbol _ _)

end Reference

open Reference

/-- A lookup of a known name. -/
theorem Catalogue.failsBy_lookup (catalogue : Catalogue) {name : String}
    (hn : name ∈ lookupNames) (argument : String) :
    FailsBy Failure.IsReferential (catalogue.lookup name argument) := by
  simp only [lookupNames, List.mem_cons, List.not_mem_nil, or_false] at hn
  rcases hn with rfl | rfl | rfl | rfl | rfl
  · exact (Formula.failsBy_ofText _ _).bind fun _ _ => Formula.failsBy_molarMass _ _
  · change FailsBy Failure.IsReferential (constant catalogue.constants (Text.trimString argument))
    rw [constant]
    split
    · exact failsBy_ok _
    · exact failsBy_error (.unknownSymbol _ _)
  · exact NuclideTable.failsBy_lookupText _ _ "binding_energy" (by decide)
  · exact NuclideTable.failsBy_lookupText _ _ "half_life" (by decide)
  · exact NuclideTable.failsBy_lookupText _ _ "mass" (by decide)

/-- Reading a number. -/
theorem failsBy_numberOf (text : List Char) : FailsBy Failure.IsReferential (numberOf text) := by
  rw [numberOf]
  split
  · exact failsBy_ok _
  · exact failsBy_error (.malformed _ _)

namespace Scanner

/-- Reading the piece at the start of a text. -/
theorem failsBy_pieceAt (catalogue : Catalogue) (known : List String) (source : String)
    (position : Nat) (c : Char) (rest : List Char) :
    FailsBy (Failure.IsTextual position (c :: rest))
      (pieceAt catalogue known source position c rest) := by
  have hrun : ∀ p : Char → Bool, FailsBy (Failure.IsTextual position (c :: rest))
      (.error (.of (.unrecognizedInput (String.ofList (c :: rest.takeWhile p)) position)) :
        Outcome Piece) := by
    intro p
    have hsplit : c :: rest = [] ++ (c :: rest.takeWhile p) ++ rest.dropWhile p := by
      rw [List.nil_append, List.cons_append, List.takeWhile_append_dropWhile]
    have hfails : (Failure.of (.unrecognizedInput (String.ofList (c :: rest.takeWhile p))
        position)).IsTextual position ([] ++ (c :: rest.takeWhile p) ++ rest.dropWhile p) :=
      .unrecognizedInput (by simp)
    exact failsBy_error (hsplit ▸ hfails)
  rw [pieceAt]
  split
  · exact failsBy_ok _
  split
  · exact ((failsBy_numberOf _).mono fun _ => .referential).bind fun _ _ => failsBy_ok _
  split
  · next name hname =>
    have hn : name ∈ Catalogue.lookupNames := List.mem_of_find?_eq_some hname
    split
    · exact failsBy_error (.referential (.malformed _ _))
    · exact ((catalogue.failsBy_lookup hn _).mono fun _ => .referential).bind
        fun _ _ => failsBy_ok _
  split
  · exact failsBy_ok _
  split
  · exact failsBy_ok _
  split
  · exact failsBy_ok _
  split
  · exact failsBy_ok _
  split
  · cases hw : wordAt? known (c :: rest.takeWhile continuesWord) with
    | some lexeme =>
      simp only [hw]
      exact failsBy_ok _
    | none =>
      simp only [hw]
      exact hrun _
  · exact hrun _

/-- Scanning a text. -/
theorem failsBy_scan (catalogue : Catalogue) (known : List String) (source : String)
    (position : Nat) (text : List Char) :
    FailsBy (Failure.IsTextual position text) (scan catalogue known source position text) := by
  fun_induction scan catalogue known source position text with
  | case1 position => exact failsBy_ok []
  | case2 position c rest ih =>
    refine (failsBy_pieceAt _ _ _ _ _ _).bind fun piece hp => ?_
    obtain ⟨span, behind, hspan, hs⟩ := exists_span hp
    refine FailsBy.bind ?_ fun tokens _ => ?_
    · rw [hs.drop_eq hspan, ← hs.length, hspan]
      refine FailsBy.mono ?_ fun _ => .behind
      rw [← hs.drop_eq hspan, hs.length]
      exact ih piece
    · cases piece.lexeme with
      | none => exact failsBy_ok _
      | some lexeme => exact failsBy_ok _

end Scanner

/-- A number with its sign changed. -/
theorem Lexeme.failsBy_negated? {lexeme : Lexeme} {negated : Outcome Lexeme}
    (h : lexeme.negated? = some negated) : FailsBy Failure.IsReferential negated := by
  have hnegate : ∀ q : Quantity, FailsBy Failure.IsReferential q.negate := fun q =>
    (failsBy_referential_step _).bind fun _ _ => failsBy_ok _
  cases lexeme with
  | number text value =>
    obtain rfl := Option.some.inj h
    exact (hnegate value).bind fun _ _ => failsBy_ok _
  | lookup text value =>
    obtain rfl := Option.some.inj h
    exact (hnegate value).bind fun _ _ => failsBy_ok _
  | _ => cases h

/-- Folding signs. -/
theorem failsBy_foldNegation (previous : Option Lexeme) (tokens : List Token) :
    FailsBy Failure.IsReferential (foldNegation previous tokens) := by
  fun_induction foldNegation previous tokens with
  | case1 previous => exact failsBy_ok []
  | case2 previous token hs => exact failsBy_ok _
  | case3 previous token hs operand rest negated hn ih =>
    exact (Lexeme.failsBy_negated? hn).bind fun lexeme _ =>
      (ih lexeme).bind fun _ _ => failsBy_ok _
  | case4 token operand rest hn ho parts hs ih ihb =>
    exact ih.bind fun _ _ => ihb.bind fun _ _ => failsBy_ok _
  | case5 previous token hs operand rest hn ho hp ih => exact ih.bind fun _ _ => failsBy_ok _
  | case6 previous token hs operand rest hn ho ih => exact ih.bind fun _ _ => failsBy_ok _
  | case7 previous token rest hs ih => exact ih.bind fun _ _ => failsBy_ok _

namespace Equation

/-- Scanning the text of an equation. -/
theorem failsBy_scan (catalogue : Catalogue) (known : List String) (source : String) :
    FailsBy (Failure.IsTextual 0 source.toList) (scan catalogue known source) := by
  rw [scan]
  split
  · exact Scanner.failsBy_scan _ _ _ _ _
  · next sign after hafter =>
    refine FailsBy.bind ?_ fun target _ =>
      FailsBy.bind ?_ fun tokens _ => failsBy_ok _
    · rw [targetTokens]
      split
      · exact failsBy_ok _
      · exact failsBy_error (.referential (.malformed _ _))
    · have hsplit := List.prefix_iff_eq_append.mp
        (List.takeWhile_prefix (· ≠ '=') (l := source.toList))
      rw [hafter, List.append_cons] at hsplit
      generalize source.toList.takeWhile (· ≠ '=') = before at hsplit ⊢
      have hplace : before.length + 1 = 0 + (before ++ [sign]).length := by simp
      rw [hplace, ← hsplit]
      exact (Scanner.failsBy_scan _ _ _ _ _).mono fun _ => .behind

/-- Splitting the text of an equation into tokens. -/
theorem failsBy_tokenize (catalogue : Catalogue) (known : List String) (source : String) :
    FailsBy (Failure.IsTextual 0 source.toList) (tokenize catalogue known source) :=
  (failsBy_scan _ _ _).bind fun _ _ =>
    ((failsBy_foldNegation _ _).mono fun _ => .referential).bind fun _ _ => failsBy_ok _

/-- Compiling a text. -/
theorem failsBy_compile (catalogue : Catalogue) (known : List String) (source : String) :
    FailsBy (Failure.IsTextual 0 source.toList) (compile catalogue known source) := by
  refine (failsBy_tokenize _ _ _).bind fun tokens _ => ?_
  rw [ofTokens]
  split
  · exact failsBy_ok _
  · exact failsBy_error (.referential (.malformed _ _))

end Equation

end UnitCalculator
