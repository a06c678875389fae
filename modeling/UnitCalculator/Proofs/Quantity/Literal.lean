import Mathlib.Data.List.DropRight
import UnitCalculator.Proofs.Expression.Word
import UnitCalculator.Proofs.Quantity.Exact
import UnitCalculator.Proofs.Units.Size
import UnitCalculator.Quantity.Literal

/-!
# Quantities shown in the unit they are entered in

A literal is split behind its last digit, and unit symbols hold neither digits nor blanks, so that a
number text in front of a symbol is split where the symbol, or the blanks before it, start. The
value is scaled by the size of the unit and divided by it again. Both are exact for a number of at
most eighty digits, so the number that is entered is the number that is shown.
-/

namespace UnitCalculator

namespace Text

variable {p : Char → Bool} {c : Char} {before behind : List Char}

/-- Dropping a class from the start of a text stops at a character outside of it. -/
theorem dropWhile_append_cons (hc : p c = false) (before behind : List Char) :
    (before ++ c :: behind).dropWhile p = before.dropWhile p ++ c :: behind := by
  induction before with
  | nil => simp [hc]
  | cons d before ih =>
    cases hd : p d with
    | false => simp [hd]
    | true => simpa [hd] using ih

/-- Dropping a class from the end of a text stops at a character outside of it. -/
theorem rdropWhile_append_cons (hc : p c = false) (before behind : List Char) :
    (before ++ c :: behind).rdropWhile p = before ++ c :: behind.rdropWhile p := by
  have hreverse : (before ++ c :: behind).reverse = behind.reverse ++ c :: before.reverse := by simp
  rw [List.rdropWhile, hreverse, dropWhile_append_cons hc, List.rdropWhile]
  simp

/-- A text that holds a character outside a class is stripped of it on both sides of it. -/
theorem strip_append_cons (hc : p c = false) (before behind : List Char) :
    strip p (before ++ c :: behind) = before.dropWhile p ++ c :: behind.rdropWhile p := by
  rw [strip, dropWhile_append_cons hc, ← List.rdropWhile, rdropWhile_append_cons hc]

/-- Stripping a text whose end is stripped leaves the same. -/
theorem strip_rdropWhile (p : Char → Bool) (text : List Char) :
    strip p (text.rdropWhile p) = strip p text := by
  by_cases hall : ∀ c ∈ text, p c = true
  · have hnone : text.dropWhile p = [] := List.dropWhile_eq_nil_iff.mpr hall
    rw [List.rdropWhile_eq_nil_iff.mpr hall, strip, strip, hnone, List.dropWhile_nil]
  · push Not at hall
    obtain ⟨c, hm, hc⟩ := hall
    rw [ne_eq, Bool.not_eq_true] at hc
    obtain ⟨before, behind, rfl⟩ := List.append_of_mem hm
    rw [rdropWhile_append_cons hc, strip_append_cons hc, strip_append_cons hc,
      List.rdropWhile_idempotent]

/-- Blanks are no digit signs. -/
theorem isDigitSign_of_isBlank (h : isBlank c = true) : isDigitSign c = false := by
  have hsigns : ∀ range ∈ digitSigns,
      32 < range.1 ∧ ∀ space ∈ wideSpaces, ¬ (range.1 ≤ space ∧ space ≤ range.2) := by decide
  rw [isDigitSign, Bool.or_eq_false_iff, List.any_eq_false]
  refine ⟨Bool.eq_false_iff.mpr fun hd => ?_, fun range hr => ?_⟩
  · rw [Scanner.isBlank_of_isDecimalDigit hd] at h
    cases h
  · obtain ⟨hfirst, hwide⟩ := hsigns range hr
    simp only [Bool.and_eq_true, decide_eq_true_eq]
    rintro ⟨hl, hu⟩
    rcases isBlank_iff.mp h with h | h | h
    · omega
    · omega
    · exact hwide _ h ⟨hl, hu⟩

/-- Unit symbols hold no digit signs. -/
theorem isDigitSign_of_startsWord (h : Scanner.startsWord c = true) : isDigitSign c = false := by
  have hn := Scanner.toNat_of_startsWord h
  have hsigns : ∀ range ∈ digitSigns,
      122 < range.1 ∧ (range.2 < 937 ∨ 956 < range.1) := by decide
  rw [isDigitSign, Bool.or_eq_false_iff, List.any_eq_false]
  refine ⟨Bool.eq_false_iff.mpr fun hd => ?_, fun range hr => ?_⟩
  · have hdigit := Scanner.toNat_of_isDecimalDigit hd
    omega
  · obtain ⟨hfirst, hlast⟩ := hsigns range hr
    simp only [Bool.and_eq_true, decide_eq_true_eq]
    omega

end Text

/-- Blanks around a number text do not count. -/
theorem Decimal.read?_trim (text : List Char) : read? (Text.trim text) = read? text := by
  simp only [read?, plainText?, Text.trim, Text.strip_strip]

/-- A text spells the number that it is read as. -/
theorem numberOf_eq_ok_iff {text : List Char} {x : Decimal} :
    numberOf text = .ok x ↔ Decimal.read? text = some x := by
  rw [numberOf]
  cases Decimal.read? text with
  | none => simp
  | some value => simp

/-- Unit symbols hold no blanks. -/
theorem Units.isBlank_of_resolve? {symbol : String} {unit : Quantity}
    (h : resolve? symbol = some unit) : ∀ c ∈ symbol.toList, Text.isBlank c = false := by
  intro c hc
  refine Scanner.isBlank_of_continuesWord ?_
  rw [Scanner.continuesWord, startsWord_of_resolve? h c hc]
  rfl

namespace Quantity

open Decimal

/-- A text is split behind a digit if no digit follows. -/
theorem splitLiteral_append {c : Char} {before behind : List Char}
    (hc : Text.isDigitSign c = true) (hb : ∀ d ∈ behind, Text.isDigitSign d = false) :
    splitLiteral (before ++ c :: behind) = (before ++ [c], behind) := by
  have hunit : (before ++ c :: behind).reverse.takeWhile (fun d => !Text.isDigitSign d) =
      behind.reverse := by
    rw [List.reverse_append, List.reverse_cons, List.append_assoc]
    refine Text.takeWhile_append (fun d hd => ?_) (.cons (by rw [hc]; rfl))
    rw [hb d (List.mem_reverse.mp hd)]
    rfl
  have hlength : (before ++ c :: behind).length - behind.length = (before ++ [c]).length := by
    simp only [List.length_append, List.length_cons, List.length_nil]
    omega
  have hsplit : before ++ c :: behind = (before ++ [c]) ++ behind := by simp
  rw [splitLiteral, hunit, List.reverse_reverse, hlength, hsplit, List.take_left]

section

variable {t u : String} {unit q : Quantity} {x : Decimal}

/-- A unit is found by its symbol. -/
theorem unitOf_of_resolve? (hu : Units.resolve? u = some unit) : unitOf u = .ok unit := by
  have htrim : Text.trimString u = u := by
    rw [Text.trimString, Text.trim, Text.strip_eq_self (Units.isBlank_of_resolve? hu),
      String.ofList_toList]
  rw [unitOf, htrim, hu]

/-- A text up to its last digit is the number of a literal, and what follows is its unit. -/
theorem ofLiteral_digits {rest : String} {c : Char} (hc : t.toList.getLast? = some c)
    (hd : Text.isDecimalDigit c = true) (hr : ∀ d ∈ rest.toList, Text.isDigitSign d = false) :
    ofLiteral (t ++ rest) = (do
      let x ← numberOf (Text.trim t.toList)
      if (Text.trimString rest).isEmpty then return number x
      let unit ← unitOf (Text.trimString rest)
      let scaled ← within "unit conversion" (working.multiply x unit.value)
      return ⟨scaled, unit.dimension, some ⟨Text.trimString rest, unit.value⟩⟩) := by
  obtain ⟨before, hbefore⟩ := List.getLast?_eq_some_iff.mp hc
  have hsign : Text.isDigitSign c = true := by rw [Text.isDigitSign, hd, Bool.true_or]
  have hblank := Scanner.isBlank_of_isDecimalDigit hd
  have hnumber : Text.trim t.toList = before.dropWhile Text.isBlank ++ [c] := by
    rw [hbefore, Text.trim, Text.strip_append_cons hblank, List.rdropWhile_nil]
  have htext : Text.trim (t ++ rest).toList =
      before.dropWhile Text.isBlank ++ c :: rest.toList.rdropWhile Text.isBlank := by
    rw [String.toList_append, hbefore, List.append_assoc, Text.trim]
    exact Text.strip_append_cons hblank before rest.toList
  have hsplit : splitLiteral (Text.trim (t ++ rest).toList) =
      (Text.trim t.toList, rest.toList.rdropWhile Text.isBlank) := by
    rw [htext, hnumber]
    exact splitLiteral_append hsign fun d hm => hr d ((List.rdropWhile_prefix _ _).subset hm)
  have hdigits : Text.trim (Text.trim t.toList) = Text.trim t.toList := Text.strip_strip _ _
  have hsymbol : String.ofList (Text.trim (rest.toList.rdropWhile Text.isBlank)) =
      Text.trimString rest := by
    rw [Text.trim, Text.strip_rdropWhile, Text.trimString, Text.trim]
  have hempty : (Text.trim (t ++ rest).toList).isEmpty = false := by
    rw [htext, List.isEmpty_eq_false_iff]
    exact List.append_ne_nil_of_right_ne_nil _ (List.cons_ne_nil _ _)
  have hnone : (Text.trim t.toList).isEmpty = false := by
    rw [hnumber, List.isEmpty_eq_false_iff]
    exact List.append_ne_nil_of_right_ne_nil _ (List.cons_ne_nil _ _)
  rw [ofLiteral, hsplit]
  simp only [hempty, hdigits, hsymbol, hnone, Bool.false_eq_true, if_false]

/-- Neither blanks nor the characters of symbols are digit signs. -/
theorem isDigitSign_of_mem_append {blanks symbol : String}
    (hb : ∀ d ∈ blanks.toList, Text.isBlank d = true)
    (hs : ∀ d ∈ symbol.toList, Scanner.startsWord d = true) :
    ∀ d ∈ (blanks ++ symbol).toList, Text.isDigitSign d = false := by
  intro d hm
  rw [String.toList_append] at hm
  rcases List.mem_append.mp hm with hm | hm
  · exact Text.isDigitSign_of_isBlank (hb d hm)
  · exact Text.isDigitSign_of_startsWord (hs d hm)

/-- A number text that ends in a digit, in front of blanks and a unit symbol, is scaled to SI units
and keeps the unit for display. -/
theorem ofLiteral_amount {blanks : String} {c : Char} (hc : t.toList.getLast? = some c)
    (hd : Text.isDecimalDigit c = true) (hb : ∀ d ∈ blanks.toList, Text.isBlank d = true)
    (hu : Units.resolve? u = some unit) :
    ofLiteral (t ++ (blanks ++ u)) = (do
      let x ← numberOf (Text.trim t.toList)
      let scaled ← within "unit conversion" (working.multiply x unit.value)
      return ⟨scaled, unit.dimension, some ⟨u, unit.value⟩⟩) := by
  have hrest := isDigitSign_of_mem_append hb (Units.startsWord_of_resolve? hu)
  have hsymbol : Text.trimString (blanks ++ u) = u := by
    have h := Text.strip_append hb (Units.isBlank_of_resolve? hu) (List.forall_mem_nil _)
    rw [List.append_nil] at h
    rw [Text.trimString, String.toList_append, Text.trim, h, String.ofList_toList]
  have hnonempty : u.isEmpty = false :=
    String.isEmpty_eq_false_iff.mpr (Units.ne_empty_of_resolve? hu)
  rw [ofLiteral_digits hc hd hrest]
  simp only [hsymbol, hnonempty, unitOf_of_resolve? hu, Bool.false_eq_true, if_false]
  rfl

/-- A number text that ends in a digit, in front of a unit symbol, is scaled to SI units and keeps
the unit for display. -/
theorem ofLiteral_append {c : Char} (hu : Units.resolve? u = some unit)
    (ht : read? t.toList = some x) (hc : t.toList.getLast? = some c)
    (hd : Text.isDecimalDigit c = true) :
    ofLiteral (t ++ u) = (do
      let scaled ← within "unit conversion" (working.multiply x unit.value)
      return ⟨scaled, unit.dimension, some ⟨u, unit.value⟩⟩) := by
  have hnone : ∀ d ∈ "".toList, Text.isBlank d = true := List.forall_mem_nil _
  have hvalue : numberOf (Text.trim t.toList) = .ok x :=
    numberOf_eq_ok_iff.mpr ((read?_trim _).trans ht)
  have h := ofLiteral_amount hc hd hnone hu
  rw [String.empty_append, hvalue] at h
  exact h

/-- A quantity is measured in a unit of its dimension by dividing by the size of the unit. -/
theorem magnitudeIn_eq (hu : Units.resolve? u = some unit) (hd : unit.dimension = q.dimension) :
    q.magnitudeIn u = ofSignal (working.divide q.value unit.value) := by
  rw [magnitudeIn, inUnit, unitOf_of_resolve? hu]
  simp only [bind, Except.bind, pure, Except.pure, hd, ne_eq, not_true_eq_false, if_false]

/-- A quantity is shown in its unit for display: the unit alone if there is one of it, and
otherwise the number of units in front of it. -/
theorem latex_of_unit {size coefficient : Decimal} {y : ℚ} {number : String} {figures : Int}
    (hu : q.unit = some ⟨u, size⟩) (hc : working.divide q.value size = .ok coefficient)
    (hy : coefficient.StandsFor y) (hn : coefficient.display figures = .ok number) :
    q.latex figures = .ok (if y = 1 then latexUnit u
      else Decimal.latexOfText number ++ latexUnit u) := by
  have hone : coefficient.isEqual (.ofNat 1) = .ok (decide (y = 1)) := by
    rw [isEqual_of_standsFor hy (standsFor_ofNat 1), Nat.cast_one]
  by_cases h : y = 1
  · rw [decide_eq_true h] at hone
    rw [if_pos h]
    simp only [latex, hu, hc, hone, ofSignal, bind, Except.bind, if_true]
    rfl
  · rw [decide_eq_false h] at hone
    rw [if_neg h]
    simp only [latex, hu, hc, hone, hn, ofSignal, bind, Except.bind, Bool.false_eq_true, if_false]
    rfl

/-- A number text of at most eighty digits that ends in a digit, in front of a unit symbol, is a
quantity of which the unit has exactly that number. It is shown as the unit alone if the number is
one, and otherwise as the number in front of the unit, in up to fifty significant figures. -/
theorem ofLiteral_unit_spec {c : Char} (hu : Units.resolve? u = some unit)
    (ht : read? t.toList = some x) (hc : t.toList.getLast? = some c)
    (hd : Text.isDecimalDigit c = true) (hf : x.HasFigures 80)
    (hr : x.isZero = true ∨ x.adjusted.natAbs ≤ 900000) :
    ∃ q magnitude, ofLiteral (t ++ u) = .ok q ∧ q.dimension = unit.dimension ∧
      q.magnitudeIn u = .ok magnitude ∧ magnitude.StandsFor x.toRat ∧
      magnitude.isEqual x = .ok true ∧
      ∀ figures : Nat, 1 ≤ figures → figures ≤ 50 →
        ∃ number, x.display figures = .ok number ∧
          q.latex figures = .ok (if x.toRat = 1 then latexUnit u
            else Decimal.latexOfText number ++ latexUnit u) := by
  have hunit := Units.isSize_of_resolve? hu
  have hextent := hf.hasExtent hr
  obtain ⟨scaled, hscaled, hvalue⟩ := Format.exists_multiply hf.standsFor hunit.standsFor
    ((hextent.mul hunit.hasExtent).represents (by decide) (by decide))
  have hcancel := mul_div_cancel_right₀ x.toRat hunit.toRat_pos.ne'
  obtain ⟨magnitude, hdivide, hmagnitude⟩ := Format.exists_divide hvalue hunit.standsFor
    hunit.toRat_pos.ne' (hcancel ▸ hextent.represents (by decide) (by decide))
  rw [hcancel] at hmagnitude
  obtain ⟨q, hliteral, rfl, hdimension, hshown⟩ : ∃ q : Quantity, ofLiteral (t ++ u) = .ok q ∧
      q.value = scaled ∧ q.dimension = unit.dimension ∧ q.unit = some ⟨u, unit.value⟩ := by
    refine ⟨⟨scaled, unit.dimension, some ⟨u, unit.value⟩⟩, ?_, rfl, rfl, rfl⟩
    rw [ofLiteral_append hu ht hc hd, hscaled]
    rfl
  refine ⟨q, magnitude, hliteral, hdimension, ?_, hmagnitude, ?_, fun figures hl hn => ?_⟩
  · rw [magnitudeIn_eq hu hdimension.symm, hdivide]
    rfl
  · rw [isEqual_of_standsFor hmagnitude hf.standsFor, decide_eq_true rfl]
  · obtain ⟨number, hx, hsame⟩ := exists_display_of_standsFor hf.standsFor hmagnitude hl hn
      (hr.imp_right fun hnear => hnear.trans (by decide))
    exact ⟨number, hx, latex_of_unit hshown hdivide hmagnitude hsame⟩

/-- Two and a half kiloelectronvolts, entered with a zero behind. -/
theorem ofLiteral_unit_spec_kiloelectronvolt :
    let unit := of (.finite false 1602176634 (-25)) Units.energy
    let x : Decimal := .finite false 250 (-2)
    (Units.resolve? "keV" = some unit ∧ read? "2.50".toList = some x ∧
      "2.50".toList.getLast? = some '0' ∧ Text.isDecimalDigit '0' = true ∧ x.HasFigures 80 ∧
      x.adjusted.natAbs ≤ 900000) ∧
    ∃ q magnitude, ofLiteral ("2.50" ++ "keV") = .ok q ∧ q.dimension = Units.energy ∧
      q.magnitudeIn "keV" = .ok magnitude ∧ magnitude.StandsFor (5 / 2) ∧
      q.latex (3 : Nat) = .ok "2.5keV" := by
  have hu : Units.resolve? "keV" = some (of (.finite false 1602176634 (-25)) Units.energy) := by
    decide +kernel
  have ht : read? "2.50".toList = some (.finite false 250 (-2)) := by decide +kernel
  have hc : "2.50".toList.getLast? = some '0' := by decide
  have hd : Text.isDecimalDigit '0' = true := by decide
  have hf : (finite false 250 (-2)).HasFigures 80 := ⟨250, 0, rfl, by decide +kernel⟩
  have hr : (finite false 250 (-2)).adjusted.natAbs ≤ 900000 := by decide +kernel
  have hvalue : (finite false 250 (-2)).toRat = 5 / 2 := by norm_num [toRat]
  obtain ⟨q, magnitude, hq, hdimension, hin, hmagnitude, -, hlatex⟩ :=
    ofLiteral_unit_spec hu ht hc hd hf (.inr hr)
  obtain ⟨number, hnumber, hshown⟩ := hlatex 3 (by decide) (by decide)
  have htext : (finite false 250 (-2)).display (3 : Nat) = .ok "2.5" := by decide +kernel
  obtain rfl : number = "2.5" := Except.ok.inj (hnumber.symm.trans htext)
  rw [hvalue] at hmagnitude hshown
  rw [if_neg (by norm_num)] at hshown
  exact ⟨⟨hu, ht, hc, hd, hf, hr⟩, q, magnitude, hq, hdimension, hin, hmagnitude,
    hshown.trans (by decide +kernel)⟩

end

end Quantity

end UnitCalculator
