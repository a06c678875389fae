import UnitCalculator.Proofs.Dimension.Naming
import UnitCalculator.Proofs.Expression.Denoting
import UnitCalculator.Proofs.Expression.RoundTrip

/-!
# Quantities that are typed back in

The text of a quantity is a number directly before a product of powers of units, or the product
alone where the number is one. It is compiled to an equation that has the number as it is shown and
the dimension of the quantity as its value.
-/

namespace UnitCalculator

open Decimal Scanner

/-- Every symbol by which dimensions are written is a unit. -/
theorem isBase_of_mem {symbol : String} (h : symbol ∈ Dimension.namedUnits.map (·.1)) :
    Shows.IsBase symbol (Dimension.ofSymbol symbol) := by
  have hall : ∀ symbol ∈ Dimension.namedUnits.map (·.1),
      Units.resolve? symbol = some (.of (.ofNat 1) (Dimension.ofSymbol symbol)) ∧
        symbol.toList ≠ [] ∧ (Dimension.ofSymbol symbol).isOne = false := by decide +kernel
  obtain ⟨hresolve, hsymbol, hdimension⟩ := hall symbol h
  exact ⟨hresolve, hsymbol, hdimension⟩

/-- A power of a named unit with an integer as its exponent. -/
structure IsFactor (factor : String × Rat) : Prop where
  symbol : factor.1 ∈ Dimension.namedUnits.map (·.1)
  integral : factor.2.den = 1
  short : factor.2.num.natAbs < pow10 100

/-- The powers by which a dimension with small integral exponents is written. -/
theorem isFactor_of_mem_written {d : Dimension} {factor : String × Rat}
    (hd : ∀ exponent ∈ d.exponents, exponent.den = 1 ∧ exponent.num.natAbs < pow10 90)
    (h : factor ∈ d.written) : IsFactor factor := by
  obtain ⟨hsymbol, hone | hexponent⟩ := Dimension.of_mem_written h
  · refine ⟨hsymbol, ?_, ?_⟩
    · rw [hone]
      rfl
    · rw [hone]
      decide +kernel
  · obtain ⟨hden, hnum⟩ := hd _ hexponent
    exact ⟨hsymbol, hden, hnum.trans_le (pow10_le_pow10 (by decide))⟩

namespace Shows

variable {catalogue : Catalogue} {known : List String} {source : String}
variable {factor : String × Rat} {factors : List (String × Rat)} {value : Decimal}
variable {d : Dimension} {text : List Char} {lexemes : List Lexeme}

/-- A factor is shown by its text. -/
theorem exists_factor (h : IsFactor factor) :
    ∃ behind, Shows catalogue known source 4 (.of (.ofNat 1) (Dimension.ofFactor factor))
      (Dimension.factorText factor).toList
      (unitLexeme factor.1 (Dimension.ofSymbol factor.1) :: behind) := by
  have hbase := isBase_of_mem h.symbol
  have hexponent : factor.2 = (factor.2.num : Rat) := by
    have hself := Rat.mkRat_self factor.2
    rwa [h.integral, Rat.mkRat_one, eq_comm] at hself
  by_cases hone : factor.2 = 1
  · refine ⟨[], ?_⟩
    rw [Dimension.factorText, if_pos hone, Dimension.ofFactor, hone, Dimension.multiply_one]
    exact unit hbase
  · refine ⟨.operator .power :: (Written.ofNat factor.2.num.natAbs).lexemes
      (decide (factor.2.num < 0)), ?_⟩
    have htext : (Dimension.factorText factor).toList =
        factor.1.toList ++ '^' :: (intText factor.2.num).toList := by
      rw [Dimension.factorText, if_neg hone, Dimension.exponentText, if_pos h.integral,
        String.toList_append, String.toList_append, List.append_assoc]
      rfl
    have hpower : Shows catalogue known source 4 _ _ _ := power hbase h.short
    rw [← hexponent] at hpower
    rw [htext]
    exact hpower

/-- A factor continues no number. -/
theorem endsNumeral_factor (h : IsFactor factor) (rest : List Char) :
    EndsNumeral ((Dimension.factorText factor).toList ++ rest) := by
  have hbase := isBase_of_mem h.symbol
  have hnative : (unitLexeme factor.1 (Dimension.ofSymbol factor.1)).Native .standard [] :=
    native_unit hbase.resolve hbase.symbol
  have hsymbol : ∀ rest, EndsNumeral (factor.1.toList ++ rest) := Tree.endsNumeral_unit hnative
  rw [Dimension.factorText]
  split
  · exact hsymbol rest
  · rw [String.toList_append, String.toList_append, List.append_assoc, List.append_assoc]
    exact hsymbol _

/-- A unit changes the dimension of a product only. -/
theorem multiply_unit (hv : working.multiply value (.ofNat 1) = .ok value) (other : Dimension) :
    (Quantity.of value d).multiply (.of (.ofNat 1) other) = .ok (.of value (d.add other)) := by
  have hvalue : working.multiply (Quantity.of value d).value (Quantity.of (.ofNat 1) other).value =
      .ok value := hv
  rw [Quantity.multiply, hvalue]
  rfl

/-- The texts of factors, each behind a space. -/
def factorsText (factors : List (String × Rat)) : List Char :=
  factors.flatMap fun factor => ' ' :: (Dimension.factorText factor).toList

/-- A product with more factors behind it is shown by their texts. -/
theorem exists_times (h : Shows catalogue known source 3 (.of value d) text lexemes)
    (hv : working.multiply value (.ofNat 1) = .ok value)
    (hf : ∀ factor ∈ factors, IsFactor factor) :
    ∃ lexemes, Shows catalogue known source 3 (.of value (d.times factors))
      (text ++ factorsText factors) lexemes := by
  induction factors generalizing d text lexemes with
  | nil => exact ⟨lexemes, by rwa [factorsText, List.flatMap_nil, List.append_nil]⟩
  | cons factor factors ih =>
    obtain ⟨hfactor, hrest⟩ := List.forall_mem_cons.mp hf
    obtain ⟨behind, hshows⟩ := exists_factor hfactor
    have hproduct := h.product hshows (by simp [unitLexeme]) (multiply_unit hv _)
    obtain ⟨all, hall⟩ := ih hproduct hrest
    refine ⟨all, ?_⟩
    rw [factorsText, List.flatMap_cons, ← List.append_assoc]
    exact hall

/-- The text of factors with spaces between them. -/
theorem toList_intercalate_cons (factor : String × Rat) (factors : List (String × Rat)) :
    (" ".intercalate ((factor :: factors).map Dimension.factorText)).toList =
      (Dimension.factorText factor).toList ++ factorsText factors := by
  induction factors generalizing factor with
  | nil => simp [factorsText]
  | cons next factors ih =>
    rw [List.map_cons, List.map_cons, String.intercalate_cons_cons, ← List.map_cons,
      String.toList_append, String.toList_append, ih, List.append_assoc]
    rfl

end Shows

namespace Equation

variable {catalogue : Catalogue} {known : List String} {text : String} {q : Quantity}
variable {lexemes : List Lexeme}

/-- An equation has the value of its tree. -/
theorem evaluate_root (e : Equation) (bindings : Bindings) :
    e.evaluate bindings = e.root.evaluate bindings := by
  rw [evaluate, expression]
  split
  · next he => rw [he, Tree.evaluate, if_pos rfl]
  · rfl

/-- A text that shows a quantity is compiled to an equation with that value. -/
theorem exists_compile_of_shows {strength : Nat} (hs : 1 ≤ strength)
    (h : Shows catalogue known text strength q text.toList lexemes) :
    ∃ e, compile catalogue known text = .ok e ∧ ∀ bindings, e.evaluate bindings = .ok q := by
  have hpasses := h.passes [] (by simp)
  obtain ⟨raw, hscan, hraw⟩ := (hpasses.scans 0 lexemes).mpr rfl
  obtain ⟨_, _, hcompletes⟩ := h.completes
  obtain ⟨mid, out, last, hc, -, tree, hspells, hvalue⟩ := hcompletes raw hraw
  obtain ⟨hfolds, hinserts⟩ := hc.closed (.inl rfl)
  refine ⟨⟨tree, text⟩, (compile_expression h.expression).mpr
    ⟨rfl, raw, mid, hscan, hfolds, hinserts ▸ hspells.mono hs⟩, fun bindings => ?_⟩
  rw [evaluate_root]
  exact hvalue bindings

end Equation

namespace Quantity

open Shows

variable {q : Quantity} {n : Nat}

/-- The text of a dimension with integral exponents alone is read as the unit of this dimension. -/
theorem exists_shows_dimension {d : Dimension} (hd : ∀ factor ∈ d.written, IsFactor factor)
    (hone : d.isOne = false) (catalogue : Catalogue) (known : List String) (source : String) :
    ∃ lexemes, Shows catalogue known source 3 (.of (.ofNat 1) d) d.text.toList lexemes := by
  have htimes := Dimension.times_written d
  rw [Dimension.text_eq]
  cases hw : d.written with
  | nil =>
    rw [hw] at htimes
    rw [← htimes] at hone
    cases hone
  | cons factor factors =>
    rw [hw] at htimes hd
    obtain ⟨hfactor, hrest⟩ := List.forall_mem_cons.mp hd
    obtain ⟨behind, hshows⟩ := exists_factor hfactor
    have hunit : working.multiply (.ofNat 1) (.ofNat 1) = .ok (.ofNat 1) := by decide +kernel
    obtain ⟨lexemes, hall⟩ := exists_times (hshows.mono (by decide)) hunit hrest
    rw [Dimension.times, List.foldl_cons, Dimension.one_add, ← Dimension.times] at htimes
    rw [htimes] at hall
    exact ⟨lexemes, by rwa [toList_intercalate_cons]⟩

/-- The text of a number directly before that of a dimension with integral exponents is read as the
number with this dimension. -/
theorem exists_shows_joined {d : Dimension} (hd : ∀ factor ∈ d.written, IsFactor factor)
    {w : Written} (hfits : Fits w.coefficient w.exponent) {negative : Bool}
    (hn : negative = true → w.coefficient ≠ 0)
    (catalogue : Catalogue) (known : List String) (source : String) :
    ∃ lexemes, Shows catalogue known source 3
      (.of (.finite negative w.coefficient w.exponent) d)
      ((if negative then ['-'] else []) ++ w.text ++ d.text.toList) lexemes := by
  have htimes := Dimension.times_written d
  rw [Dimension.text_eq]
  cases hw : d.written with
  | nil =>
    rw [hw] at htimes
    rw [← htimes]
    refine ⟨w.lexemes negative, ?_⟩
    rw [List.map_nil, String.intercalate_nil, String.toList_empty, List.append_nil]
    exact Shows.number hfits hn
  | cons factor factors =>
    rw [hw] at htimes hd
    obtain ⟨hfactor, hrest⟩ := List.forall_mem_cons.mp hd
    obtain ⟨behind, hshows⟩ := exists_factor hfactor
    have hnumber : Shows catalogue known source 3 _ _ _ := Shows.number hfits hn
    have hfirst := juxtaposed
      (fun rest => Written.passes hfits negative (endsNumeral_factor hfactor rest))
      hnumber.completes hnumber.expression hshows (by simp [unitLexeme])
      (multiply_unit (d := .one) (hfits.multiply_one negative) _)
    obtain ⟨lexemes, hall⟩ := exists_times hfirst (hfits.multiply_one negative) hrest
    rw [Dimension.times, List.foldl_cons, ← Dimension.times] at htimes
    rw [htimes] at hall
    exact ⟨lexemes, by rwa [toList_intercalate_cons, ← List.append_assoc]⟩

/-- A quantity that equals one and has a dimension is shown by its dimension. -/
theorem text_of_isEqual_one {text : String} (hv : q.value.isEqual (.ofNat 1) = .ok true)
    (hone : q.isDimensionless = false) (ht : q.dimension.text? = .ok text) :
    q.text n = .ok text := by
  refine bind_eq_ok_iff.mpr ⟨true, ofSignal_eq_ok_iff.mpr hv, ?_⟩
  rw [hone]
  exact (if_pos rfl).trans ht

/-- Any other quantity is shown by its number and its dimension. -/
theorem text_of_display {equal : Bool} {shown text : String}
    (hv : q.value.isEqual (.ofNat 1) = .ok equal) (hone : (equal && !q.isDimensionless) = false)
    (hs : q.value.display n = .ok shown) (ht : q.dimension.text? = .ok text) :
    q.text n = .ok (shown ++ text) := by
  refine bind_eq_ok_iff.mpr ⟨equal, ofSignal_eq_ok_iff.mpr hv, ?_⟩
  rw [hone, if_neg Bool.false_ne_true, hs, ht]
  rfl

/-- A finite number equals one or does not. -/
theorem exists_isEqual_of_isFinite {value : Decimal} (hv : value.isFinite = true) (n : Nat) :
    ∃ equal, value.isEqual (.ofNat n) = .ok equal := by
  cases value with
  | finite s c e => exact ⟨_, rfl⟩
  | infinity s => cases hv
  | nan s signaling payload => cases hv

/-- A finite quantity with small integral exponents that is shown in at most fifty figures is typed
back in: its text is compiled to an equation that has the dimension of the quantity and the number
as it is shown, whatever the catalogue, the known variables and their values are. -/
theorem compile_shown_spec (hq : q.value.isFinite = true) (hl : 1 ≤ n) (hu : n ≤ 50)
    (hr : q.value.isZero = true ∨ q.value.adjusted.natAbs ≤ 999000)
    (hd : ∀ exponent ∈ q.dimension.exponents, exponent.den = 1 ∧ exponent.num.natAbs < pow10 90)
    (catalogue : Catalogue) (known : List String) :
    ∃ text shown value e, q.text n = .ok text ∧ q.value.display n = .ok shown ∧
      Decimal.read? shown.toList = some value ∧ Equation.compile catalogue known text = .ok e ∧
      ∀ bindings, e.evaluate bindings = .ok (.of value q.dimension) := by
  have hfactors : ∀ factor ∈ q.dimension.written, IsFactor factor := fun factor =>
    isFactor_of_mem_written hd
  have hwritable : q.dimension.text? = .ok q.dimension.text :=
    if_pos (Dimension.isWritable_of_integers hd)
  obtain ⟨equal, hequal⟩ := exists_isEqual_of_isFinite hq 1
  cases hone : equal && !q.isDimensionless with
  | true =>
    -- a value of one is left out
    obtain ⟨rfl, hnot⟩ := Bool.and_eq_true_iff.mp hone
    have hdimension : q.isDimensionless = false := by simpa using hnot
    have htext := text_of_isEqual_one (n := n) hequal hdimension hwritable
    obtain ⟨lexemes, hshows⟩ :=
      exists_shows_dimension hfactors hdimension catalogue known q.dimension.text
    obtain ⟨e, he, hvalue⟩ := Equation.exists_compile_of_shows (by decide) hshows
    exact ⟨_, "1", .ofNat 1, e, htext, display_of_isEqual_one hequal hl hu, by decide +kernel, he,
      hvalue⟩
  | false =>
    obtain ⟨negative, w, hdisplay, hn, hfits⟩ := exists_display_fits hq hl hu hr
    have hjoined := text_of_display hequal hone hdisplay hwritable
    generalize htext : String.ofList ((if negative then ['-'] else []) ++ w.text) ++
      q.dimension.text = text at hjoined
    have hlist : (if negative then ['-'] else []) ++ w.text ++ q.dimension.text.toList =
        text.toList := by
      rw [← htext, String.toList_append, String.toList_ofList]
    obtain ⟨lexemes, hshows⟩ := exists_shows_joined hfactors hfits hn catalogue known text
    rw [hlist] at hshows
    obtain ⟨e, he, hvalue⟩ := Equation.exists_compile_of_shows (by decide) hshows
    refine ⟨text, _, _, e, hjoined, hdisplay, ?_, he, hvalue⟩
    rw [String.toList_ofList]
    exact w.read?_text negative hfits.storage.1 hfits.storage.2

/-- A negative number with a power of ten, and a product of powers of units without a name. -/
theorem compile_shown_spec_powers :
    let q := of (.finite true 123456789 (-15)) ⟨-3, 2, 1, 0, -1, 0, 0⟩
    (q.value.isFinite = true ∧ q.value.adjusted.natAbs ≤ 999000 ∧
      ∀ exponent ∈ q.dimension.exponents, exponent.den = 1 ∧ exponent.num.natAbs < pow10 90) ∧
    ∃ e, q.text 6 = .ok "-1.23457E-7kg m^2 s^-3 K^-1" ∧
      Equation.compile .standard [] "-1.23457E-7kg m^2 s^-3 K^-1" = .ok e ∧
      ∀ bindings, e.evaluate bindings = .ok (.of (.finite true 123457 (-12)) q.dimension) := by
  intro q
  have hq : q.value.isFinite = true := rfl
  have hr : q.value.adjusted.natAbs ≤ 999000 := by decide +kernel
  have hd : ∀ exponent ∈ q.dimension.exponents,
      exponent.den = 1 ∧ exponent.num.natAbs < pow10 90 := by decide +kernel
  obtain ⟨text, shown, value, e, htext, hshown, hread, he, hvalue⟩ :=
    compile_shown_spec (n := 6) hq (by decide) (by decide) (.inr hr) hd .standard []
  obtain rfl : text = "-1.23457E-7kg m^2 s^-3 K^-1" :=
    Except.ok.inj (htext.symm.trans (by decide +kernel))
  obtain rfl : shown = "-1.23457E-7" := Except.ok.inj (hshown.symm.trans (by decide +kernel))
  obtain rfl : value = .finite true 123457 (-12) :=
    Option.some.inj (hread.symm.trans (by decide +kernel))
  exact ⟨⟨hq, hr, hd⟩, e, htext, he, hvalue⟩

end Quantity

end UnitCalculator
