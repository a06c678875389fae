import Mathlib.Algebra.Order.Ring.Unbundled.Rat
import UnitCalculator.Dimension.Naming
import UnitCalculator.Proofs.Decimal.Display

/-!
# Dimensions by the units they are written in

A dimension is written as a product of powers of named units: the unit that has exactly this
dimension, or those base units that occur. The product of these powers is the dimension again.
-/

namespace UnitCalculator.Dimension

variable {d : Dimension}

/-- The dimension of a named unit. -/
def ofSymbol (symbol : String) : Dimension := (ofSymbol? symbol).getD one

/-- The dimension of a power of a named unit. -/
def ofFactor (factor : String × Rat) : Dimension := (ofSymbol factor.1).multiply factor.2

/-- A dimension times powers of named units. -/
def times (d : Dimension) (factors : List (String × Rat)) : Dimension :=
  factors.foldl (fun product factor => product.add (ofFactor factor)) d

/-- The powers of named units that a dimension is written by. -/
def written (d : Dimension) : List (String × Rat) :=
  match d.named? with
  | some symbol => [(symbol, 1)]
  | none => d.properFactors

/-- A text consists of the powers with spaces between them. -/
theorem text_eq (d : Dimension) : d.text = " ".intercalate (d.written.map factorText) := by
  rw [text, written]
  cases d.named? with
  | none => rfl
  | some symbol => rw [List.map_singleton, String.intercalate_singleton, factorText, if_pos rfl]

/-- Pure numbers change no dimension. -/
theorem one_add (d : Dimension) : one.add d = d := by
  simp [add, zipWith, one]

/-- The first power is the dimension itself. -/
theorem multiply_one (d : Dimension) : d.multiply 1 = d := by
  simp [multiply, map]

/-- The zeroth power changes no dimension. -/
theorem add_multiply_zero (d other : Dimension) : d.add (other.multiply 0) = d := by
  simp [add, zipWith, multiply, map]

/-- Factors that do not occur can be left out. -/
theorem times_filter (d : Dimension) (factors : List (String × Rat)) :
    d.times (factors.filter fun factor => factor.2 ≠ 0) = d.times factors := by
  induction factors generalizing d with
  | nil => rfl
  | cons factor factors ih =>
    by_cases hzero : factor.2 = 0
    · have hnone : d.add (ofFactor factor) = d := by
        rw [ofFactor, hzero, add_multiply_zero]
      rw [List.filter_cons_of_neg (by simpa using hzero), ih, times, times, List.foldl_cons, hnone]
    · rw [List.filter_cons_of_pos (by simpa using hzero)]
      exact ih _

/-- A dimension is the product of the powers of base units. -/
theorem times_factors (d : Dimension) : one.times d.factors = d := by
  have hbase : ofSymbol "kg" = ⟨0, 0, 1, 0, 0, 0, 0⟩ ∧ ofSymbol "m" = ⟨0, 1, 0, 0, 0, 0, 0⟩ ∧
      ofSymbol "s" = ⟨1, 0, 0, 0, 0, 0, 0⟩ ∧ ofSymbol "A" = ⟨0, 0, 0, 1, 0, 0, 0⟩ ∧
      ofSymbol "K" = ⟨0, 0, 0, 0, 1, 0, 0⟩ ∧ ofSymbol "mol" = ⟨0, 0, 0, 0, 0, 1, 0⟩ ∧
      ofSymbol "cd" = ⟨0, 0, 0, 0, 0, 0, 1⟩ := by decide +kernel
  obtain ⟨hkg, hm, hs, hA, hK, hmol, hcd⟩ := hbase
  simp [times, factors, ofFactor, hkg, hm, hs, hA, hK, hmol, hcd, add, zipWith, multiply, map, one]

/-- A dimension is the product of the powers that it is written by. -/
theorem times_written (d : Dimension) : one.times d.written = d := by
  rw [written]
  cases hn : d.named? with
  | none => rw [properFactors, times_filter, times_factors]
  | some symbol =>
    obtain ⟨entry, hfind, rfl⟩ := Option.map_eq_some_iff.mp hn
    have hsame : entry.2 = d := by simpa using List.find?_some hfind
    have hall : ∀ entry ∈ namedUnits, ofSymbol entry.1 = entry.2 := by decide +kernel
    rw [times, List.foldl_cons, List.foldl_nil, one_add, ofFactor, multiply_one,
      hall entry (List.mem_of_find?_eq_some hfind), hsame]

/-- A dimension is written by named units, with exponents of the dimension or one. -/
theorem of_mem_written {factor : String × Rat} (h : factor ∈ d.written) :
    factor.1 ∈ namedUnits.map (·.1) ∧ (factor.2 = 1 ∨ factor.2 ∈ d.exponents) := by
  rw [written] at h
  cases hn : d.named? with
  | some symbol =>
    rw [hn] at h
    rw [List.mem_singleton.mp h]
    obtain ⟨entry, hfind, rfl⟩ := Option.map_eq_some_iff.mp hn
    exact ⟨List.mem_map_of_mem (List.mem_of_find?_eq_some hfind), .inl rfl⟩
  | none =>
    rw [hn] at h
    have hfactor : factor ∈ d.factors := (List.mem_filter.mp h).1
    have hbase : ∀ symbol ∈ d.factors.map (·.1), symbol ∈ namedUnits.map (·.1) := by
      have hall : ∀ symbol ∈ ["kg", "m", "s", "A", "K", "mol", "cd"],
          symbol ∈ namedUnits.map (·.1) := by decide +kernel
      exact hall
    have hexponents : ∀ exponent ∈ d.factors.map (·.2), exponent ∈ d.exponents := by
      simp [factors, exponents]
    exact ⟨hbase _ (List.mem_map_of_mem hfactor), .inr (hexponents _ (List.mem_map_of_mem hfactor))⟩

/-- Integers of at most ninety digits can be written. -/
theorem isWritable_of_integers
    (h : ∀ exponent ∈ d.exponents, exponent.den = 1 ∧ exponent.num.natAbs < pow10 90) :
    d.isWritable = true := by
  have hten : pow10 90 ≤ pow10 Text.numeralDigits := pow10_le_pow10 (by decide)
  have hone : 1 < pow10 90 := by decide +kernel
  rw [isWritable, List.all_eq_true]
  intro exponent he
  obtain ⟨hden, hnum⟩ := h exponent he
  have hshort : ∀ n : Int, n.natAbs < pow10 90 → UnitCalculator.isWritable n = true :=
    fun n hn => decide_eq_true (hn.trans_le hten)
  rw [Bool.and_eq_true, hden]
  exact ⟨hshort _ hnum, hshort 1 hone⟩

end UnitCalculator.Dimension
