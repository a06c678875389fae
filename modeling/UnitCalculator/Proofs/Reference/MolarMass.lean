import UnitCalculator.Proofs.Quantity.Exact
import UnitCalculator.Proofs.Reference.FormulaText

/-!
# Molar masses are exact

The molar masses of the elements are given to at most nine places, so in kilograms per mole they are
natural multiples of one unit twelve places behind the point. So are their sums and multiples, and
below ten to the power 80 the working format has all of them. A count of at least one never makes a
molar mass smaller, so that no part of a formula has a larger molar mass than the whole.
-/

namespace UnitCalculator

open Decimal

/-- A finite number without sign and with at most so many places behind the point. -/
def Decimal.HasPlaces (places : Nat) : Decimal → Prop
  | .finite s _ e => s = false ∧ -(places : Int) ≤ e
  | _ => False

instance (places : Nat) : (d : Decimal) → Decidable (d.HasPlaces places)
  | .finite s _ e => inferInstanceAs (Decidable (s = false ∧ -(places : Int) ≤ e))
  | .infinity _ => inferInstanceAs (Decidable False)
  | .nan .. => inferInstanceAs (Decidable False)

/-- A rational number is a natural multiple of a unit so many places behind the point. -/
def IsMultiple (places : Nat) (x : ℚ) : Prop := ∃ n : Nat, x = n * 10 ^ (-(places : Int))

section

variable {places : Nat} {d : Decimal} {x y : ℚ}

/-- A number with few places behind the point stands for a multiple of the unit of the last one. -/
theorem Decimal.HasPlaces.isMultiple (h : d.HasPlaces places) :
    d.StandsFor d.toRat ∧ IsMultiple places d.toRat := by
  cases d with
  | finite s c e =>
    obtain ⟨rfl, he⟩ := h
    have hexponent : e = -(places : Int) + ((e + places).toNat : Nat) := by omega
    refine ⟨⟨rfl, rfl⟩, c * pow10 (e + places).toNat, ?_⟩
    rw [hexponent, ← toRat_mul_pow10, ← hexponent, toRat_eq_signed]
    rfl
  | infinity s => exact h.elim
  | nan s signaling payload => exact h.elim

/-- Zero is a multiple of every unit. -/
theorem isMultiple_zero : IsMultiple places 0 := ⟨0, by simp⟩

/-- Sums of multiples are multiples. -/
theorem IsMultiple.add (hx : IsMultiple places x) (hy : IsMultiple places y) :
    IsMultiple places (x + y) := by
  obtain ⟨n, rfl⟩ := hx
  obtain ⟨m, rfl⟩ := hy
  exact ⟨n + m, by push_cast; ring⟩

/-- Multiples of multiples are multiples. -/
theorem IsMultiple.mul_natCast (hx : IsMultiple places x) (count : Nat) :
    IsMultiple places (x * count) := by
  obtain ⟨n, rfl⟩ := hx
  exact ⟨n * count, by push_cast; ring⟩

/-- A thousandth takes three more places. -/
theorem IsMultiple.div_thousand (hx : IsMultiple places x) :
    IsMultiple (places + 3) (x / 1000) := by
  obtain ⟨n, rfl⟩ := hx
  refine ⟨n, ?_⟩
  have hexponent : (10 : ℚ) ^ (-((places + 3 : Nat) : Int)) =
      10 ^ (-(places : Int)) * 10 ^ (-3 : Int) := by
    rw [← ten_zpow_add]
    congr 1
    omega
  rw [hexponent]
  norm_num
  ring

/-- Multiples are not negative. -/
theorem IsMultiple.nonneg (hx : IsMultiple places x) : 0 ≤ x := by
  obtain ⟨n, rfl⟩ := hx
  exact mul_nonneg (Nat.cast_nonneg n) (ten_zpow_pos _).le

/-- The working format has the multiples below ten to the power 80. -/
theorem IsMultiple.represents (hx : IsMultiple 12 x) (hb : x < 10 ^ 80) :
    working.Represents x := by
  have habs := abs_of_nonneg hx.nonneg
  obtain ⟨-, htop, htiny⟩ := working_bounds
  have hlarge : ∀ k : Int, 80 ≤ k → (10 : ℚ) ^ (80 : Int) ≤ 10 ^ k :=
    fun k hk => zpow_le_zpow_right₀ (by norm_num) hk
  obtain ⟨n, rfl⟩ := hx
  refine ⟨⟨n, _, by norm_cast, ?_, by omega⟩, ?_⟩
  · have hscale : (10 : ℚ) ^ 80 = (pow10 92 : Nat) * 10 ^ (-((12 : Nat) : Int)) := by
      rw [cast_pow10]
      norm_num
    rw [hscale] at hb
    have hfew : n < pow10 92 := by exact_mod_cast lt_of_mul_lt_mul_right hb (ten_zpow_pos _).le
    exact hfew.trans (by decide +kernel)
  · rw [habs]
    exact hb.trans_le (hlarge _ (by omega))

end

namespace Reference

section

variable {table : ElementTable} {symbol : String} {shares : List (String × Nat)}

/-- The molar masses of a table are numbers without sign and have at most nine places behind the
point. -/
def ElementTable.HasNinePlaces (table : ElementTable) : Prop :=
  ∀ element ∈ table.elements, element.molarMass.HasPlaces 9

/-- The molar masses of the named elements have at most nine places behind the point. -/
theorem hasNinePlaces_standard : Catalogue.standard.elements.HasNinePlaces := by
  have hall : ∀ mass ∈ Catalogue.standard.elements.elements.map (·.molarMass),
      mass.HasPlaces 9 := by decide +kernel
  exact fun element he => hall _ (List.mem_map_of_mem he)

/-- The molar mass of an element in kilograms per mole, zero if the table does not have it. -/
def ElementTable.kilograms (table : ElementTable) (symbol : String) : ℚ :=
  match table.find? symbol with
  | some element => element.molarMass.toRat / 1000
  | none => 0

/-- The sum of the molar masses of elements, each taken so many times, in kilograms per mole. -/
def ElementTable.totalMass (table : ElementTable) (shares : List (String × Nat)) : ℚ :=
  (shares.map fun share => table.kilograms share.1 * share.2).sum

/-- The molar mass of elements side by side. -/
theorem ElementTable.totalMass_append (table : ElementTable) (first second : List (String × Nat)) :
    table.totalMass (first ++ second) = table.totalMass first + table.totalMass second := by
  rw [totalMass, List.map_append, List.sum_append]
  rfl

/-- The molar mass of elements taken so many times more. -/
theorem ElementTable.totalMass_scaled (table : ElementTable) (count : Nat)
    (shares : List (String × Nat)) :
    table.totalMass (scaled count shares) = table.totalMass shares * count := by
  induction shares with
  | nil => simp [totalMass]
  | cons share shares ih =>
    simp only [totalMass, scaled_cons, List.map_cons, List.sum_cons] at ih ⊢
    rw [ih]
    push_cast
    ring

/-- The molar mass of an element is a multiple of one unit. -/
theorem ElementTable.HasNinePlaces.isMultiple_kilograms (ht : table.HasNinePlaces)
    (symbol : String) : IsMultiple 12 (table.kilograms symbol) := by
  rw [ElementTable.kilograms]
  cases hf : table.find? symbol with
  | none => exact isMultiple_zero
  | some element => exact (ht element (List.mem_of_find?_eq_some hf)).isMultiple.2.div_thousand

/-- The molar mass of elements is a multiple of one unit. -/
theorem ElementTable.HasNinePlaces.isMultiple_totalMass (ht : table.HasNinePlaces)
    (shares : List (String × Nat)) : IsMultiple 12 (table.totalMass shares) := by
  induction shares with
  | nil => exact isMultiple_zero
  | cons share shares ih => exact ((ht.isMultiple_kilograms share.1).mul_natCast share.2).add ih

/-- The molar mass of an element is exact. -/
theorem ElementTable.HasNinePlaces.exists_molarMass (ht : table.HasNinePlaces)
    (hs : symbol ∈ table.symbols) (hb : table.kilograms symbol < 10 ^ 80) :
    ∃ mass, table.molarMass symbol = .ok mass ∧
      mass.Amounts (table.kilograms symbol) ElementTable.molar := by
  obtain ⟨entry, he, hsymbol⟩ := List.mem_map.mp hs
  obtain ⟨element, hf⟩ : ∃ element, table.find? symbol = some element :=
    Option.isSome_iff_exists.mp (List.find?_isSome.mpr ⟨entry, he, decide_eq_true hsymbol⟩)
  obtain ⟨hstands, hmultiple⟩ := (ht element (List.mem_of_find?_eq_some hf)).isMultiple
  have hvalue : table.kilograms symbol = element.molarMass.toRat / 1000 := by
    rw [ElementTable.kilograms, hf]
  rw [hvalue] at hb ⊢
  obtain ⟨value, hdivide, hexact⟩ := Format.exists_divide hstands (standsFor_ofNat 1000)
    (by norm_num) (hmultiple.div_thousand.represents hb)
  refine ⟨.of value ElementTable.molar, ?_, hexact, rfl⟩
  rw [ElementTable.molarMass, ElementTable.element, hf]
  simp only [bind, Except.bind, hdivide, ofSignal]
  rfl

/-- A molar mass taken so many times is exact. -/
theorem exists_multiply_count {mass : Quantity} {x : ℚ} (hm : mass.Amounts x ElementTable.molar)
    (hx : IsMultiple 12 x) {count : Nat} (hb : x * count < 10 ^ 80) :
    ∃ product, mass.multiply (.number (.ofNat count)) = .ok product ∧
      product.Amounts (x * count) ElementTable.molar := by
  have hcount : (Quantity.number (.ofNat count)).Amounts count .one := ⟨standsFor_ofNat count, rfl⟩
  have hdimension : ElementTable.molar.add .one = ElementTable.molar := by decide +kernel
  rw [← hdimension]
  exact Quantity.exists_multiply hm hcount ((hx.mul_natCast count).represents hb)

end

namespace Formula

mutual

/-- A formula takes elements of a table and groups of them, each at least once. -/
def IsCounted (table : ElementTable) : Formula → Prop
  | .element symbol count => symbol ∈ table.symbols ∧ 1 ≤ count
  | .group components count => AreCounted table components ∧ 1 ≤ count

/-- All of the components take elements and groups at least once. -/
def AreCounted (table : ElementTable) : List Formula → Prop
  | [] => True
  | component :: components => IsCounted table component ∧ AreCounted table components

end

section

variable {table : ElementTable}

/-- Taken at least once, nothing becomes smaller. -/
theorem lt_of_mul_count_lt {x bound : ℚ} (hx : 0 ≤ x) {count : Nat} (hc : 1 ≤ count)
    (h : x * count < bound) : x < bound :=
  (le_mul_of_one_le_right hx (Nat.one_le_cast.mpr hc)).trans_lt h

mutual

/-- The molar mass of a formula is exact. -/
theorem exists_molarMass (ht : table.HasNinePlaces) : (formula : Formula) →
    formula.IsCounted table → table.totalMass formula.multiplicities < 10 ^ 80 →
    ∃ mass, formula.molarMass table = .ok mass ∧
      mass.Amounts (table.totalMass formula.multiplicities) ElementTable.molar
  | .element symbol count, hc, hb => by
    have htotal : table.totalMass (multiplicities (.element symbol count)) =
        table.kilograms symbol * count := by
      simp [multiplicities, ElementTable.totalMass]
    rw [htotal] at hb ⊢
    have hmultiple := ht.isMultiple_kilograms symbol
    obtain ⟨mass, hmass, hamounts⟩ :=
      ht.exists_molarMass hc.1 (lt_of_mul_count_lt hmultiple.nonneg hc.2 hb)
    obtain ⟨product, hproduct, hexact⟩ := exists_multiply_count hamounts hmultiple hb
    exact ⟨product, bind_eq_ok_iff.mpr ⟨mass, hmass, hproduct⟩, hexact⟩
  | .group components count, hc, hb => by
    have htotal : table.totalMass (multiplicities (.group components count)) =
        table.totalMass (multiplicitiesOf components) * count := by
      rw [multiplicities, table.totalMass_scaled]
    rw [htotal] at hb ⊢
    have hmultiple := ht.isMultiple_totalMass (multiplicitiesOf components)
    have hsmall := lt_of_mul_count_lt hmultiple.nonneg hc.2 hb
    have hzero : (Quantity.of (.ofNat 0) ElementTable.molar).Amounts 0 ElementTable.molar :=
      ⟨standsFor_ofNat 0, rfl⟩
    obtain ⟨mass, hmass, hamounts⟩ := exists_sumMolarMass ht components hc.1 hzero isMultiple_zero
      (by rwa [zero_add])
    rw [zero_add] at hamounts
    obtain ⟨product, hproduct, hexact⟩ := exists_multiply_count hamounts hmultiple hb
    exact ⟨product, bind_eq_ok_iff.mpr ⟨mass, hmass, hproduct⟩, hexact⟩

/-- The sum of the molar masses of formulas is exact. -/
theorem exists_sumMolarMass (ht : table.HasNinePlaces) : (components : List Formula) →
    AreCounted table components → ∀ {sum : Quantity} {x : ℚ}, sum.Amounts x ElementTable.molar →
    IsMultiple 12 x → x + table.totalMass (multiplicitiesOf components) < 10 ^ 80 →
    ∃ total, sumMolarMass table sum components = .ok total ∧
      total.Amounts (x + table.totalMass (multiplicitiesOf components)) ElementTable.molar
  | [], _, sum, x, hs, _, _ => by
    have htotal : x + table.totalMass (multiplicitiesOf []) = x := add_zero x
    rw [htotal]
    exact ⟨sum, rfl, hs⟩
  | component :: components, hc, sum, x, hs, hx, hb => by
    have hfirst := ht.isMultiple_totalMass component.multiplicities
    have hrest := ht.isMultiple_totalMass (multiplicitiesOf components)
    rw [multiplicitiesOf, table.totalMass_append, ← add_assoc] at hb ⊢
    have hnext : x + table.totalMass component.multiplicities < 10 ^ 80 :=
      (le_add_of_nonneg_right hrest.nonneg).trans_lt hb
    obtain ⟨mass, hmass, hamounts⟩ := exists_molarMass ht component hc.1
      ((le_add_of_nonneg_left hx.nonneg).trans_lt hnext)
    obtain ⟨next, hadd, hsum⟩ :=
      Quantity.exists_add hs hamounts ((hx.add hfirst).represents hnext)
    obtain ⟨total, htotal, hexact⟩ :=
      exists_sumMolarMass ht components hc.2 hsum (hx.add hfirst) hb
    exact ⟨total, bind_eq_ok_iff.mpr ⟨mass, hmass, bind_eq_ok_iff.mpr ⟨next, hadd, htotal⟩⟩, hexact⟩

end

/-- The molar mass of a formula of named elements that takes every element and every group at least
once is the exact sum of the molar masses of its elements, each in kilograms per mole and taken as
often as its own count and the counts of the groups around it say, if that sum is below ten to the
power 80. -/
theorem molarMass_spec {formula : Formula} (hc : formula.IsCounted Catalogue.standard.elements)
    (hb : Catalogue.standard.elements.totalMass formula.multiplicities < 10 ^ 80) :
    ∃ mass, formula.molarMass Catalogue.standard.elements = .ok mass ∧
      mass.dimension = ElementTable.molar ∧
      mass.value.StandsFor (Catalogue.standard.elements.totalMass formula.multiplicities) := by
  obtain ⟨mass, hmass, hamounts⟩ := exists_molarMass hasNinePlaces_standard formula hc hb
  exact ⟨mass, hmass, hamounts.dimension, hamounts.value⟩

/-- Blue vitriol, with water of crystallization as a group. -/
theorem molarMass_spec_vitriol :
    let table := Catalogue.standard.elements
    let formula : Formula := .group [.element "Cu" 1, .element "S" 1, .element "O" 4,
      .group [.element "H" 2, .element "O" 1] 5] 1
    (formula.IsCounted table ∧ table.totalMass formula.multiplicities < 10 ^ 80) ∧
    ∃ mass, formula.molarMass table = .ok mass ∧ mass.dimension = ElementTable.molar ∧
      mass.value.StandsFor (249677 / 1000000) := by
  intro table formula
  have hsymbols : ∀ symbol ∈ ["Cu", "S", "O", "H"], symbol ∈ table.symbols := by decide +kernel
  have hc : formula.IsCounted table := by
    simp [formula, IsCounted, AreCounted, hsymbols]
  have hmultiplicities : formula.multiplicities =
      [("Cu", 1), ("S", 1), ("O", 4), ("H", 10), ("O", 5)] := by decide +kernel
  have hcopper : table.kilograms "Cu" = (finite false 63546 (-3)).toRat / 1000 := rfl
  have hsulfur : table.kilograms "S" = (finite false 3206 (-2)).toRat / 1000 := rfl
  have hoxygen : table.kilograms "O" = (finite false 15999 (-3)).toRat / 1000 := rfl
  have hhydrogen : table.kilograms "H" = (finite false 1008 (-3)).toRat / 1000 := rfl
  have htotal : table.totalMass formula.multiplicities = 249677 / 1000000 := by
    rw [hmultiplicities]
    norm_num [ElementTable.totalMass, hcopper, hsulfur, hoxygen, hhydrogen, toRat]
  have hb : table.totalMass formula.multiplicities < 10 ^ 80 := by
    rw [htotal]
    norm_num
  obtain ⟨mass, hmass, hdimension, hvalue⟩ := molarMass_spec hc hb
  exact ⟨⟨hc, hb⟩, mass, hmass, hdimension, htotal ▸ hvalue⟩

end

end Formula

end Reference

end UnitCalculator
