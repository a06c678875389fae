import UnitCalculator.Proofs.Decimal.Extent
import UnitCalculator.Proofs.Units.Symbol

/-!
# Sizes of units

The units outside the SI have at most seventeen digits, the named SI units are one, and a prefix
shifts the point by at most thirty places. So every unit that a symbol denotes is a positive number
of at most seventeen digits that lie near the units.
-/

namespace UnitCalculator

open Decimal

/-- A positive number of at most seventeen digits whose last one lies no further from the units than
`reach`. -/
def Decimal.IsSize (reach : Nat) : Decimal → Prop
  | .finite s c e => s = false ∧ c ≠ 0 ∧ c < pow10 17 ∧ e.natAbs ≤ reach
  | _ => False

instance (reach : Nat) : (d : Decimal) → Decidable (d.IsSize reach)
  | .finite s c e =>
    inferInstanceAs (Decidable (s = false ∧ c ≠ 0 ∧ c < pow10 17 ∧ e.natAbs ≤ reach))
  | .infinity _ => inferInstanceAs (Decidable False)
  | .nan .. => inferInstanceAs (Decidable False)

section

variable {d : Decimal} {reach : Nat}

/-- A size is a coefficient with an exponent. -/
theorem Decimal.IsSize.exists_eq (h : d.IsSize reach) :
    ∃ c e, d = .finite false c e ∧ c ≠ 0 ∧ c < pow10 17 ∧ e.natAbs ≤ reach := by
  cases d with
  | finite s c e =>
    obtain ⟨rfl, h⟩ := h
    exact ⟨c, e, rfl, h⟩
  | infinity s => exact h.elim
  | nan s signaling payload => exact h.elim

/-- A size stands for its value. -/
theorem Decimal.IsSize.standsFor (h : d.IsSize reach) : d.StandsFor d.toRat := by
  obtain ⟨c, e, rfl, -⟩ := h.exists_eq
  exact ⟨rfl, rfl⟩

/-- The value of a size is positive. -/
theorem Decimal.IsSize.toRat_pos (h : d.IsSize reach) : 0 < d.toRat := by
  obtain ⟨c, e, rfl, hc, -⟩ := h.exists_eq
  rw [toRat_eq_signed]
  exact mul_pos (Int.cast_pos.mpr (Int.natCast_pos.mpr (Nat.pos_of_ne_zero hc))) (ten_zpow_pos e)

/-- The value of a size has few digits. -/
theorem Decimal.IsSize.hasExtent (h : d.IsSize reach) : HasExtent 17 reach d.toRat := by
  obtain ⟨c, e, rfl, -, hc, he⟩ := h.exists_eq
  exact ⟨_, e, toRat_eq_signed false c e, hc, he⟩

end

/-- The entry that is found is one of the entries. -/
theorem mem_of_lookup_pair {α : Type} {key : String} {value : α} {entries : List (String × α)}
    (h : entries.lookup key = some value) : (key, value) ∈ entries := by
  obtain ⟨before, behind, rfl, -⟩ := List.lookup_eq_some_iff.mp h
  simp

namespace Units

variable {symbol : String} {unit : Quantity}

/-- Greatest distance of the last digit of a unit without prefix from the units. -/
def plainReach : Nat := 38

/-- Greatest number of places by which a prefix shifts the point. -/
def prefixReach : Nat := 30

/-- The size of a unit without prefix. -/
theorem isSize_of_plain? (h : plain? symbol = some unit) : unit.value.IsSize plainReach := by
  unfold plain? at h
  split at h
  · next entry hentry =>
    have hall : ∀ entry ∈ namedUnits, entry.value.IsSize plainReach := by decide +kernel
    rw [← Option.some.inj h]
    exact hall entry (List.mem_of_find?_eq_some hentry)
  · obtain ⟨dimension, -, rfl⟩ := Option.map_eq_some_iff.mp h
    have hone : (ofNat 1).IsSize plainReach := by decide +kernel
    exact hone

/-- A prefix shifts the point. -/
theorem isSize_scale {power : Int} {reach : Nat} (hp : power.natAbs ≤ prefixReach)
    (h : unit.value.IsSize reach) : (scale power unit).value.IsSize (reach + prefixReach) := by
  obtain ⟨c, e, hvalue, hc, hfew, he⟩ := h.exists_eq
  rw [scale, hvalue]
  exact ⟨rfl, hc, hfew, by omega⟩

/-- The size of a unit with a prefix. -/
theorem isSize_of_prefixedBy? {size : Nat} {letters : List Char}
    (h : prefixedBy? size letters = some unit) :
    unit.value.IsSize (plainReach + prefixReach) := by
  simp only [prefixedBy?] at h
  split at h
  · cases h
  · obtain ⟨power, hpower, h⟩ := Option.bind_eq_some_iff.mp h
    obtain ⟨base, hbase, h⟩ := Option.bind_eq_some_iff.mp h
    have hall : ∀ entry ∈ prefixes, entry.2.natAbs ≤ prefixReach := by decide +kernel
    rw [← Option.some.inj h]
    exact isSize_scale (hall _ (mem_of_lookup_pair hpower)) (isSize_of_plain? hbase)

/-- The size of the unit that a symbol denotes. -/
theorem isSize_of_resolve? (h : resolve? symbol = some unit) :
    unit.value.IsSize (plainReach + prefixReach) := by
  simp only [resolve?, Option.orElse_eq_orElse, Option.orElse_eq_or, Option.or_eq_some_iff] at h
  rcases h with h | ⟨-, h | ⟨-, h⟩⟩
  · obtain ⟨c, e, hvalue, hc, hfew, he⟩ := (isSize_of_plain? h).exists_eq
    rw [hvalue]
    exact ⟨rfl, hc, hfew, he.trans (Nat.le_add_right ..)⟩
  · exact isSize_of_prefixedBy? h
  · exact isSize_of_prefixedBy? h

end Units

end UnitCalculator
