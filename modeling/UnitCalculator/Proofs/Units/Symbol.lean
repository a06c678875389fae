import UnitCalculator.Expression.Scanner

/-!
# Characters of unit symbols

Unit symbols are made of the characters that words start with, and none of them is the name of a
function or a lookup.
-/

namespace UnitCalculator

open Scanner

/-- The key of an entry that is found is one of the keys. -/
theorem mem_of_lookup {α : Type} {key : String} {value : α} {entries : List (String × α)}
    (h : entries.lookup key = some value) : key ∈ entries.map (·.1) := by
  obtain ⟨before, behind, rfl, -⟩ := List.lookup_eq_some_iff.mp h
  simp

namespace Units

/-- A unit without prefix has one of the symbols. -/
theorem mem_of_plain? {symbol : String} {value : Quantity} (h : plain? symbol = some value) :
    symbol ∈ namedUnits.map (·.symbol) ++ Dimension.symbols.map (·.1) := by
  unfold plain? at h
  split at h
  · next unit hunit =>
    have hsymbol : unit.symbol = symbol := by simpa using List.find?_some hunit
    rw [← hsymbol]
    exact List.mem_append_left _ (List.mem_map_of_mem (List.mem_of_find?_eq_some hunit))
  · obtain ⟨dimension, hd, -⟩ := Option.map_eq_some_iff.mp h
    exact List.mem_append_right _ (mem_of_lookup hd)

/-- The symbols of units without prefix are made of first characters of words. -/
theorem startsWord_of_plain? {symbol : String} {value : Quantity}
    (h : plain? symbol = some value) : ∀ c ∈ symbol.toList, startsWord c = true := by
  have hall : ∀ name ∈ namedUnits.map (·.symbol) ++ Dimension.symbols.map (·.1),
      name.toList.all startsWord = true := by decide
  exact List.all_eq_true.mp (hall symbol (mem_of_plain? h))

/-- Prefixes are made of first characters of words. -/
theorem startsWord_of_prefixPower? {name : String} {power : Int}
    (h : prefixPower? name = some power) : ∀ c ∈ name.toList, startsWord c = true := by
  have hall : ∀ name ∈ prefixes.map (·.1), name.toList.all startsWord = true := by decide
  exact List.all_eq_true.mp (hall name (mem_of_lookup h))

/-- The symbols of units with a prefix are made of first characters of words. -/
theorem startsWord_of_prefixedBy? {size : Nat} {symbol : List Char} {value : Quantity}
    (h : prefixedBy? size symbol = some value) : ∀ c ∈ symbol, startsWord c = true := by
  simp only [prefixedBy?] at h
  split at h
  · cases h
  · obtain ⟨power, hpower, h⟩ := Option.bind_eq_some_iff.mp h
    obtain ⟨unit, hunit, -⟩ := Option.bind_eq_some_iff.mp h
    intro c hc
    rw [← List.take_append_drop size symbol] at hc
    rcases List.mem_append.mp hc with hc | hc
    · exact startsWord_of_prefixPower? hpower c (by simpa using hc)
    · exact startsWord_of_plain? hunit c (by simpa using hc)

/-- Unit symbols are made of first characters of words. -/
theorem startsWord_of_resolve? {symbol : String} {value : Quantity}
    (h : resolve? symbol = some value) : ∀ c ∈ symbol.toList, startsWord c = true := by
  simp only [resolve?, Option.orElse_eq_orElse, Option.orElse_eq_or, Option.or_eq_some_iff] at h
  rcases h with h | ⟨-, h | ⟨-, h⟩⟩
  · exact startsWord_of_plain? h
  · exact startsWord_of_prefixedBy? h
  · exact startsWord_of_prefixedBy? h

/-- No unit has the empty text as its symbol. -/
theorem ne_empty_of_resolve? {symbol : String} {value : Quantity}
    (h : resolve? symbol = some value) : symbol ≠ "" := by
  rintro rfl
  have hnone : resolve? "" = none := by decide
  rw [hnone] at h
  cases h

/-- No unit has the name of a function or a lookup. -/
theorem resolve?_callable {name : String} (h : name ∈ Function.names ++ Catalogue.lookupNames) :
    resolve? name = none := by
  have hall : ∀ name ∈ Function.names ++ Catalogue.lookupNames, resolve? name = none := by
    decide +kernel
  exact hall name h

end Units

end UnitCalculator
