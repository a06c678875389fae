import UnitCalculator.Quantity.Basic
import UnitCalculator.Units.Prefix

/-!
# Unit symbols

A symbol denotes, in this order, a unit outside the SI, a named SI unit, or one of those after a
single prefix. A prefix of two letters is tried before one of a single letter, and the kilogram,
which has a prefix already, takes none.
-/

namespace UnitCalculator

/-- A unit outside the SI that is accepted by name. -/
structure NamedUnit where
  symbol : String
  value : Decimal
  dimension : Dimension
  description : String

namespace Units

/-- Dimension of energies. -/
def energy : Dimension := ⟨-2, 2, 1, 0, 0, 0, 0⟩

/-- Dimension of pressures. -/
def pressure : Dimension := ⟨-2, -1, 1, 0, 0, 0, 0⟩

/-- Dimension of times. -/
def time : Dimension := ⟨1, 0, 0, 0, 0, 0, 0⟩

/-- Dimension of masses. -/
def mass : Dimension := ⟨0, 0, 1, 0, 0, 0, 0⟩

/-- Dimension of powers of lengths. -/
def length (power : Rat) : Dimension := ⟨0, power, 0, 0, 0, 0, 0⟩

/-- Units outside the SI. -/
def namedUnits : List NamedUnit :=
  [⟨"g", .finite false 1 (-3), mass, "gram"⟩,
    ⟨"eV", .finite false 1602176634 (-28), energy, "electron volt"⟩,
    ⟨"min", .finite false 60 0, time, "minute"⟩,
    ⟨"h", .finite false 3600 0, time, "hour"⟩,
    ⟨"d", .finite false 86400 0, time, "day"⟩,
    ⟨"au", .finite false 149597870700 0, length 1, "astronomical unit"⟩,
    ⟨"pc", .finite false 30856775814913673 0, length 1, "parsec"⟩,
    ⟨"ha", .finite false 1 4, length 2, "hectare"⟩,
    ⟨"l", .finite false 1 (-3), length 3, "litre"⟩,
    ⟨"L", .finite false 1 (-3), length 3, "litre"⟩,
    ⟨"Da", .finite false 166053906660 (-38), mass, "dalton"⟩,
    ⟨"amu", .finite false 166053906660 (-38), mass, "atomic mass unit"⟩,
    ⟨"bar", .finite false 1 5, pressure, "bar"⟩,
    ⟨"atm", .finite false 101325 0, pressure, "standard atmosphere"⟩,
    ⟨"cal", .finite false 4184 (-3), energy, "thermochemical calorie"⟩]

/-- The unit outside the SI with a symbol. -/
def named? (symbol : String) : Option NamedUnit :=
  namedUnits.find? fun unit => unit.symbol = symbol

/-- Symbols that take no prefix. -/
def unprefixable : List String := ["kg"]

/-- The unit that a symbol without prefix denotes. -/
def plain? (symbol : String) : Option Quantity :=
  match named? symbol with
  | some unit => some (.of unit.value unit.dimension)
  | none => (Dimension.ofSymbol? symbol).map (.of (.ofNat 1))

/-- A quantity times a power of ten. -/
def scale (power : Int) (q : Quantity) : Quantity :=
  match q.value with
  | .finite s c e => .of (.finite s c (e + power)) q.dimension
  | value => .of value q.dimension

/-- The unit that a symbol with a prefix of `size` letters denotes. -/
def prefixedBy? (size : Nat) (symbol : List Char) : Option Quantity :=
  let base := String.ofList (symbol.drop size)
  if symbol.length ≤ size ∨ base ∈ unprefixable then none
  else do
    let power ← prefixPower? (String.ofList (symbol.take size))
    let unit ← plain? base
    return scale power unit

/-- The unit that a symbol denotes. -/
def resolve? (symbol : String) : Option Quantity :=
  plain? symbol <|> prefixedBy? 2 symbol.toList <|> prefixedBy? 1 symbol.toList

/-- The multiplier that a prefix denotes. -/
def multiplier? (symbol : String) : Option Quantity :=
  (prefixPower? symbol).map fun power => .number (.tenPower power)

/-- The unit that a symbol denotes, or a fault that names the symbol. -/
def resolve (symbol : String) : Outcome Quantity :=
  match resolve? symbol with
  | some unit => .ok unit
  | none => .error (.of (.unknownUnit symbol))

/-- All symbols without prefix: the units outside the SI first. -/
def symbols : List String :=
  namedUnits.map (·.symbol) ++
    (Dimension.symbols.map (·.1)).filter fun symbol => (named? symbol).isNone

end Units

end UnitCalculator
