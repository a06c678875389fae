import UnitCalculator.Catalogue
import UnitCalculator.Json.Field
import UnitCalculator.Json.Reading
import UnitCalculator.Storage.Files
import UnitCalculator.Text.Record

/-!
# Datasets

Elements and constants are read from JSON arrays of objects, nuclides from comma-separated records
under a line of field names. A catalogue takes every dataset that a directory holds from there, and
the others from the tables that come with the library.
-/

namespace UnitCalculator.Reference

open Storage

/-- Why a dataset cannot be used. -/
inductive DatasetFault where
  | file (fault : FileFault)
  /-- The text is no JSON that can be read. -/
  | notJson (fault : Json.TextFault)
  /-- An entry is no object. -/
  | noRecord
  /-- A field of an entry is wrong. -/
  | unfitRecord
  /-- A line has more or fewer fields than there are names. -/
  | raggedRecord
  deriving DecidableEq

/-- A field, any fault of which makes its record unfit. -/
def fieldOf {α : Type} : Except Json.FieldFault α → Except DatasetFault α
  | .ok value => .ok value
  | .error _ => .error .unfitRecord

/-- The greatest atomic number. -/
def greatestAtomicNumber : Int := 118

/-- A symbol of an element: one to three characters. -/
def symbolOf (value : Json) : Except Json.FieldFault String := do
  let symbol ← value.toText
  if symbol.length = 0 ∨ 3 < symbol.length then throw .unfit
  return symbol

/-- The element that an object describes. -/
def Element.ofMembers (members : List (String × Json)) : Except Json.FieldFault Element := do
  let number ←
    Json.required members "atomic_number" (Json.toIntegerWithin 1 greatestAtomicNumber)
  let symbol ← Json.required members "symbol" symbolOf
  let name ← Json.required members "name" Json.toText
  let molarMass ← Json.required members "molar_mass" Json.toPositive
  return ⟨number.toNat, symbol, name, molarMass⟩

/-- The exponents of a dimension: seven integers. -/
def dimensionOf (value : Json) : Except Json.FieldFault Dimension := do
  let exponents ← (← value.toList).mapM Json.toInteger
  match Dimension.ofExponents (exponents.map fun n : Int => (n : Rat)) with
  | .ok dimension => return dimension
  | .error _ => throw .unfit

/-- The constant that an object describes. -/
def Constant.ofMembers (members : List (String × Json)) : Except Json.FieldFault Constant := do
  let symbol ← Json.required members "symbol" Json.toText
  let name ← Json.required members "name" Json.toText
  let value ← Json.required members "value" Json.toDecimal
  let dimension ← Json.required members "dimension" dimensionOf
  return ⟨symbol, name, value, dimension⟩

/-- A half-life, or nothing for a stable nuclide. -/
def halfLifeOf : Json → Except Json.FieldFault (Option Decimal)
  | .null => .ok none
  | value => do return some (← value.toPositive)

/-- The nuclide that fields describe. -/
def Nuclide.ofMembers (members : List (String × Json)) : Except Json.FieldFault Nuclide := do
  let protons ← Json.required members "z" Json.toNatural
  let neutrons ← Json.required members "n" Json.toNatural
  let symbol ← Json.required members "symbol" Json.toText
  let mass ← Json.required members "mass_micro_u" Json.toPositive
  let bindingEnergy ← Json.required members "binding_energy_kev" Json.toUnsigned
  let halfLife ← Json.optional members "half_life_s" none halfLifeOf
  return ⟨protons, neutrons, symbol, mass, bindingEnergy, halfLife⟩

/-- The entries of a dataset in JSON, as their members. -/
def entriesOf (text : String) : Except DatasetFault (List Json) :=
  match Json.ofText text with
  | .error fault => .error (.notJson fault)
  | .ok (.array entries) => .ok entries
  | .ok (.object []) => .ok []
  | .ok (.string "") => .ok []
  | .ok _ => .error .noRecord

/-- Reads the entries of a dataset in JSON. -/
def readEntries {α : Type} (ofMembers : List (String × Json) → Except Json.FieldFault α)
    (text : String) : Except DatasetFault (List α) := do
  (← entriesOf text).mapM fun
    | .object members => fieldOf (ofMembers members)
    | _ => throw .noRecord

/-- A field of a line: its text without the blanks around it, or nothing. -/
def cellOf (text : String) : Json :=
  let trimmed := Text.trimString text
  if trimmed.isEmpty then .null else .string trimmed

/-- The fields of a line by name. -/
def membersOf (names cells : List String) : Except DatasetFault (List (String × Json)) :=
  if names.length = cells.length then .ok (names.zip (cells.map cellOf))
  else .error .raggedRecord

/-- Reads nuclides from comma-separated records; empty lines are left out. -/
def readNuclides (text : String) : Except DatasetFault (List Nuclide) :=
  match Text.Record.ofText text.toList with
  | [] => .ok []
  | names :: lines =>
    (lines.filter (!·.isEmpty)).mapM fun cells => do
      fieldOf (Nuclide.ofMembers (← membersOf names cells))

/-- The path names no file. -/
def isAbsent : FileFault → Bool
  | .missing | .underFile | .nulCharacter => true
  | .directory | .tooLong | .notText => false

/-- Reads a dataset from a file, or takes the default if there is no such file. -/
def loadDataset {m : Type → Type} [Monad m] {α : Type} (access : FileAccess m)
    (directory name : String) (read : String → Except DatasetFault α) (default : α) :
    m (Except DatasetFault α) := do
  match ← access.readText (joinPath directory name) with
  | .ok text => return read text
  | .error fault => return if isAbsent fault then .ok default else .error (.file fault)

end UnitCalculator.Reference

namespace UnitCalculator.Catalogue

open UnitCalculator.Reference UnitCalculator.Storage

/-- Name of the file of the elements. -/
def elementsFile : String := "periodic_table.json"

/-- Name of the file of the nuclides. -/
def nuclidesFile : String := "ground_states.csv"

/-- Name of the file of the constants. -/
def constantsFile : String := "constants.json"

/-- The catalogue of some tables. -/
def ofLists (elements : List Element) (nuclides : List Nuclide) (constants : List Constant) :
    Catalogue :=
  let table := ElementTable.ofList elements
  ⟨Text.keyed (·.symbol) constants, table, ⟨nuclides, table⟩⟩

/-- The catalogue of the datasets in a directory. -/
def load {m : Type → Type} [Monad m] (access : FileAccess m) (directory : String) :
    m (Except DatasetFault Catalogue) := do
  let elements ← loadDataset access directory elementsFile (readEntries Element.ofMembers)
    periodicTable
  let nuclides ← loadDataset access directory nuclidesFile readNuclides groundStates
  let constants ← loadDataset access directory constantsFile (readEntries Constant.ofMembers)
    physicalConstants
  return do return ofLists (← elements) (← nuclides) (← constants)

end UnitCalculator.Catalogue
