import UnitCalculator.Reference.Element
import UnitCalculator.Text.Blank
import UnitCalculator.Text.Digit

/-!
# Nuclides

A nuclide is named by its mass number and the symbol of its element, in either order, with blanks
and one hyphen between them. Atomic masses, binding energies and half-lives are returned in SI
units.
-/

namespace UnitCalculator.Reference

/-- Ground state of a nuclide: the atomic mass in millionths of the atomic mass unit, the binding
energy per nucleon in kilo electron volts and the half-life in seconds, if it decays. -/
structure Nuclide where
  protons : Nat
  neutrons : Nat
  symbol : String
  mass : Decimal
  bindingEnergy : Decimal
  halfLife : Option Decimal

/-- Data that a table has for each nuclide. -/
inductive NuclideField where
  | mass
  | bindingEnergy
  | halfLife
  deriving DecidableEq

/-- Names of the fields. -/
def NuclideField.table : List (String × NuclideField) :=
  [("mass", .mass), ("binding_energy", .bindingEnergy), ("half_life", .halfLife)]

/-- The field of a name. -/
def NuclideField.ofName (name : String) : Outcome NuclideField :=
  match NuclideField.table.lookup name with
  | some field => .ok field
  | none => .error (.unknownField name)

namespace Nuclide

/-- The mass number. -/
def massNumber (n : Nuclide) : Nat := n.protons + n.neutrons

/-- The mass number followed by the symbol. -/
def label (n : Nuclide) : String := n.massNumber.repr ++ n.symbol

/-- Drops blanks, at most one hyphen, and blanks. -/
def dropHyphen (text : List Char) : List Char :=
  match Text.trimLeft text with
  | '-' :: rest => Text.trimLeft rest
  | rest => rest

/-- An element symbol of one to three letters, in any case. -/
def isSymbol (letters : List Char) : Bool :=
  !letters.isEmpty && letters.length ≤ 3 && letters.all Text.isLatinLetter

/-- A run of digits. -/
def isNumeral (digits : List Char) : Bool :=
  !digits.isEmpty && digits.all Text.isDecimalDigit

/-- Splits nuclide notation into the digits of the mass number and the letters of the symbol. -/
def splitNotation? (text : List Char) : Option (List Char × List Char) :=
  let trimmed := Text.trim text
  let digits := trimmed.takeWhile Text.isDecimalDigit
  if digits.isEmpty then
    let letters := trimmed.takeWhile Text.isLatinLetter
    let number := dropHyphen (trimmed.drop letters.length)
    if isSymbol letters && isNumeral number then some (number, letters) else none
  else
    let letters := dropHyphen (trimmed.drop digits.length)
    if isSymbol letters then some (digits, letters) else none

/-- A symbol with its first letter, and only that, in upper case. -/
def capitalize : List Char → String
  | [] => ""
  | c :: rest => String.ofList (c.toUpper :: rest.map Char.toLower)

/-- The atomic number and the mass number that nuclide notation names. -/
def ofNotation (table : ElementTable) (text : String) : Outcome (Nat × Nat) :=
  match splitNotation? text.toList with
  | none => .error (.of (.unknownSymbol .nuclide (Text.trimString text)))
  | some (digits, letters) =>
    if Text.numeralDigits < digits.length then .error .longNumeral
    else do
      let element ← table.element (capitalize letters)
      return (element.number, (Text.digitsValue? digits).getD 0)

end Nuclide

/-- Nuclides with the elements that name them. -/
structure NuclideTable where
  nuclides : List Nuclide
  elements : ElementTable

namespace NuclideTable

/-- The nuclide with an atomic number and a mass number, the last one of several. -/
def find? (table : NuclideTable) (z a : Int) : Option Nuclide :=
  table.nuclides.reverse.find? fun n => n.protons = z ∧ n.massNumber = a

/-- How a nuclide that is not in the table is named. -/
def missingLabel (table : NuclideTable) (z a : Int) : String :=
  match table.elements.ofNumber? z with
  | some element => intText a ++ element.symbol
  | none => "Z=" ++ intText z ++ ", A=" ++ intText a

/-- The nuclide with an atomic number and a mass number, or a fault that names it. -/
def nuclide (table : NuclideTable) (z a : Int) : Outcome Nuclide :=
  match table.find? z a with
  | some n => .ok n
  | none => .error (.of (.unknownSymbol .nuclide (table.missingLabel z a)))

/-- The atomic mass unit in kilograms. -/
def dalton : Decimal := .finite false 166053906660 (-38)

/-- A kilo electron volt in joules. -/
def kiloElectronVolt : Decimal := .finite false 1602176634 (-25)

/-- One millionth. -/
def millionth : Decimal := .finite false 1 (-6)

/-- A field of a nuclide of mass number `a` in SI units. -/
def field (n : Nuclide) (a : Int) : NuclideField → Outcome Quantity
  | .mass => do
    let units ← ofSignal (working.multiply n.mass millionth)
    return .of (← ofSignal (working.multiply units dalton)) ⟨0, 0, 1, 0, 0, 0, 0⟩
  | .bindingEnergy => do
    let total ← ofSignal (working.multiply n.bindingEnergy (.ofInt a))
    return .of (← ofSignal (working.multiply total kiloElectronVolt)) ⟨-2, 2, 1, 0, 0, 0, 0⟩
  | .halfLife =>
    match n.halfLife with
    | some seconds => .ok (.of seconds ⟨1, 0, 0, 0, 0, 0, 0⟩)
    | none => .error (.of (.stableNuclide n.label))

/-- Looks up a field by atomic number and mass number. -/
def lookup (table : NuclideTable) (z a : Int) (name : String) : Outcome Quantity := do
  let n ← table.nuclide z a
  field n a (← NuclideField.ofName name)

/-- Looks up a field by nuclide notation. The notation is judged before the field, and the field
before the nuclide. -/
def lookupText (table : NuclideTable) (text name : String) : Outcome Quantity := do
  let (z, a) ← Nuclide.ofNotation table.elements text
  let _ ← NuclideField.ofName name
  table.lookup z a name

end NuclideTable

end UnitCalculator.Reference
