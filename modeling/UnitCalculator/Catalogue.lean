import UnitCalculator.Reference.Formula
import UnitCalculator.Reference.GroundStates
import UnitCalculator.Reference.PeriodicTable
import UnitCalculator.Reference.PhysicalConstants

/-!
# Catalogues of reference data

Expressions look up constants, molar masses and nuclide data in a catalogue, by a call with the
name of the lookup and the text between its brackets.
-/

namespace UnitCalculator

open Reference

/-- The reference tables that expressions refer to. -/
structure Catalogue where
  constants : List Constant
  elements : ElementTable
  nuclides : NuclideTable

namespace Catalogue

/-- The tables that come with the library. -/
def standard : Catalogue :=
  ⟨physicalConstants, ⟨periodicTable⟩, ⟨groundStates, ⟨periodicTable⟩⟩⟩

/-- Names of the lookups. -/
def lookupNames : List String := ["MMass", "con", "BE", "HL", "M"]

/-- The quantity that a lookup finds. -/
def lookup (catalogue : Catalogue) (name argument : String) : Outcome Quantity := do
  let argument := Text.trimString argument
  if name = "con" then constant catalogue.constants argument
  else if name = "MMass" then
    (← Formula.ofText catalogue.elements argument).molarMass catalogue.elements
  else if name = "M" then catalogue.nuclides.lookupText argument "mass"
  else if name = "BE" then catalogue.nuclides.lookupText argument "binding_energy"
  else if name = "HL" then catalogue.nuclides.lookupText argument "half_life"
  else throw (.unknownLookup name)

end Catalogue

end UnitCalculator
