import UnitCalculator.Reference.Constant

/-!
# Physical constants

Recommended values of the physical constants in SI units, and the two mathematical ones.
-/

namespace UnitCalculator.Reference

/-- The constants in the order in which they are listed. -/
def physicalConstants : List Constant :=
  [⟨"pi", "pi",
      .finite false 31415926535897932384626433832795028841971693993751058209749445923078164062862089986280348253421170679 (-100),
      ⟨0, 0, 0, 0, 0, 0, 0⟩⟩,
    ⟨"e", "Euler's number",
      .finite false 27182818284590452353602874713526624977572470936999595749669676277240766303535475945713821785251664274 (-100),
      ⟨0, 0, 0, 0, 0, 0, 0⟩⟩,
    ⟨"c", "speed of light in vacuum",
      .finite false 299792458 0,
      ⟨-1, 1, 0, 0, 0, 0, 0⟩⟩,
    ⟨"h", "Planck constant",
      .finite false 662607015 (-42),
      ⟨-1, 2, 1, 0, 0, 0, 0⟩⟩,
    ⟨"h-", "reduced Planck constant",
      .finite false 1054571817 (-43),
      ⟨-1, 2, 1, 0, 0, 0, 0⟩⟩,
    ⟨"e0", "vacuum electric permittivity",
      .finite false 88541878128 (-22),
      ⟨4, -3, -1, 2, 0, 0, 0⟩⟩,
    ⟨"u0", "vacuum magnetic permeability",
      .finite false 125663706212 (-17),
      ⟨-2, 1, 1, -2, 0, 0, 0⟩⟩,
    ⟨"kb", "Boltzmann constant",
      .finite false 1380649 (-29),
      ⟨-2, 2, 1, 0, -1, 0, 0⟩⟩,
    ⟨"G", "Newtonian constant of gravitation",
      .finite false 667430 (-16),
      ⟨-2, 3, -1, 0, 0, 0, 0⟩⟩,
    ⟨"g0", "standard acceleration of gravity",
      .finite false 980665 (-5),
      ⟨-2, 1, 0, 0, 0, 0, 0⟩⟩,
    ⟨"ke", "Coulomb constant",
      .finite false 89875517923 (-1),
      ⟨-4, 3, 1, -2, 0, 0, 0⟩⟩,
    ⟨"sigma", "Stefan-Boltzmann constant",
      .finite false 5670374419 (-17),
      ⟨-3, 0, 1, 0, -4, 0, 0⟩⟩,
    ⟨"qe", "elementary charge",
      .finite false 1602176634 (-28),
      ⟨1, 0, 0, 1, 0, 0, 0⟩⟩,
    ⟨"alpha", "fine-structure constant",
      .finite false 72973525693 (-13),
      ⟨0, 0, 0, 0, 0, 0, 0⟩⟩,
    ⟨"uB", "Bohr magneton",
      .finite false 92740100783 (-34),
      ⟨0, 2, 0, 1, 0, 0, 0⟩⟩,
    ⟨"uN", "nuclear magneton",
      .finite false 50507837461 (-37),
      ⟨0, 2, 0, 1, 0, 0, 0⟩⟩,
    ⟨"a0", "Bohr radius",
      .finite false 529177210903 (-22),
      ⟨0, 1, 0, 0, 0, 0, 0⟩⟩,
    ⟨"R", "Rydberg constant",
      .finite false 10973731568160 (-6),
      ⟨0, -1, 0, 0, 0, 0, 0⟩⟩,
    ⟨"NA", "Avogadro constant",
      .finite false 602214076 15,
      ⟨0, 0, 0, 0, 0, -1, 0⟩⟩,
    ⟨"Rg", "molar gas constant",
      .finite false 8314462618 (-9),
      ⟨-2, 2, 1, 0, -1, -1, 0⟩⟩,
    ⟨"Fa", "Faraday constant",
      .finite false 9648533212 (-5),
      ⟨1, 0, 0, 1, 0, -1, 0⟩⟩,
    ⟨"mp", "proton mass",
      .finite false 167262192369 (-38),
      ⟨0, 0, 1, 0, 0, 0, 0⟩⟩,
    ⟨"me", "electron mass",
      .finite false 91093837015 (-41),
      ⟨0, 0, 1, 0, 0, 0, 0⟩⟩,
    ⟨"mn", "neutron mass",
      .finite false 167492749804 (-38),
      ⟨0, 0, 1, 0, 0, 0, 0⟩⟩]

end UnitCalculator.Reference
