import UnitCalculator.Reference.Element

/-!
# The periodic table

Symbols, names and standard molar masses in grams per mole of all named elements.
-/

namespace UnitCalculator.Reference

/-- The named elements by atomic number. -/
def periodicTable : List Element :=
  [⟨1, "H", "Hydrogen", .finite false 1008 (-3)⟩,
    ⟨2, "He", "Helium", .finite false 4002602 (-6)⟩,
    ⟨3, "Li", "Lithium", .finite false 694 (-2)⟩,
    ⟨4, "Be", "Beryllium", .finite false 90121831 (-7)⟩,
    ⟨5, "B", "Boron", .finite false 1081 (-2)⟩,
    ⟨6, "C", "Carbon", .finite false 12011 (-3)⟩,
    ⟨7, "N", "Nitrogen", .finite false 14007 (-3)⟩,
    ⟨8, "O", "Oxygen", .finite false 15999 (-3)⟩,
    ⟨9, "F", "Fluorine", .finite false 18998403163 (-9)⟩,
    ⟨10, "Ne", "Neon", .finite false 201797 (-4)⟩,
    ⟨11, "Na", "Sodium", .finite false 2298976928 (-8)⟩,
    ⟨12, "Mg", "Magnesium", .finite false 24305 (-3)⟩,
    ⟨13, "Al", "Aluminium", .finite false 269815385 (-7)⟩,
    ⟨14, "Si", "Silicon", .finite false 28085 (-3)⟩,
    ⟨15, "P", "Phosphorus", .finite false 30973761998 (-9)⟩,
    ⟨16, "S", "Sulfur", .finite false 3206 (-2)⟩,
    ⟨17, "Cl", "Chlorine", .finite false 3545 (-2)⟩,
    ⟨18, "Ar", "Argon", .finite false 39948 (-3)⟩,
    ⟨19, "K", "Potassium", .finite false 390983 (-4)⟩,
    ⟨20, "Ca", "Calcium", .finite false 40078 (-3)⟩,
    ⟨21, "Sc", "Scandium", .finite false 44955908 (-6)⟩,
    ⟨22, "Ti", "Titanium", .finite false 47867 (-3)⟩,
    ⟨23, "V", "Vanadium", .finite false 509415 (-4)⟩,
    ⟨24, "Cr", "Chromium", .finite false 519961 (-4)⟩,
    ⟨25, "Mn", "Manganese", .finite false 54938044 (-6)⟩,
    ⟨26, "Fe", "Iron", .finite false 55845 (-3)⟩,
    ⟨27, "Co", "Cobalt", .finite false 58933194 (-6)⟩,
    ⟨28, "Ni", "Nickel", .finite false 586934 (-4)⟩,
    ⟨29, "Cu", "Copper", .finite false 63546 (-3)⟩,
    ⟨30, "Zn", "Zinc", .finite false 6538 (-2)⟩,
    ⟨31, "Ga", "Gallium", .finite false 69723 (-3)⟩,
    ⟨32, "Ge", "Germanium", .finite false 72630 (-3)⟩,
    ⟨33, "As", "Arsenic", .finite false 74921595 (-6)⟩,
    ⟨34, "Se", "Selenium", .finite false 78971 (-3)⟩,
    ⟨35, "Br", "Bromine", .finite false 79904 (-3)⟩,
    ⟨36, "Kr", "Krypton", .finite false 83798 (-3)⟩,
    ⟨37, "Rb", "Rubidium", .finite false 854678 (-4)⟩,
    ⟨38, "Sr", "Strontium", .finite false 8762 (-2)⟩,
    ⟨39, "Y", "Yttrium", .finite false 8890584 (-5)⟩,
    ⟨40, "Zr", "Zirconium", .finite false 91224 (-3)⟩,
    ⟨41, "Nb", "Niobium", .finite false 9290637 (-5)⟩,
    ⟨42, "Mo", "Molybdenum", .finite false 9595 (-2)⟩,
    ⟨43, "Tc", "Technetium", .finite false 98 0⟩,
    ⟨44, "Ru", "Ruthenium", .finite false 10107 (-2)⟩,
    ⟨45, "Rh", "Rhodium", .finite false 10290550 (-5)⟩,
    ⟨46, "Pd", "Palladium", .finite false 10642 (-2)⟩,
    ⟨47, "Ag", "Silver", .finite false 1078682 (-4)⟩,
    ⟨48, "Cd", "Cadmium", .finite false 112414 (-3)⟩,
    ⟨49, "In", "Indium", .finite false 114818 (-3)⟩,
    ⟨50, "Sn", "Tin", .finite false 118710 (-3)⟩,
    ⟨51, "Sb", "Antimony", .finite false 121760 (-3)⟩,
    ⟨52, "Te", "Tellurium", .finite false 12760 (-2)⟩,
    ⟨53, "I", "Iodine", .finite false 12690447 (-5)⟩,
    ⟨54, "Xe", "Xenon", .finite false 131293 (-3)⟩,
    ⟨55, "Cs", "Caesium", .finite false 13290545196 (-8)⟩,
    ⟨56, "Ba", "Barium", .finite false 137327 (-3)⟩,
    ⟨57, "La", "Lanthanum", .finite false 13890547 (-5)⟩,
    ⟨58, "Ce", "Cerium", .finite false 140116 (-3)⟩,
    ⟨59, "Pr", "Praseodymium", .finite false 14090766 (-5)⟩,
    ⟨60, "Nd", "Neodymium", .finite false 144242 (-3)⟩,
    ⟨61, "Pm", "Promethium", .finite false 145 0⟩,
    ⟨62, "Sm", "Samarium", .finite false 15036 (-2)⟩,
    ⟨63, "Eu", "Europium", .finite false 151964 (-3)⟩,
    ⟨64, "Gd", "Gadolinium", .finite false 15725 (-2)⟩,
    ⟨65, "Tb", "Terbium", .finite false 15892535 (-5)⟩,
    ⟨66, "Dy", "Dysprosium", .finite false 162500 (-3)⟩,
    ⟨67, "Ho", "Holmium", .finite false 16493033 (-5)⟩,
    ⟨68, "Er", "Erbium", .finite false 167259 (-3)⟩,
    ⟨69, "Tm", "Thulium", .finite false 16893422 (-5)⟩,
    ⟨70, "Yb", "Ytterbium", .finite false 173045 (-3)⟩,
    ⟨71, "Lu", "Lutetium", .finite false 1749668 (-4)⟩,
    ⟨72, "Hf", "Hafnium", .finite false 17849 (-2)⟩,
    ⟨73, "Ta", "Tantalum", .finite false 18094788 (-5)⟩,
    ⟨74, "W", "Tungsten", .finite false 18384 (-2)⟩,
    ⟨75, "Re", "Rhenium", .finite false 186207 (-3)⟩,
    ⟨76, "Os", "Osmium", .finite false 19023 (-2)⟩,
    ⟨77, "Ir", "Iridium", .finite false 192217 (-3)⟩,
    ⟨78, "Pt", "Platinum", .finite false 195084 (-3)⟩,
    ⟨79, "Au", "Gold", .finite false 196966569 (-6)⟩,
    ⟨80, "Hg", "Mercury", .finite false 200592 (-3)⟩,
    ⟨81, "Tl", "Thallium", .finite false 20438 (-2)⟩,
    ⟨82, "Pb", "Lead", .finite false 2072 (-1)⟩,
    ⟨83, "Bi", "Bismuth", .finite false 20898040 (-5)⟩,
    ⟨84, "Po", "Polonium", .finite false 209 0⟩,
    ⟨85, "At", "Astatine", .finite false 210 0⟩,
    ⟨86, "Rn", "Radon", .finite false 222 0⟩,
    ⟨87, "Fr", "Francium", .finite false 223 0⟩,
    ⟨88, "Ra", "Radium", .finite false 226 0⟩,
    ⟨89, "Ac", "Actinium", .finite false 227 0⟩,
    ⟨90, "Th", "Thorium", .finite false 2320377 (-4)⟩,
    ⟨91, "Pa", "Protactinium", .finite false 23103588 (-5)⟩,
    ⟨92, "U", "Uranium", .finite false 23802891 (-5)⟩,
    ⟨93, "Np", "Neptunium", .finite false 237 0⟩,
    ⟨94, "Pu", "Plutonium", .finite false 244 0⟩,
    ⟨95, "Am", "Americium", .finite false 243 0⟩,
    ⟨96, "Cm", "Curium", .finite false 247 0⟩,
    ⟨97, "Bk", "Berkelium", .finite false 247 0⟩,
    ⟨98, "Cf", "Californium", .finite false 251 0⟩,
    ⟨99, "Es", "Einsteinium", .finite false 252 0⟩,
    ⟨100, "Fm", "Fermium", .finite false 257 0⟩,
    ⟨101, "Md", "Mendelevium", .finite false 258 0⟩,
    ⟨102, "No", "Nobelium", .finite false 259 0⟩,
    ⟨103, "Lr", "Lawrencium", .finite false 266 0⟩,
    ⟨104, "Rf", "Rutherfordium", .finite false 267 0⟩,
    ⟨105, "Db", "Dubnium", .finite false 268 0⟩,
    ⟨106, "Sg", "Seaborgium", .finite false 269 0⟩,
    ⟨107, "Bh", "Bohrium", .finite false 270 0⟩,
    ⟨108, "Hs", "Hassium", .finite false 277 0⟩,
    ⟨109, "Mt", "Meitnerium", .finite false 278 0⟩,
    ⟨110, "Ds", "Darmstadtium", .finite false 281 0⟩,
    ⟨111, "Rg", "Roentgenium", .finite false 282 0⟩,
    ⟨112, "Cn", "Copernicium", .finite false 285 0⟩,
    ⟨113, "Nh", "Nihonium", .finite false 286 0⟩,
    ⟨114, "Fl", "Flerovium", .finite false 289 0⟩,
    ⟨115, "Mc", "Moscovium", .finite false 290 0⟩,
    ⟨116, "Lv", "Livermorium", .finite false 293 0⟩,
    ⟨117, "Ts", "Tennessine", .finite false 294 0⟩,
    ⟨118, "Og", "Oganesson", .finite false 294 0⟩]

end UnitCalculator.Reference
