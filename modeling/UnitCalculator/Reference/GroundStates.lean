import UnitCalculator.Reference.Nuclide

/-!
# Ground states of nuclides

Atomic masses in millionths of the atomic mass unit, binding energies per nucleon in kilo electron
volts and half-lives in seconds.
-/

namespace UnitCalculator.Reference

/-- Ground states of nuclides by proton and neutron number. -/
def groundStates : List Nuclide :=
  [⟨1, 0, "H", .finite false 100782503190 (-5), .finite false 0 0, none⟩,
    ⟨1, 1, "H", .finite false 201410177784 (-5), .finite false 11122831 (-4), none⟩,
    ⟨1, 2, "H", .finite false 301604928132 (-5), .finite false 28272654 (-4),
      some (.finite false 38879 4)⟩,
    ⟨2, 1, "He", .finite false 301602932197 (-5), .finite false 25726804 (-4), none⟩,
    ⟨2, 2, "He", .finite false 400260325413 (-5), .finite false 70739156 (-4), none⟩,
    ⟨3, 3, "Li", .finite false 60151228874 (-4), .finite false 53323312 (-4), none⟩,
    ⟨3, 4, "Li", .finite false 70160034366 (-4), .finite false 56064401 (-4), none⟩,
    ⟨4, 5, "Be", .finite false 9012183062 (-3), .finite false 64626693 (-4), none⟩,
    ⟨5, 5, "B", .finite false 10012936862 (-3), .finite false 64750835 (-4), none⟩,
    ⟨5, 6, "B", .finite false 11009305166 (-3), .finite false 69277320 (-4), none⟩,
    ⟨6, 6, "C", .finite false 120000000 (-1), .finite false 76801446 (-4), none⟩,
    ⟨6, 7, "C", .finite false 1300335483534 (-5), .finite false 74698495 (-4), none⟩,
    ⟨6, 8, "C", .finite false 1400324198840 (-5), .finite false 75203198 (-4),
      some (.finite false 17987 7)⟩,
    ⟨7, 7, "N", .finite false 1400307400425 (-5), .finite false 74756148 (-4), none⟩,
    ⟨7, 8, "N", .finite false 1500010889827 (-5), .finite false 76994603 (-4), none⟩,
    ⟨8, 8, "O", .finite false 1599491461926 (-5), .finite false 79762072 (-4), none⟩,
    ⟨8, 9, "O", .finite false 1699913175595 (-5), .finite false 77507291 (-4), none⟩,
    ⟨8, 10, "O", .finite false 1799915961214 (-5), .finite false 77670981 (-4), none⟩,
    ⟨9, 10, "F", .finite false 1899840316207 (-5), .finite false 77790192 (-4), none⟩,
    ⟨10, 10, "Ne", .finite false 1999244017525 (-5), .finite false 80322412 (-4), none⟩,
    ⟨11, 12, "Na", .finite false 2298976928195 (-5), .finite false 81114936 (-4), none⟩,
    ⟨12, 12, "Mg", .finite false 239850416990 (-4), .finite false 82607103 (-4), none⟩,
    ⟨13, 14, "Al", .finite false 26981538408 (-3), .finite false 83315533 (-4), none⟩,
    ⟨14, 14, "Si", .finite false 2797692653442 (-5), .finite false 84477445 (-4), none⟩,
    ⟨15, 16, "P", .finite false 3097376199768 (-5), .finite false 84811677 (-4), none⟩,
    ⟨16, 16, "S", .finite false 3197207117354 (-5), .finite false 84931301 (-4), none⟩,
    ⟨17, 18, "Cl", .finite false 349688526946 (-4), .finite false 85202788 (-4), none⟩,
    ⟨18, 22, "Ar", .finite false 399623831220 (-4), .finite false 85952594 (-4), none⟩,
    ⟨19, 20, "K", .finite false 389637064864 (-4), .finite false 85570255 (-4), none⟩,
    ⟨19, 21, "K", .finite false 39963998166 (-3), .finite false 85380907 (-4),
      some (.finite false 39383 12)⟩,
    ⟨20, 20, "Ca", .finite false 39962590850 (-3), .finite false 85513046 (-4), none⟩,
    ⟨26, 30, "Fe", .finite false 5593493633 (-2), .finite false 87903563 (-4), none⟩,
    ⟨27, 32, "Co", .finite false 5893319443 (-2), .finite false 87680378 (-4), none⟩,
    ⟨27, 33, "Co", .finite false 5993381567 (-2), .finite false 87467676 (-4),
      some (.finite false 16635 4)⟩,
    ⟨28, 30, "Ni", .finite false 5793534241 (-2), .finite false 87320621 (-4), none⟩,
    ⟨28, 34, "Ni", .finite false 6192834542 (-2), .finite false 87945534 (-4), none⟩,
    ⟨29, 34, "Cu", .finite false 6292959772 (-2), .finite false 87521382 (-4), none⟩,
    ⟨30, 34, "Zn", .finite false 6392914201 (-2), .finite false 87359057 (-4), none⟩,
    ⟨38, 52, "Sr", .finite false 899077300 (-1), .finite false 869590 (-2),
      some (.finite false 91233 4)⟩,
    ⟨53, 78, "I", .finite false 1309061263 (-1), .finite false 842230 (-2),
      some (.finite false 69338 1)⟩,
    ⟨55, 82, "Cs", .finite false 1369070893 (-1), .finite false 8388956 (-3),
      some (.finite false 94925 4)⟩,
    ⟨82, 126, "Pb", .finite false 2079766525 (-1), .finite false 7867453 (-3), none⟩,
    ⟨84, 126, "Po", .finite false 2099828741 (-1), .finite false 7834346 (-3),
      some (.finite false 11956 3)⟩,
    ⟨86, 136, "Rn", .finite false 2220175763 (-1), .finite false 7694496 (-3),
      some (.finite false 33035 1)⟩,
    ⟨88, 138, "Ra", .finite false 2260254098 (-1), .finite false 766196 (-2),
      some (.finite false 50492 6)⟩,
    ⟨90, 142, "Th", .finite false 2320380558 (-1), .finite false 7615033 (-3),
      some (.finite false 4418 14)⟩,
    ⟨92, 143, "U", .finite false 2350439281 (-1), .finite false 7590907 (-3),
      some (.finite false 22217 12)⟩,
    ⟨92, 146, "U", .finite false 2380507870 (-1), .finite false 7570125 (-3),
      some (.finite false 14100 13)⟩,
    ⟨94, 145, "Pu", .finite false 2390521636 (-1), .finite false 7560317 (-3),
      some (.finite false 76085 7)⟩]

end UnitCalculator.Reference
