/-!
# Unit prefixes

A prefix in front of a unit symbol multiplies the unit by a power of ten.
-/

namespace UnitCalculator.Units

/-- The prefixes with their powers of ten, from the smallest to the largest. -/
def prefixes : List (String × Int) :=
  [("q", -30), ("r", -27), ("y", -24), ("z", -21), ("a", -18), ("f", -15), ("p", -12), ("n", -9),
    ("u", -6), ("μ", -6), ("m", -3), ("c", -2), ("d", -1), ("da", 1), ("h", 2), ("k", 3),
    ("M", 6), ("G", 9), ("T", 12), ("P", 15), ("E", 18), ("Z", 21), ("Y", 24), ("R", 27),
    ("Q", 30)]

/-- The power of ten of a prefix. -/
def prefixPower? (symbol : String) : Option Int := prefixes.lookup symbol

end UnitCalculator.Units
