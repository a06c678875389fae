import Mathlib.Order.Lattice.Nat
import UnitCalculator.Decimal.Display
import UnitCalculator.Proofs.Failure

/-!
# Numbers that can be shown

A finite number can be shown in significant figures unless its leading digit, after rounding, lies
above the largest exponent, or the last figure so far below the smallest one that its unit cannot be
formed. An infinity cannot be shown, nor can a signaling NaN.
-/

namespace UnitCalculator

/-- Powers of ten are positive. -/
theorem pow10_pos (k : Nat) : 0 < pow10 k := Nat.pow_pos (by decide)

/-- Powers of ten are not zero. -/
theorem pow10_ne_zero (k : Nat) : pow10 k ≠ 0 := Nat.ne_of_gt (pow10_pos k)

/-- The next power of ten. -/
theorem pow10_succ (k : Nat) : pow10 (k + 1) = 10 * pow10 k := by
  rw [pow10, Nat.pow_eq, Nat.pow_succ, Nat.mul_comm]
  rfl

/-- The power of ten of a sum. -/
theorem pow10_add (j k : Nat) : pow10 (j + k) = pow10 j * pow10 k := Nat.pow_add 10 j k

/-- Powers of ten are ordered as their exponents. -/
theorem pow10_le_pow10 {j k : Nat} (h : j ≤ k) : pow10 j ≤ pow10 k :=
  Nat.pow_le_pow_right (by decide) h

/-- A number has at most `k` digits if it is less than the power of ten. -/
theorem digitCount_le_iff {n k : Nat} (hk : 0 < k) : digitCount n ≤ k ↔ n < pow10 k :=
  Nat.length_toDigits_le_iff (by decide) hk

/-- Every number has a digit. -/
theorem digitCount_pos (n : Nat) : 0 < digitCount n := Nat.length_toDigits_pos

/-- A number is less than the power of ten with as many zeros as it has digits. -/
theorem lt_pow10_digitCount (n : Nat) : n < pow10 (digitCount n) :=
  (digitCount_le_iff (digitCount_pos n)).mp le_rfl

/-- A number that reaches a power of ten has more digits than that has zeros. -/
theorem lt_digitCount {n k : Nat} (h : pow10 k ≤ n) : k < digitCount n := by
  rcases Nat.eq_zero_or_pos k with rfl | hk
  · exact digitCount_pos n
  · rw [← Nat.not_le, digitCount_le_iff hk]
    exact Nat.not_lt.mpr h

/-- A positive number reaches the power of ten with as many digits. -/
theorem pow10_le_of_lt_digitCount {n k : Nat} (hn : n ≠ 0) (h : k < digitCount n) :
    pow10 k ≤ n := by
  rcases Nat.eq_zero_or_pos k with rfl | hk
  · exact Nat.pos_of_ne_zero hn
  · rw [← Nat.not_lt, ← digitCount_le_iff hk]
    exact Nat.not_le.mpr h

/-- A number between two powers of ten has as many digits as the larger one has zeros. -/
theorem digitCount_eq {n k : Nat} (hl : pow10 k ≤ n) (hu : n < pow10 (k + 1)) :
    digitCount n = k + 1 := by
  have hmore := lt_digitCount hl
  have hless := (digitCount_le_iff (Nat.succ_pos k)).mpr hu
  omega

/-- A power of ten has one digit more than it has zeros. -/
theorem digitCount_pow10 (k : Nat) : digitCount (pow10 k) = k + 1 := by
  have hpos := pow10_pos k
  exact digitCount_eq le_rfl (by rw [pow10_succ]; omega)

/-- Rounding halves up adds half a unit. -/
theorem divideRounded_away {n d : Nat} (hd : 0 < d) :
    divideRounded .awayFromZero n d = (2 * n + d) / (2 * d) := by
  have hrest := Nat.mod_lt n hd
  have hdouble : 0 < 2 * d := by omega
  have hsum : 2 * n + d = 2 * (n % d) + d + 2 * d * (n / d) := by
    have hsplit := congrArg (2 * ·) (Nat.div_add_mod n d)
    rw [Nat.mul_assoc]
    omega
  rw [hsum, Nat.add_mul_div_left _ _ hdouble]
  simp only [divideRounded]
  by_cases hless : 2 * (n % d) < d
  · have hzero : (2 * (n % d) + d) / (2 * d) = 0 := Nat.div_eq_of_lt (by omega)
    rw [if_pos hless, hzero, Nat.zero_add]
  · have hone : (2 * (n % d) + d) / (2 * d) = 1 :=
      Nat.div_eq_of_lt_le (by omega) (by omega)
    rw [if_neg hless, ite_self, hone, Nat.add_comm]

section

variable {c places kept : Nat}

/-- Dropping places that a number has rounds a quotient. -/
theorem dropDigits_away (h : places ≤ digitCount c) :
    dropDigits .awayFromZero c places = (2 * c + pow10 places) / (2 * pow10 places) := by
  rw [dropDigits, if_neg (Nat.not_lt.mpr h), divideRounded_away (pow10_pos places)]

/-- What is kept of a number reaches a power of ten only if it is rounded up to it. -/
theorem dropDigits_le (h : digitCount c ≤ kept + places) :
    dropDigits .awayFromZero c places ≤ pow10 kept := by
  rcases Nat.lt_or_ge (digitCount c) places with hfew | hmany
  · rw [dropDigits, if_pos hfew]
    exact Nat.zero_le _
  · have hless := lt_pow10_digitCount c
    have hmore := pow10_le_pow10 h
    have hpos := pow10_pos places
    rw [dropDigits_away hmany, ← Nat.lt_succ_iff, Nat.succ_eq_add_one,
      Nat.div_lt_iff_lt_mul (by omega), Nat.add_mul, Nat.mul_left_comm, ← pow10_add]
    omega

/-- What is kept of a number reaches a power of ten. -/
theorem le_dropDigits_iff (h : digitCount c = kept + places) :
    pow10 kept ≤ dropDigits .awayFromZero c places ↔
      2 * pow10 (digitCount c) ≤ 2 * c + pow10 places := by
  have hpos := pow10_pos places
  rw [dropDigits_away (by omega), Nat.le_div_iff_mul_le (by omega), Nat.mul_left_comm,
    ← pow10_add, h]

end

namespace Decimal

/-- The leading digit stands as many places before the last one as there are digits, less one. -/
theorem adjusted_finite (s : Bool) (c : Nat) (e : Int) :
    adjusted (.finite s c e) = e + digitCount c - 1 := rfl

/-- A finite number is zero if its coefficient is. -/
theorem isZero_finite_eq_false_iff {s : Bool} {c : Nat} {e : Int} :
    isZero (.finite s c e) = false ↔ c ≠ 0 := beq_eq_false_iff_ne

/-- Rounding to significant figures carries into a new leading digit. -/
def Carries (coefficient figures : Nat) : Prop :=
  2 * pow10 (digitCount coefficient) ≤ 2 * coefficient + pow10 (digitCount coefficient - figures)

/-- The least power of ten of which a unit can be formed. -/
def leastUnit : Int := -2 * (unitFormat.top + unitFormat.digits)

/-- The bounds of the working format. -/
theorem working_bounds :
    working.digits = 100 ∧ working.top = 999999 ∧ working.tiny = -1000098 := ⟨rfl, rfl, rfl⟩

/-- The bounds of the units of last figures. -/
theorem unit_bounds :
    leastUnit = -2000054 ∧ unitFormat.top = 999999 ∧ unitFormat.tiny = -1000026 := ⟨rfl, rfl, rfl⟩

/-- A number can be shown in significant figures: it is zero or a quiet NaN, or it is finite and
neither the unit of its last figure is too small nor its leading digit, after a carry, too large. -/
def IsShown (figures : Nat) : Decimal → Prop
  | .finite s c e =>
    let leading := adjusted (.finite s c e)
    c = 0 ∨ leastUnit ≤ leading - figures + 1 ∧
      (leading < working.top ∨ leading = working.top ∧ ¬ Carries c figures)
  | .infinity _ => False
  | .nan _ signaling _ => signaling = false

/-- The multiple of a power of ten that a finite number is rounded to, halves away from zero. -/
def multiple (coefficient : Nat) (exponent unit : Int) : Nat :=
  if unit ≤ exponent then coefficient * pow10 (exponent - unit).toNat
  else dropDigits .awayFromZero coefficient (unit - exponent).toNat

section

variable {s : Bool} {c figures : Nat} {e x : Int}

/-- Rounding to so many figures goes up at most to the next power of ten. -/
theorem multiple_le (h : digitCount c + (e - x) ≤ figures) : multiple c e x ≤ pow10 figures := by
  rw [multiple]
  by_cases hle : x ≤ e
  · rw [if_pos hle]
    have hless := Nat.mul_le_mul_right (pow10 (e - x).toNat) (lt_pow10_digitCount c).le
    rw [← pow10_add] at hless
    exact hless.trans (pow10_le_pow10 (by omega))
  · rw [if_neg hle]
    exact dropDigits_le (by omega)

/-- A number of no more digits than figures does not carry. -/
theorem not_carries (h : digitCount c ≤ figures) : ¬ Carries c figures := by
  have hless := lt_pow10_digitCount c
  have hone : pow10 (digitCount c - figures) = 1 := by
    rw [Nat.sub_eq_zero_of_le h]
    rfl
  rw [Carries, hone]
  omega

/-- Nor does a power of ten. -/
theorem not_carries_pow10 (hf : 0 < figures) : ¬ Carries (pow10 figures) figures := by
  have hdigits := digitCount_pow10 figures
  have hten : pow10 1 ≤ pow10 figures := pow10_le_pow10 hf
  have hpos := pow10_pos figures
  rw [Carries, hdigits, pow10_succ, Nat.add_sub_cancel_left]
  omega

/-- Rounding to so many figures goes up to the next power of ten exactly if it carries. -/
theorem le_multiple_iff (h : digitCount c + (e - x) = figures) :
    pow10 figures ≤ multiple c e x ↔ Carries c figures := by
  rw [multiple]
  by_cases hle : x ≤ e
  · have hless := Nat.mul_lt_mul_of_pos_right (lt_pow10_digitCount c) (pow10_pos (e - x).toNat)
    have hfigures : digitCount c + (e - x).toNat = figures := by omega
    rw [← pow10_add, hfigures] at hless
    rw [if_pos hle]
    exact iff_of_false (Nat.not_le.mpr hless) (not_carries (by omega))
  · have hfigures : digitCount c = figures + (x - e).toNat := by omega
    have hplaces : digitCount c - figures = (x - e).toNat := by omega
    rw [if_neg hle, le_dropDigits_iff hfigures, Carries, hplaces]

/-- Rounding a positive number to so many figures leaves at least the power of ten of as many
digits. -/
theorem pow10_le_multiple (hc : c ≠ 0) (h : digitCount c + (e - x) = figures + 1) :
    pow10 figures ≤ multiple c e x := by
  rw [multiple]
  by_cases hle : x ≤ e
  · have hpos := digitCount_pos c
    have hleast := Nat.mul_le_mul_right (pow10 (e - x).toNat)
      (pow10_le_of_lt_digitCount hc (Nat.sub_lt hpos Nat.one_pos))
    have hfigures : digitCount c - 1 + (e - x).toNat = figures := by omega
    rw [← pow10_add, hfigures] at hleast
    rw [if_pos hle]
    exact hleast
  · have hleast := pow10_le_of_lt_digitCount hc
      (show figures + (x - e).toNat < digitCount c by omega)
    have hpos := pow10_pos (x - e).toNat
    rw [if_neg hle, dropDigits_away (by omega), Nat.le_div_iff_mul_le (by omega),
      Nat.mul_left_comm, ← pow10_add]
    omega

/-- The leading digit stays where it is unless rounding carries, and is one higher then. -/
theorem digitCount_multiple (hc : c ≠ 0) (hf : 0 < figures)
    (h : digitCount c + (e - x) = figures) :
    digitCount (multiple c e x) = figures ∧ ¬ Carries c figures ∨
      digitCount (multiple c e x) = figures + 1 ∧ Carries c figures := by
  obtain ⟨fewer, rfl⟩ := Nat.exists_eq_succ_of_ne_zero (Nat.ne_of_gt hf)
  have hleast := pow10_le_multiple hc h
  rcases Nat.lt_or_ge (multiple c e x) (pow10 (fewer + 1)) with hless | hmore
  · refine .inl ⟨digitCount_eq hleast hless, ?_⟩
    rw [← le_multiple_iff h]
    exact Nat.not_le.mpr hless
  · have hmost := multiple_le h.le
    have hnext : pow10 (fewer + 1) < pow10 (fewer + 1 + 1) := by
      have hpos := pow10_pos (fewer + 1)
      rw [pow10_succ (fewer + 1)]
      omega
    exact .inr ⟨digitCount_eq hmore (hmost.trans_lt hnext), (le_multiple_iff h).mp hmore⟩

end

/-- A number whose digits fit is quantized unless its leading digit is too high. -/
theorem quantize_finite {s : Bool} {c figures : Nat} {e x : Int} (hc : c ≠ 0)
    (hx : working.tiny ≤ x) (h : digitCount c + (e - x) ≤ figures)
    (hf : figures < working.digits) :
    working.quantize (.finite s c e) x =
      if working.top < x + digitCount (multiple c e x) - 1 then .error .invalidOperation
      else .ok (.finite s (multiple c e x) x) := by
  have hmultiple := multiple_le h
  have hdigits : digitCount (multiple c e x) ≤ working.digits := by
    refine (digitCount_le_iff (Nat.zero_lt_of_lt hf)).mpr (hmultiple.trans_lt ?_)
    have hnext : pow10 (figures + 1) ≤ pow10 working.digits := pow10_le_pow10 hf
    have hpos := pow10_pos figures
    rw [pow10_succ] at hnext
    omega
  have hpos := digitCount_pos (multiple c e x)
  have hfits : ¬ (working.digits : Int) < digitCount c + (e - x) := by omega
  have hshort : ¬ working.digits < digitCount (multiple c e x) := Nat.not_lt.mpr hdigits
  rw [Format.quantize, if_neg hc, if_neg hfits]
  change (if working.top < x ∨ x < working.tiny then _ else
    if working.digits < digitCount (multiple c e x) ∨
      working.top < x + digitCount (multiple c e x) - 1 then _ else _) = _
  by_cases hhigh : working.top < x + digitCount (multiple c e x) - 1
  · have hlarge : working.digits < digitCount (multiple c e x) ∨
        working.top < x + digitCount (multiple c e x) - 1 := .inr hhigh
    rw [if_pos hlarge, if_pos hhigh, ite_self]
  · rw [if_neg (by omega), if_neg (by omega), if_neg hhigh]
    rfl

/-- The powers of ten of which units are formed. -/
theorem unitExponent_eq_ok_iff {exponent unit : Int} :
    unitExponent exponent = .ok unit ↔
      leastUnit ≤ exponent ∧ exponent ≤ unitFormat.top ∧ unit = max unitFormat.tiny exponent := by
  have hleast : leastUnit = -2 * (unitFormat.top + unitFormat.digits) := rfl
  have htop : (0 : Int) ≤ unitFormat.top := by decide
  rw [unitExponent]
  by_cases hfar : 2 * (unitFormat.top + unitFormat.digits) < exponent.natAbs
  · rw [if_pos hfar]
    refine iff_of_false (fun h => ?_) (by omega)
    cases h
  · rw [if_neg hfar]
    by_cases hhigh : unitFormat.top < exponent
    · rw [if_pos hhigh]
      refine iff_of_false (fun h => ?_) (by omega)
      cases h
    · rw [if_neg hhigh, Except.ok.injEq]
      omega

section

variable {s : Bool} {c figures : Nat} {e : Int}

/-- The leading digit of a positive number stays within bounds when it is rounded. -/
theorem leading_le_iff (hc : c ≠ 0) (hl : 0 < figures) (hu : figures < working.digits) {x : Int}
    (hx : x = max unitFormat.tiny (adjusted (.finite s c e) - figures + 1)) :
    x + digitCount (multiple c e x) - 1 ≤ working.top ↔
      adjusted (.finite s c e) < working.top ∨
        adjusted (.finite s c e) = working.top ∧ ¬ Carries c figures := by
  have hleading := adjusted_finite s c e
  obtain ⟨hdigits, htop, -⟩ := working_bounds
  obtain ⟨-, -, htiny⟩ := unit_bounds
  rcases Int.le_total unitFormat.tiny (adjusted (.finite s c e) - figures + 1) with hfine | hcoarse
  · have hunit : digitCount c + (e - x) = figures := by omega
    rcases digitCount_multiple hc hl hunit with ⟨hcount, hcarry⟩ | ⟨hcount, hcarry⟩
    · rw [hcount, and_iff_left hcarry]
      omega
    · rw [hcount, or_iff_left fun h => h.2 hcarry]
      omega
  · have hmultiple : multiple c e x < pow10 (figures + 1) := by
      have hless : multiple c e x ≤ pow10 figures := multiple_le (by omega)
      have hpos := pow10_pos figures
      rw [pow10_succ]
      omega
    have hcount := (digitCount_le_iff (Nat.succ_pos figures)).mpr hmultiple
    exact iff_of_true (by omega) (.inl (by omega))

/-- Rounding a positive number to significant figures. -/
theorem roundFigures_eq_ok_iff (hc : c ≠ 0) (hl : 0 < figures) (hu : figures < working.digits)
    {first : Decimal} :
    roundFigures (.finite s c e) (.finite s c e) figures = .ok first ↔
      (finite s c e).IsShown figures ∧
        ∃ x, x = max unitFormat.tiny (adjusted (.finite s c e) - figures + 1) ∧
          first = .finite s (multiple c e x) x := by
  have hleading := adjusted_finite s c e
  have htop : working.top = unitFormat.top := rfl
  have htiny : working.tiny ≤ unitFormat.tiny := by decide
  have hquantize : ∀ x, x = max unitFormat.tiny (adjusted (.finite s c e) - figures + 1) →
      working.quantize (.finite s c e) x =
        if working.top < x + digitCount (multiple c e x) - 1 then .error .invalidOperation
        else .ok (.finite s (multiple c e x) x) :=
    fun x hx => quantize_finite hc (by omega) (by omega) hu
  rw [roundFigures, bind_eq_ok_iff]
  constructor
  · rintro ⟨x, hunit, hq⟩
    obtain ⟨hleast, -, hx⟩ := unitExponent_eq_ok_iff.mp hunit
    rw [hquantize x hx] at hq
    by_cases hhigh : working.top < x + digitCount (multiple c e x) - 1
    · rw [if_pos hhigh] at hq
      cases hq
    · rw [if_neg hhigh] at hq
      have hbounded := (leading_le_iff hc hl hu hx).mp (Int.not_lt.mp hhigh)
      exact ⟨.inr ⟨hleast, hbounded⟩, x, hx, (Except.ok.inj hq).symm⟩
  · rintro ⟨hshown, x, hx, rfl⟩
    obtain ⟨hleast, hbounded⟩ := hshown.resolve_left hc
    refine ⟨x, unitExponent_eq_ok_iff.mpr ⟨hleast, by omega, hx⟩, ?_⟩
    rw [hquantize x hx, if_neg]
    exact Int.not_lt.mpr ((leading_le_iff hc hl hu hx).mpr hbounded)

/-- Zero at a unit within bounds is rounded to significant figures. -/
theorem exists_roundFigures_zero {x : Int} (hl : 0 < figures) (hu : figures < working.digits)
    (hx : unitFormat.tiny ≤ x) (hbounded : x ≤ working.top) :
    ∃ second, roundFigures (.finite s 0 x) (.finite s 0 x) figures = .ok second := by
  have hleading : adjusted (.finite s 0 x) = x := by
    have hone : digitCount 0 = 1 := rfl
    rw [adjusted, hone]
    omega
  obtain ⟨hdigits, htop, htiny⟩ := working_bounds
  obtain ⟨hleast, hhighest, hfirst⟩ := unit_bounds
  have hunit := unitExponent_eq_ok_iff.mpr
    ⟨show leastUnit ≤ x - figures + 1 by omega, by omega, rfl⟩
  refine ⟨.finite s 0 (max unitFormat.tiny (x - figures + 1)), ?_⟩
  rw [roundFigures, bind_eq_ok_iff, hleading]
  refine ⟨_, hunit, ?_⟩
  rw [Format.quantize, if_neg (by omega), if_pos rfl]

/-- A NaN is kept if it is quiet. -/
theorem roundFigures_nan_eq_ok_iff {signaling : Bool} {payload : Nat} {first : Decimal}
    (hl : 0 < figures) (hu : figures < working.digits) :
    roundFigures (.nan s signaling payload) (.nan s signaling payload) figures = .ok first ↔
      signaling = false ∧ first = .nan s false (payload % pow10 working.digits) := by
  obtain ⟨hdigits, -, -⟩ := working_bounds
  obtain ⟨hleast, htop, -⟩ := unit_bounds
  have hunit := unitExponent_eq_ok_iff.mpr
    ⟨show leastUnit ≤ 0 - figures + 1 by omega, by omega, rfl⟩
  have hquantize : roundFigures (.nan s signaling payload) (.nan s signaling payload) figures =
      working.passNaN (.nan s signaling payload) := by
    have hleading : adjusted (.nan s signaling payload) = 0 := rfl
    rw [roundFigures, hleading, hunit]
    rfl
  rw [hquantize]
  cases signaling with
  | false => simp [Format.passNaN, eq_comm]
  | true => simp [Format.passNaN]

/-- An infinity is not rounded. -/
theorem roundFigures_infinity_ne_ok {first : Decimal} :
    roundFigures (.infinity s) (.infinity s) figures ≠ .ok first := by
  intro h
  obtain ⟨x, -, hq⟩ := bind_eq_ok_iff.mp h
  cases hq

/-- A number that is not zero is rounded to significant figures exactly if it can be shown. -/
theorem exists_roundFigures_iff {value : Decimal} (hv : value.isZero = false) (hl : 0 < figures)
    (hu : figures < working.digits) :
    (∃ first, roundFigures value value figures = .ok first) ↔ value.IsShown figures := by
  cases value with
  | finite s c e =>
    have hc := isZero_finite_eq_false_iff.mp hv
    simp only [roundFigures_eq_ok_iff hc hl hu]
    exact ⟨fun ⟨_, hshown, _⟩ => hshown, fun hshown => ⟨_, hshown, _, rfl, rfl⟩⟩
  | infinity s =>
    exact iff_of_false (fun ⟨_, h⟩ => roundFigures_infinity_ne_ok h) id
  | nan s signaling payload =>
    simp only [roundFigures_nan_eq_ok_iff hl hu]
    exact ⟨fun ⟨_, hquiet, _⟩ => hquiet, fun hquiet => ⟨_, hquiet, rfl⟩⟩

/-- A number that was rounded to significant figures can be rounded to them again. -/
theorem exists_roundFigures_of_roundFigures {value first : Decimal} (hv : value.isZero = false)
    (hl : 0 < figures) (hu : figures < working.digits)
    (h : roundFigures value value figures = .ok first) :
    ∃ second, roundFigures first first figures = .ok second := by
  cases value with
  | finite s c e =>
    have hc := isZero_finite_eq_false_iff.mp hv
    obtain ⟨hshown, x, hx, rfl⟩ := (roundFigures_eq_ok_iff hc hl hu).mp h
    have hbounded := (leading_le_iff hc hl hu hx).mpr (hshown.resolve_left hc).2
    have hleading := adjusted_finite s c e
    have hmost : multiple c e x ≤ pow10 figures := multiple_le (by omega)
    have hpos := digitCount_pos (multiple c e x)
    by_cases hz : multiple c e x = 0
    · rw [hz]
      exact exists_roundFigures_zero hl hu (by omega) (by omega)
    · refine (exists_roundFigures_iff ?_ hl hu).mpr (.inr ⟨?_, ?_⟩)
      · exact isZero_finite_eq_false_iff.mpr hz
      · obtain ⟨hdigits, -, -⟩ := working_bounds
        obtain ⟨hleast, -, hfirst⟩ := unit_bounds
        have hnext := adjusted_finite s (multiple c e x) x
        omega
      · have hcarry : ¬ Carries (multiple c e x) figures := by
          rcases hmost.lt_or_eq with hless | heq
          · exact not_carries ((digitCount_le_iff hl).mpr hless)
          · rw [heq]
            exact not_carries_pow10 hl
        exact hbounded.lt_or_eq.imp id fun heq => ⟨heq, hcarry⟩
  | infinity s => exact absurd h roundFigures_infinity_ne_ok
  | nan s signaling payload =>
    obtain ⟨rfl, rfl⟩ := (roundFigures_nan_eq_ok_iff hl hu).mp h
    exact ⟨_, (roundFigures_nan_eq_ok_iff hl hu).mpr ⟨rfl, rfl⟩⟩

/-- A number has a text in significant figures exactly if it can be shown in them. -/
theorem exists_display_iff {value : Decimal} (hl : 0 < figures) (hu : figures < working.digits) :
    (∃ text, value.display figures = .ok text) ↔ value.IsShown figures := by
  cases hv : value.isZero with
  | true =>
    rw [display, if_pos hv]
    refine iff_of_true ⟨_, rfl⟩ ?_
    cases value with
    | finite s c e => exact .inl (by simpa [isZero] using hv)
    | _ => cases hv
  | false =>
    rw [display, hv, if_neg Bool.false_ne_true, ← exists_roundFigures_iff hv hl hu]
    constructor
    · rintro ⟨text, h⟩
      obtain ⟨last, hrounded, -⟩ := bind_eq_ok_iff.mp h
      obtain ⟨first, hfirst, -⟩ := bind_eq_ok_iff.mp hrounded
      exact ⟨first, hfirst⟩
    · rintro ⟨first, hfirst⟩
      have hrounded : ∃ last, value.rounded figures = .ok last := by
        by_cases hsame : first.adjusted = value.adjusted
        · refine ⟨first, bind_eq_ok_iff.mpr ⟨first, hfirst, ?_⟩⟩
          rw [if_pos hsame]
          rfl
        · obtain ⟨second, hsecond⟩ := exists_roundFigures_of_roundFigures hv hl hu hfirst
          refine ⟨second, bind_eq_ok_iff.mpr ⟨first, hfirst, ?_⟩⟩
          rw [if_neg hsame]
          exact hsecond
      obtain ⟨last, hlast⟩ := hrounded
      exact ⟨_, bind_eq_ok_iff.mpr ⟨last, hlast, rfl⟩⟩

end

end Decimal

end UnitCalculator
