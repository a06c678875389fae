import Mathlib.Algebra.Order.Field.Power
import Mathlib.Data.Int.Log
import Mathlib.Data.Rat.Floor
import Mathlib.Tactic.Linarith
import Mathlib.Tactic.Ring
import UnitCalculator.Binary.Double
import UnitCalculator.Proofs.Decimal.Rounding

/-!
# Nearest doubles

A rational number is rounded to the nearest multiple of a unit, of two to the even one. Its nearest
double is the nearest multiple of the last of the 53 bits that a double has from its leading bit on,
or of the smallest double, as long as it does not reach two to the power 1024.
-/

namespace UnitCalculator

/-- A quotient that is rounded to the nearest integer, of two to the even one. -/
theorem divideRounded_toEven (n : Nat) {d : Nat} (hd : 0 < d) :
    2 * |(n : ℤ) - divideRounded .toEven n d * d| < d ∨
      2 * |(n : ℤ) - divideRounded .toEven n d * d| = d ∧ Even (divideRounded .toEven n d) := by
  have hsplit : (n : ℤ) = (n / d : Nat) * d + (n % d : Nat) := by
    have hn := Nat.div_add_mod n d
    rw [Nat.mul_comm] at hn
    exact_mod_cast hn.symm
  have hrest := Nat.mod_lt n hd
  have hfloor : (n : ℤ) - (n / d : Nat) * d = (n % d : Nat) := by linarith
  have hnext : (n : ℤ) - (n / d + 1 : Nat) * d = (n % d : Nat) - d := by
    rw [Nat.cast_succ, add_mul]
    linarith
  have habs : |((n % d : Nat) : ℤ) - d| = d - (n % d : Nat) := by
    rw [abs_of_nonpos (by omega)]
    ring
  simp only [divideRounded]
  split
  · rw [hfloor, Nat.abs_cast]
    omega
  · split
    · rw [hnext, habs]
      omega
    · split
      · next heven =>
        rw [hfloor, Nat.abs_cast]
        exact .inr ⟨by omega, Nat.even_iff.mpr heven⟩
      · next hodd =>
        rw [hnext, habs]
        exact .inr ⟨by omega, Nat.even_iff.mpr (by omega)⟩

/-- The magnitude of a rational number is the quotient of its parts. -/
theorem natAbs_div_den (x : ℚ) : (x.num.natAbs : ℚ) / x.den = |x| := by
  have hpos : (0 : ℚ) < x.den := Nat.cast_pos.mpr x.den_pos
  have hquotient := congrArg abs (Rat.num_div_den x)
  rwa [abs_div, abs_of_pos hpos, ← Int.cast_abs, ← Nat.cast_natAbs] at hquotient

namespace Binary

/-- A multiple of a unit is nearest to a rational number; of two it is the even one. -/
def RoundsTo (unit y x : ℚ) : Prop :=
  ∃ m : ℤ, x = m * unit ∧ (2 * |y - x| < unit ∨ 2 * |y - x| = unit ∧ Even m)

namespace RoundsTo

variable {unit y x z : ℚ}

/-- The nearest multiple is at most half a unit away. -/
theorem two_mul_abs_le (h : RoundsTo unit y x) : 2 * |y - x| ≤ unit := by
  obtain ⟨m, -, hless | ⟨hsame, -⟩⟩ := h
  · exact hless.le
  · exact hsame.le

/-- The opposite of the nearest multiple is nearest to the opposite. -/
theorem neg (h : RoundsTo unit y x) : RoundsTo unit (-y) (-x) := by
  obtain ⟨m, rfl, hnear⟩ := h
  refine ⟨-m, by push_cast; ring, ?_⟩
  rwa [neg_sub_neg, abs_sub_comm, even_neg]

/-- Different multiples of a unit are at least a unit apart. -/
theorem unit_le_abs {m k : ℤ} (hu : 0 < unit) (hne : m ≠ k) :
    unit ≤ |(m : ℚ) * unit - k * unit| := by
  have hapart : (1 : ℚ) ≤ |(m : ℚ) - k| := by
    have hpos := abs_pos.mpr (sub_ne_zero.mpr hne)
    exact_mod_cast hpos
  rw [← sub_mul, abs_mul, abs_of_pos hu]
  nlinarith

/-- There is one nearest multiple. -/
theorem unique (hu : 0 < unit) (h : RoundsTo unit y x) (h' : RoundsTo unit y z) : x = z := by
  have hx := h.two_mul_abs_le
  have hz := h'.two_mul_abs_le
  obtain ⟨m, rfl, hm⟩ := h
  obtain ⟨k, rfl, hk⟩ := h'
  by_contra hne
  have hmk : m ≠ k := fun he => hne (by rw [he])
  have hapart := unit_le_abs hu hmk
  have htriangle := abs_sub_le ((m : ℚ) * unit) y (k * unit)
  rw [abs_sub_comm _ y] at htriangle
  -- both multiples are half a unit away, so both are even, and they are not next to each other
  have hmeven : Even m := by
    rcases hm with hm | ⟨-, hm⟩
    · linarith
    · exact hm
  have hkeven : Even k := by
    rcases hk with hk | ⟨-, hk⟩
    · linarith
    · exact hk
  have hone : |m - k| ≤ 1 := by
    have hle : |(m : ℚ) * unit - k * unit| ≤ unit := by linarith
    rw [← sub_mul, abs_mul, abs_of_pos hu] at hle
    have hcast : |(m : ℚ) - k| ≤ 1 := by nlinarith
    exact_mod_cast hcast
  obtain ⟨i, rfl⟩ := hmeven
  obtain ⟨j, rfl⟩ := hkeven
  have hij : i = j := by
    rw [abs_le] at hone
    omega
  exact hmk (by rw [hij])

/-- No multiple is nearer. -/
theorem abs_sub_le_of_multiple (hu : 0 < unit) (h : RoundsTo unit y x) (k : ℤ) :
    |y - x| ≤ |y - k * unit| := by
  have hx := h.two_mul_abs_le
  obtain ⟨m, rfl, -⟩ := h
  by_cases hmk : m = k
  · rw [hmk]
  · have hapart := unit_le_abs hu hmk
    have htriangle := abs_sub_le ((m : ℚ) * unit) y (k * unit)
    rw [abs_sub_comm _ y] at htriangle
    linarith

/-- A multiple is nearest to itself. -/
theorem of_multiple (hu : 0 < unit) (m : ℤ) : RoundsTo unit (m * unit) (m * unit) :=
  ⟨m, rfl, .inl (by rw [sub_self, abs_zero, mul_zero]; exact hu)⟩

/-- The rounded quotient times the unit is the nearest multiple. -/
theorem of_divideRounded {n d : Nat} (hd : 0 < d) (hu : 0 < unit) (hy : y * d = n * unit) :
    RoundsTo unit y (divideRounded .toEven n d * unit) := by
  have hdpos : (0 : ℚ) < d := Nat.cast_pos.mpr hd
  have hdistance : 2 * |y - divideRounded .toEven n d * unit| * d =
      (2 * |(n : ℤ) - divideRounded .toEven n d * d| : ℤ) * unit := by
    have hsub : (y - divideRounded .toEven n d * unit) * d =
        ((n : ℤ) - divideRounded .toEven n d * d : ℤ) * unit := by
      rw [sub_mul, hy]
      push_cast
      ring
    have habs := congrArg abs hsub
    rw [abs_mul, abs_mul, abs_of_pos hdpos, abs_of_pos hu] at habs
    push_cast at habs ⊢
    rw [mul_assoc, habs, mul_assoc]
  refine ⟨(divideRounded .toEven n d : ℤ), by rw [Int.cast_natCast], ?_⟩
  rcases divideRounded_toEven n hd with hless | ⟨hsame, heven⟩
  · have hcast : ((2 * |(n : ℤ) - divideRounded .toEven n d * d| : ℤ) : ℚ) < d := by
      exact_mod_cast hless
    left
    nlinarith
  · have hcast : ((2 * |(n : ℤ) - divideRounded .toEven n d * d| : ℤ) : ℚ) = d := by
      exact_mod_cast hsame
    refine .inr ⟨?_, (Int.even_coe_nat _).mpr heven⟩
    rw [hcast, mul_comm (d : ℚ)] at hdistance
    exact mul_right_cancel₀ hdpos.ne' hdistance

/-- Every number has a nearest multiple. -/
theorem exists_of_pos (hu : 0 < unit) (y : ℚ) : ∃ x, RoundsTo unit y x := by
  have habs : ∃ x, RoundsTo unit |y| x := by
    have hpos : (0 : ℚ) < (y / unit).den := Nat.cast_pos.mpr (y / unit).den_pos
    have hquotient := natAbs_div_den (y / unit)
    rw [abs_div, abs_of_pos hu, div_eq_div_iff hpos.ne' hu.ne'] at hquotient
    exact ⟨_, of_divideRounded (y / unit).den_pos hu hquotient.symm⟩
  obtain ⟨x, hx⟩ := habs
  rcases abs_choice y with hy | hy
  · exact ⟨x, hy ▸ hx⟩
  · rw [hy] at hx
    exact ⟨-x, neg_neg y ▸ hx.neg⟩

/-- The nearest multiple of a number that is not less than a multiple is not less either. -/
theorem multiple_le (hu : 0 < unit) (h : RoundsTo unit y x) {k : ℤ} (hk : k * unit ≤ y) :
    k * unit ≤ x := by
  have hx := h.two_mul_abs_le
  obtain ⟨m, rfl, -⟩ := h
  by_contra hless
  have hmk : (m : ℚ) + 1 ≤ k := by
    have hlt : m < k := by
      by_contra hle
      exact hless (mul_le_mul_of_nonneg_right (by exact_mod_cast not_lt.mp hle) hu.le)
    exact_mod_cast hlt
  have habs := le_abs_self (y - m * unit)
  nlinarith

/-- The nearest multiple of a number that is not greater than a multiple is not greater either. -/
theorem le_multiple (hu : 0 < unit) (h : RoundsTo unit y x) {k : ℤ} (hk : y ≤ k * unit) :
    x ≤ k * unit := by
  have hneg := h.neg.multiple_le (k := -k) hu (by push_cast; linarith)
  push_cast at hneg
  linarith

/-- What is rounded below an even multiple lies below the middle in front of it. -/
theorem lt_even_multiple_iff (hu : 0 < unit) (h : RoundsTo unit y x) {k : ℤ} (hk : Even k) :
    x < k * unit ↔ 2 * y + unit < 2 * (k * unit) := by
  have hx := h.two_mul_abs_le
  constructor
  · intro hless
    by_contra hle
    obtain ⟨m, rfl, hm⟩ := h
    have hmk : m ≤ k - 1 := by
      have hcast : (m : ℚ) < k := lt_of_mul_lt_mul_right hless hu.le
      exact Int.le_sub_one_of_lt (by exact_mod_cast hcast)
    have hcast : (m : ℚ) ≤ k - 1 := by exact_mod_cast hmk
    have hbelow := mul_le_mul_of_nonneg_right hcast hu.le
    have hdistance := le_abs_self (y - m * unit)
    rcases hm with hm | ⟨hm, heven⟩
    · linarith
    · -- both multiples are even, so the lower one is too far away
      have hodd : m ≠ k - 1 := by
        rintro rfl
        exact Int.not_even_one ((Int.even_sub.mp heven).mp hk)
      have hfar : (m : ℚ) ≤ k - 2 := by exact_mod_cast (by omega : m ≤ k - 2)
      have hfarther := mul_le_mul_of_nonneg_right hfar hu.le
      linarith
  · intro hless
    have hdistance := neg_abs_le (y - x)
    linarith

end RoundsTo

/-- A power of two is one among the rationals. -/
theorem cast_pow2 (k : Nat) : (pow2 k : ℚ) = 2 ^ k := by
  rw [pow2, Nat.pow_eq]
  push_cast
  rfl

/-- A power is a quotient of natural ones. -/
theorem pow_toNat {base : ℚ} (hbase : base ≠ 0) (k : ℤ) :
    base ^ k.toNat = base ^ (-k).toNat * base ^ k := by
  have hsplit : (k.toNat : ℤ) = (-k).toNat + k := by omega
  rw [← zpow_natCast, hsplit, zpow_add₀ hbase, zpow_natCast]

/-- A multiple of a power is one of every smaller power. -/
theorem mul_zpow_eq {base : ℤ} (hbase : base ≠ 0) (m : ℤ) {e f : ℤ} (h : e ≤ f) :
    (m : ℚ) * base ^ f = (m * base ^ (f - e).toNat : ℤ) * base ^ e := by
  have hsplit : f = (f - e).toNat + e := by omega
  rw [Int.cast_mul, Int.cast_pow, mul_assoc, ← zpow_natCast,
    ← zpow_add₀ (Int.cast_ne_zero.mpr hbase), ← hsplit]

/-- The logarithm of a number between two powers. -/
theorem log_eq {base : ℕ} (hbase : 1 < base) {x : ℚ} (hx : 0 < x) {k : ℤ}
    (hl : (base : ℚ) ^ k ≤ x) (hu : x < (base : ℚ) ^ (k + 1)) : Int.log base x = k :=
  le_antisymm (Int.lt_add_one_iff.mp ((Int.lt_zpow_iff_log_lt hbase hx).mp hu))
    ((Int.zpow_le_iff_le_log hbase hx).mp hl)

/-- The exponent of the leading bit is the logarithm. -/
theorem leadingBit_eq {n d : Nat} (hn : n ≠ 0) (hd : d ≠ 0) :
    leadingBit n d = Int.log 2 ((n : ℚ) / d) := by
  have htwo : (2 : ℚ) ≠ 0 := by norm_num
  have hnpos : (0 : ℚ) < n := Nat.cast_pos.mpr (Nat.pos_of_ne_zero hn)
  have hdpos : (0 : ℚ) < d := Nat.cast_pos.mpr (Nat.pos_of_ne_zero hd)
  have hnleast : (2 : ℚ) ^ n.log2 ≤ n := by exact_mod_cast Nat.log2_self_le hn
  have hnmost : (n : ℚ) < 2 ^ (n.log2 + 1) := by exact_mod_cast Nat.lt_log2_self
  have hdleast : (2 : ℚ) ^ d.log2 ≤ d := by exact_mod_cast Nat.log2_self_le hd
  have hdmost : (d : ℚ) < 2 ^ (d.log2 + 1) := by exact_mod_cast Nat.lt_log2_self
  generalize hk : (n.log2 : ℤ) - d.log2 = k
  have hle_iff : d * pow2 k.toNat ≤ n * pow2 (-k).toNat ↔ (2 : ℚ) ^ k ≤ n / d := by
    have hpos : (0 : ℚ) < 2 ^ (-k).toNat := by positivity
    rw [← Nat.cast_le (α := ℚ), Nat.cast_mul, Nat.cast_mul, cast_pow2, cast_pow2,
      pow_toNat htwo k, le_div_iff₀ hdpos, mul_comm (n : ℚ), mul_left_comm,
      mul_le_mul_iff_right₀ hpos, mul_comm]
  have hmost : (n : ℚ) / d < 2 ^ (k + 1) := by
    have hpower : (2 : ℚ) ^ (k + 1) * 2 ^ d.log2 = 2 ^ (n.log2 + 1) := by
      rw [← zpow_natCast, ← zpow_natCast, ← zpow_add₀ htwo]
      congr 1
      omega
    rw [div_lt_iff₀ hdpos]
    calc (n : ℚ) < 2 ^ (k + 1) * 2 ^ d.log2 := hpower ▸ hnmost
      _ ≤ 2 ^ (k + 1) * d := by gcongr
  have hleast : (2 : ℚ) ^ (k - 1) ≤ n / d := by
    have hpower : (2 : ℚ) ^ (k - 1) * 2 ^ (d.log2 + 1) = 2 ^ n.log2 := by
      rw [← zpow_natCast, ← zpow_natCast, ← zpow_add₀ htwo]
      congr 1
      omega
    rw [le_div_iff₀ hdpos]
    calc (2 : ℚ) ^ (k - 1) * d ≤ 2 ^ (k - 1) * 2 ^ (d.log2 + 1) := by gcongr
      _ ≤ n := hpower ▸ hnleast
  rw [leadingBit, hk]
  split
  · next h =>
    exact (log_eq (by decide) (by positivity) (by exact_mod_cast hle_iff.mp h)
      (by exact_mod_cast hmost)).symm
  · next h =>
    have hless := not_le.mp (mt hle_iff.mpr h)
    refine (log_eq (by decide) (by positivity) (by exact_mod_cast hleast) ?_).symm
    rw [sub_add_cancel]
    exact_mod_cast hless

/-- The rational number that a binary number is. -/
def toRat (b : Binary) : ℚ := b.mantissa * 2 ^ b.exponent

/-- Exponent of the last bit of the doubles around a rational number. -/
def lastBit (y : ℚ) : ℤ := max (Int.log 2 |y| - 52) (-1074)

/-- A rational number is the nearest double of another one. -/
structure NearestDouble (y x : ℚ) : Prop where
  /-- It is a multiple of the last bit. -/
  roundsTo : RoundsTo (2 ^ lastBit y) y x
  /-- It is not infinite. -/
  finite : |x| < 2 ^ 1024

/-- A power of two is positive. -/
theorem two_zpow_pos (e : ℤ) : (0 : ℚ) < 2 ^ e := zpow_pos (by norm_num) e

section

variable {y : ℚ}

/-- The last bit of a positive number. -/
theorem lastBit_of_pos (hy : 0 < y) : lastBit y = max (Int.log 2 y - 52) (-1074) := by
  rw [lastBit, abs_of_pos hy]

/-- A bound of a number bounds its last bit. -/
theorem lastBit_le (hy : y ≠ 0) {k : ℤ} (h : |y| < 2 ^ k) : lastBit y ≤ max (k - 53) (-1074) := by
  have hlog := (Int.lt_zpow_iff_log_lt (b := 2) (by decide) (abs_pos.mpr hy)).mp h
  rw [lastBit]
  omega

/-- A number has at most 53 bits up to its last one. -/
theorem abs_lt_lastBit (y : ℚ) : |y| < 2 ^ 53 * 2 ^ lastBit y := by
  have hlog := Int.lt_zpow_succ_log_self (b := 2) (by decide) |y|
  rw [Nat.cast_ofNat] at hlog
  refine lt_of_lt_of_le hlog ?_
  rw [← zpow_natCast, ← zpow_add₀ (by norm_num)]
  refine zpow_le_zpow_right₀ (by norm_num) ?_
  rw [lastBit]
  omega

/-- Only below the smallest double is a positive number rounded to zero. -/
theorem lastBit_of_roundsTo_zero (hy : 0 < y) (h : RoundsTo (2 ^ lastBit y) y 0) :
    lastBit y = -1074 := by
  by_contra hne
  have hlog : lastBit y ≤ Int.log 2 y := by
    rw [lastBit_of_pos hy] at hne ⊢
    omega
  have hpower := (Int.zpow_le_iff_le_log (by decide) hy).mpr hlog
  have hfar := h.two_mul_abs_le
  rw [sub_zero, abs_of_pos hy] at hfar
  rw [Nat.cast_ofNat] at hpower
  linarith

end

/-- The leading bit tells whether a binary number is too large for a double. -/
theorem doubleTop_le_iff {m : Nat} (hm : m ≠ 0) (e : ℤ) :
    doubleTop ≤ e + m.log2 ↔ (2 : ℚ) ^ 1024 ≤ m * 2 ^ e := by
  have hpos : (0 : ℚ) < m := Nat.cast_pos.mpr (Nat.pos_of_ne_zero hm)
  have hlog : Int.log 2 (m : ℚ) = m.log2 := by
    rw [Int.log_natCast, Nat.log2_eq_log_two]
  have hpower := Int.zpow_le_iff_le_log (R := ℚ) (b := 2) (by decide) hpos (x := 1024 - e)
  rw [hlog, Nat.cast_ofNat, zpow_sub₀ (by norm_num), div_le_iff₀ (two_zpow_pos e)] at hpower
  rw [doubleTop, ← zpow_natCast]
  refine Iff.trans ?_ hpower.symm
  omega

/-- A quotient is rounded to a multiple of the last bit, which is its nearest double unless it is
too large. -/
theorem exists_mantissa {n d : Nat} (hn : n ≠ 0) (hd : d ≠ 0) : ∃ m : Nat,
    RoundsTo (2 ^ lastBit (n / d)) (n / d) (m * 2 ^ lastBit (n / d)) ∧
      nearestDouble? n d =
        if (2 : ℚ) ^ 1024 ≤ m * 2 ^ lastBit (n / d) then none else some ⟨m, lastBit (n / d)⟩ := by
  have hdpos : (0 : ℚ) < d := Nat.cast_pos.mpr (Nat.pos_of_ne_zero hd)
  have hpos : (0 : ℚ) < n / d := div_pos (Nat.cast_pos.mpr (Nat.pos_of_ne_zero hn)) hdpos
  have hlast : max (leadingBit n d - doubleBits + 1) doubleTiny = lastBit (n / d) := by
    rw [leadingBit_eq hn hd, lastBit_of_pos hpos, doubleBits, doubleTiny]
    omega
  generalize hm : divideRounded .toEven (n * pow2 (-lastBit (n / d)).toNat)
    (d * pow2 (lastBit (n / d)).toNat) = m
  have hround : RoundsTo (2 ^ lastBit (n / d)) (n / d) (m * 2 ^ lastBit (n / d)) := by
    have hscaled : 0 < d * pow2 (lastBit (n / d)).toNat :=
      Nat.mul_pos (Nat.pos_of_ne_zero hd) (Nat.pow_pos (by decide))
    rw [← hm]
    refine .of_divideRounded hscaled (two_zpow_pos _) ?_
    rw [Nat.cast_mul, Nat.cast_mul, cast_pow2, cast_pow2,
      pow_toNat (by norm_num) (lastBit (n / d)), ← mul_assoc, div_mul_cancel₀ _ hdpos.ne', mul_assoc]
  have htop : doubleTop ≤ lastBit (n / d) + m.log2 ↔ (2 : ℚ) ^ 1024 ≤ m * 2 ^ lastBit (n / d) := by
    by_cases hzero : m = 0
    · rw [hzero, Nat.cast_zero, zero_mul] at hround ⊢
      rw [lastBit_of_roundsTo_zero hpos hround]
      exact iff_of_false (by decide) (not_le.mpr (by positivity))
    · exact doubleTop_le_iff hzero _
  refine ⟨m, hround, ?_⟩
  rw [nearestDouble?, if_neg hn]
  dsimp only
  rw [hlast, hm]
  exact if_congr htop rfl rfl

namespace NearestDouble

variable {x y z : ℚ}

/-- There is at most one nearest double. -/
theorem unique (h : NearestDouble y x) (h' : NearestDouble y z) : x = z :=
  h.roundsTo.unique (two_zpow_pos _) h'.roundsTo

/-- The opposite of the nearest double is the nearest double of the opposite. -/
theorem neg (h : NearestDouble y x) : NearestDouble (-y) (-x) := by
  refine ⟨?_, by rw [abs_neg]; exact h.finite⟩
  rw [lastBit, abs_neg]
  exact h.roundsTo.neg

/-- The sign of a number is that of its nearest double. -/
theorem neg_iff : NearestDouble (-y) (-x) ↔ NearestDouble y x :=
  ⟨fun h => neg_neg y ▸ neg_neg x ▸ h.neg, neg⟩

/-- The nearest double of zero. -/
theorem zero : NearestDouble 0 0 := by
  refine ⟨?_, by norm_num⟩
  have hzero := RoundsTo.of_multiple (two_zpow_pos (lastBit 0)) 0
  rwa [Int.cast_zero, zero_mul] at hzero

/-- A nearest double that is not zero is at least the smallest double. -/
theorem tiny_le (h : NearestDouble y x) (hx : x ≠ 0) : 2 ^ (-1074 : ℤ) ≤ |x| := by
  obtain ⟨m, rfl, -⟩ := h.roundsTo
  have hm : m ≠ 0 := by
    rintro rfl
    exact hx (by rw [Int.cast_zero, zero_mul])
  have hapart := RoundsTo.unit_le_abs (two_zpow_pos (lastBit y)) hm
  rw [Int.cast_zero, zero_mul, sub_zero] at hapart
  refine le_trans ?_ hapart
  exact zpow_le_zpow_right₀ (by norm_num) (le_max_right _ _)

/-- The double that is found is the nearest one. -/
theorem of_nearestDouble? {n d : Nat} {b : Binary} (hd : d ≠ 0) (h : nearestDouble? n d = some b) :
    NearestDouble (n / d) b.toRat := by
  by_cases hn : n = 0
  · subst hn
    rw [nearestDouble?, if_pos rfl] at h
    obtain rfl := Option.some.inj h
    rw [toRat, Nat.cast_zero, zero_mul, zero_div]
    exact zero
  · obtain ⟨m, hround, heq⟩ := exists_mantissa hn hd
    rw [h] at heq
    split at heq
    · cases heq
    · next hfinite =>
      obtain rfl := Option.some.inj heq
      refine ⟨hround, ?_⟩
      rw [toRat, abs_of_nonneg (mul_nonneg (Nat.cast_nonneg m) (two_zpow_pos _).le)]
      exact not_le.mp hfinite

/-- The nearest double of a quotient is found. -/
theorem exists_nearestDouble? {n d : Nat} (hd : d ≠ 0) (h : NearestDouble (n / d) x) :
    ∃ b, nearestDouble? n d = some b ∧ b.toRat = x := by
  by_cases hn : n = 0
  · subst hn
    rw [Nat.cast_zero, zero_div] at h
    exact ⟨_, if_pos rfl, by rw [toRat, Nat.cast_zero, zero_mul, h.unique zero]⟩
  · obtain ⟨m, hround, heq⟩ := exists_mantissa hn hd
    have hx := h.roundsTo.unique (two_zpow_pos _) hround
    have hfinite : ¬(2 : ℚ) ^ 1024 ≤ m * 2 ^ lastBit (n / d) := by
      have habs := h.finite
      rw [hx] at habs
      exact not_le.mpr (lt_of_le_of_lt (le_abs_self _) habs)
    rw [if_neg hfinite] at heq
    exact ⟨_, heq, hx.symm⟩

/-- A nearest double has at most 53 bits. -/
theorem exists_bits (h : NearestDouble y x) :
    ∃ m : ℤ, x = m * 2 ^ lastBit y ∧ |m| ≤ 2 ^ 53 := by
  have hunit := two_zpow_pos (lastBit y)
  obtain ⟨hl, hu⟩ := abs_lt.mp (abs_lt_lastBit y)
  have hleast := h.roundsTo.multiple_le (k := -2 ^ 53) hunit (by push_cast; linarith)
  have hgreatest := h.roundsTo.le_multiple (k := 2 ^ 53) hunit (by push_cast; linarith)
  obtain ⟨m, rfl, -⟩ := h.roundsTo
  refine ⟨m, rfl, abs_le.mpr ⟨?_, ?_⟩⟩
  · exact_mod_cast le_of_mul_le_mul_right hleast hunit
  · exact_mod_cast le_of_mul_le_mul_right hgreatest hunit

/-- A nearest double is a multiple of its own last bit. -/
theorem exists_multiple (h : NearestDouble y x) : ∃ k : ℤ, x = k * 2 ^ lastBit x := by
  obtain ⟨m, hx, hm⟩ := h.exists_bits
  have hunit := two_zpow_pos (lastBit y)
  have htiny : -1074 ≤ lastBit y := le_max_right _ _
  have habs : |x| = |m| * 2 ^ lastBit y := by
    rw [hx, abs_mul, abs_of_pos hunit, Int.cast_abs]
  by_cases hzero : x = 0
  · exact ⟨0, by rw [hzero, Int.cast_zero, zero_mul]⟩
  rcases hm.lt_or_eq with hless | hsame
  · have hbelow : |x| < 2 ^ (53 + lastBit y) := by
      have hcast : ((|m| : ℤ) : ℚ) < 2 ^ 53 := by exact_mod_cast hless
      rw [habs, zpow_add₀ (by norm_num)]
      exact mul_lt_mul_of_pos_right hcast hunit
    have hlast := lastBit_le hzero hbelow
    have hmultiple := mul_zpow_eq two_ne_zero m (show lastBit x ≤ lastBit y by omega)
    rw [Int.cast_ofNat, ← hx] at hmultiple
    exact ⟨_, hmultiple⟩
  · -- the power of two above all bits has the next one as its last bit
    have hpower : |x| = 2 ^ (53 + lastBit y) := by
      have hcast : ((|m| : ℤ) : ℚ) = 2 ^ 53 := by exact_mod_cast hsame
      rw [habs, hcast, zpow_add₀ (by norm_num)]
      rfl
    have hlast : lastBit x = lastBit y + 1 := by
      have hlog := Int.log_zpow (R := ℚ) (b := 2) (by decide) (53 + lastBit y)
      rw [lastBit, hpower]
      rw [Nat.cast_ofNat] at hlog
      omega
    obtain ⟨half, rfl⟩ : Even m := by
      rw [← even_abs, hsame]
      decide
    refine ⟨half, ?_⟩
    rw [hlast, hx, zpow_add_one₀ (by norm_num)]
    push_cast
    ring

/-- A nearest double is the nearest double of itself. -/
theorem self (h : NearestDouble y x) : NearestDouble x x := by
  obtain ⟨k, hk⟩ := h.exists_multiple
  have hround := RoundsTo.of_multiple (two_zpow_pos (lastBit x)) k
  rw [← hk] at hround
  exact ⟨hround, h.finite⟩

/-- A nearest double reaches the power of two that the number does. -/
theorem zpow_log_le (hy : 0 < y) (h : NearestDouble y x) (hl : -1022 ≤ Int.log 2 y) :
    2 ^ Int.log 2 y ≤ x := by
  have hlast : Int.log 2 y = (52 : Nat) + lastBit y := by
    rw [lastBit_of_pos hy]
    omega
  have hpower : (2 : ℚ) ^ Int.log 2 y = (2 ^ 52 : ℤ) * 2 ^ lastBit y := by
    rw [hlast, zpow_add₀ (by norm_num), zpow_natCast]
    push_cast
    rfl
  have hle := Int.zpow_log_le_self (b := 2) (by decide) hy
  rw [Nat.cast_ofNat, hpower] at hle
  rw [hpower]
  exact h.roundsTo.multiple_le (two_zpow_pos _) hle

/-- A positive number that has a nearest double lies below the middle between the greatest double
and the power of two above it. -/
theorem lt_of_pos (hy : 0 < y) (h : NearestDouble y x) : 2 * y + 2 ^ 971 < 2 * 2 ^ 1024 := by
  have hbelow : x < 2 ^ 1024 := lt_of_le_of_lt (le_abs_self x) h.finite
  have hlog : Int.log 2 y ≤ 1023 := by
    by_contra hlarge
    have hmost : (2 : ℚ) ^ (1024 : ℤ) ≤ 2 ^ Int.log 2 y :=
      zpow_le_zpow_right₀ (by norm_num) (by omega)
    have hleast := hmost.trans (h.zpow_log_le hy (by omega))
    exact absurd hbelow (not_lt.mpr (by exact_mod_cast hleast))
  by_cases hsmall : Int.log 2 y < 1023
  · have hpower := (Int.lt_zpow_iff_log_lt (b := 2) (by decide) hy).mpr hsmall
    have hmost : y < 2 ^ 1023 := by exact_mod_cast hpower
    have hdouble : (2 : ℚ) ^ 1024 = 2 * 2 ^ 1023 := pow_succ' 2 1023
    have hunit : (2 : ℚ) ^ 971 ≤ 2 ^ 1024 := pow_le_pow_right₀ (by norm_num) (by norm_num)
    calc 2 * y + 2 ^ 971 < 2 * 2 ^ 1023 + 2 ^ 1024 :=
          add_lt_add_of_lt_of_le (mul_lt_mul_of_pos_left hmost two_pos) hunit
      _ = 2 * 2 ^ 1024 := by rw [← hdouble, ← two_mul]
  · -- among the greatest doubles the power of two above them is an even multiple
    have hbit : (2 : ℚ) ^ lastBit y = 2 ^ 971 := by
      rw [← zpow_natCast, lastBit_of_pos hy]
      congr 1
      omega
    have htop : (2 : ℚ) ^ 1024 = (2 ^ 53 : ℤ) * 2 ^ 971 := by
      rw [Int.cast_pow, Int.cast_ofNat, ← pow_add]
    have hround := h.roundsTo
    rw [hbit] at hround
    rw [htop] at hbelow ⊢
    exact (hround.lt_even_multiple_iff (by positivity) (by decide)).mp hbelow

/-- The numbers that have a nearest double are those below the middle between the greatest double
and the power of two above it. -/
theorem exists_iff (y : ℚ) : (∃ x, NearestDouble y x) ↔ 2 * |y| + 2 ^ 971 < 2 * 2 ^ 1024 := by
  have htop : (0 : ℚ) < 2 ^ 1024 := by positivity
  rcases eq_or_ne y 0 with rfl | hy
  · refine iff_of_true ⟨0, zero⟩ ?_
    rw [abs_zero, mul_zero, zero_add, two_mul]
    exact lt_add_of_le_of_pos (pow_le_pow_right₀ (by norm_num) (by norm_num)) htop
  constructor
  · rintro ⟨x, hx⟩
    rcases hy.lt_or_gt with hneg | hpos
    · rw [abs_of_neg hneg]
      exact lt_of_pos (neg_pos.mpr hneg) hx.neg
    · rw [abs_of_pos hpos]
      exact lt_of_pos hpos hx
  · intro hless
    obtain ⟨x, hx⟩ := RoundsTo.exists_of_pos (two_zpow_pos (lastBit y)) y
    have hbelow : |y| < 2 ^ (1024 : ℤ) := by
      refine lt_of_mul_lt_mul_left (lt_trans ?_ hless) (by norm_num : (0 : ℚ) ≤ 2)
      exact lt_add_of_pos_right _ (by positivity)
    have hbit : (2 : ℚ) ^ lastBit y ≤ 2 ^ 971 := by
      rw [← zpow_natCast]
      exact zpow_le_zpow_right₀ (by norm_num) (lastBit_le hy hbelow)
    have htriangle := abs_sub_abs_le_abs_sub x y
    have hnear := hx.two_mul_abs_le
    rw [abs_sub_comm] at hnear
    refine ⟨x, hx, ?_⟩
    generalize (2 : ℚ) ^ 1024 = top at hless ⊢
    generalize (2 : ℚ) ^ 971 = last at hless hbit
    linarith

end NearestDouble

end Binary

end UnitCalculator
