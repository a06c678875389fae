import Mathlib.Data.Rat.Defs
import Mathlib.Tactic.Ring
import UnitCalculator.Proofs.Decimal.Shown
import UnitCalculator.Proofs.Quantity.Display

/-!
# Powers of dimensions

A quantity with a dimension can be raised to a power that becomes integral when it is multiplied by
a small denominator and rounded. A rounded quotient of integers need not: the product has to have
more digits than the format, so that the rounding error is rounded away.
-/

namespace UnitCalculator.Quantity

open Decimal

/-- One to a finite power is one, in whatever form it is given. -/
theorem powerOf_one {value : Decimal} (h : value.isEqual (.ofNat 1) = .ok true) (s : Bool) (c : Nat)
    (e : Int) : powerOf value (.finite s c e) = .ok (.ofNat 1) := by
  obtain ⟨t, rfl⟩ := eq_of_isEqual_one h
  have hc := pow10_ne_zero t
  have hless : (finite false (pow10 t) (-(t : Int))).isLess (.ofNat 0) = .ok false := by
    simp [isLess, compare?, ofNat, compareFinite, hc]
  have hzero : (finite false (pow10 t) (-(t : Int))).isZero = false := by
    simp [isZero, hc]
  have hreduced : (finite false (pow10 t) (-(t : Int))).reduced = .finite false 1 0 := by
    have hform := reduced_mul_pow10 false (-(t : Int)) t (show 1 % 10 ≠ 0 by decide)
    rwa [Nat.one_mul, Int.add_left_neg] at hform
  obtain ⟨m, f, hb⟩ := exists_reduced s c e
  have hfinite : working.finitePower false (.finite false (pow10 t) (-(t : Int))) (.finite s c e) =
      .ok (.ofNat 1) := by
    rw [Format.finitePower, hreduced, hb]
    exact (if_pos (.inr ⟨rfl, rfl⟩)).trans rfl
  have hpower : working.power (.finite false (pow10 t) (-(t : Int))) (.finite s c e) =
      .ok (.ofNat 1) := by
    rw [Format.power]
    simp only [Format.nanResult?, Format.powerSign, hzero, isNegative, Bool.false_and,
      Bool.false_eq_true, if_false, isFinite, if_true]
    exact hfinite
  rw [powerOf, hless, hzero, hpower]
  rfl

section

variable {exponent : Decimal} {fuel degree : Nat}

/-- The fraction that an exponent means is taken from the first integral product, if the products
are finite. -/
theorem fractionFrom_cases
    (hs : ∀ j, degree ≤ j → j < degree + fuel →
      ∃ s c e, working.multiply exponent (.ofNat j) = .ok (.finite s c e)) :
    (∃ j s c e, degree ≤ j ∧ j < degree + fuel ∧
      working.multiply exponent (.ofNat j) = .ok (.finite s c e) ∧ integral c e = true ∧
      fractionFrom exponent fuel degree = .ok (some (mkRat (truncate (.finite s c e)) j))) ∨
    fractionFrom exponent fuel degree = .ok none ∧
      ∀ j s c e, degree ≤ j → j < degree + fuel →
        working.multiply exponent (.ofNat j) = .ok (.finite s c e) → integral c e = false := by
  induction fuel generalizing degree with
  | zero => exact .inr ⟨rfl, fun j _ _ _ hl hu => by omega⟩
  | succ fuel ih =>
    obtain ⟨s, c, e, hproduct⟩ := hs degree le_rfl (by omega)
    have hstep : fractionFrom exponent (fuel + 1) degree =
        if integral c e then .ok (some (mkRat (truncate (.finite s c e)) degree))
        else fractionFrom exponent fuel (degree + 1) := by
      rw [fractionFrom, hproduct]
      change (if integral c e then _ else _ : Outcome (Option Rat)) = _
      rfl
    rw [hstep]
    cases hi : integral c e with
    | true => exact .inl ⟨degree, s, c, e, le_rfl, by omega, hproduct, hi, rfl⟩
    | false =>
      have hnext : ∀ j, degree + 1 ≤ j → j < degree + 1 + fuel →
          ∃ s c e, working.multiply exponent (.ofNat j) = .ok (.finite s c e) :=
        fun j hl hu => hs j (by omega) (by omega)
      rcases ih hnext with ⟨j, s', c', e', hl, hu, hp, hj, hf⟩ | ⟨hf, hn⟩
      · exact .inl ⟨j, s', c', e', by omega, by omega, hp, hj, hf⟩
      · refine .inr ⟨hf, fun j s' c' e' hl hu hp => ?_⟩
        rcases Nat.eq_or_lt_of_le hl with rfl | hl
        · cases Except.ok.inj (hproduct.symm.trans hp)
          exact hi
        · exact hn j s' c' e' hl (by omega) hp

end

/-- A number of one hundred digits with its point at one place is the quotient of two naturals,
rounded. -/
structure IsQuotient (a i n m : Nat) : Prop where
  digits : pow10 99 ≤ n ∧ n < pow10 100
  places : 49 ≤ m ∧ m ≤ 101
  upper : 2 * (n * i) ≤ 2 * (a * pow10 m) + i
  lower : 2 * (a * pow10 m) ≤ 2 * (n * i) + i

/-- The quotient of an integer and a small divisor. -/
theorem exists_divide {k : Int} {i : Nat} (hk : k.natAbs < pow10 50) (hz : k ≠ 0) (hl : 1 ≤ i)
    (hu : i ≤ 9) :
    ∃ n m : Nat, working.divide (.ofInt k) (.ofNat i) = .ok (.finite (k < 0) n (-(m : Int))) ∧
      IsQuotient k.natAbs i n m := by
  have hcount : digitCount k.natAbs ≤ 50 := (digitCount_le_iff (by decide)).mpr hk
  have hpos := digitCount_pos k.natAbs
  have hone : digitCount i = 1 := digitCount_eq (k := 0) hl (hu.trans_lt (by decide))
  have hnz : k.natAbs ≠ 0 := Int.natAbs_ne_zero.mpr hz
  have hi : i ≠ 0 := Nat.ne_of_gt hl
  obtain ⟨hdigits, htop, htiny⟩ := working_bounds
  obtain ⟨n, m, hquotient, hleast, hmost, hfew, hmany, hupper, hlower⟩ :=
    working.roundQuotient_near (k < 0) (e := 0) hnz hi (by decide) (by omega) (by omega)
      (by omega)
  refine ⟨n, m, ?_, ⟨hleast, hmost⟩, ⟨by omega, by omega⟩, hupper, hlower⟩
  rw [Int.zero_sub] at hquotient
  rw [ofInt, ofNat, Format.divide_finite _ _ _ _ hnz hi, Bool.bne_false, Int.sub_zero]
  exact hquotient

namespace IsQuotient

variable {a i n m j : Nat}

/-- A multiple of a rounded quotient that is rounded to an integer is that multiple of the exact
quotient. -/
theorem mul_eq_of_near (h : IsQuotient a i n m) (hi : i ≤ 9) (hj : j ≤ 9) {z : Nat}
    (hupper : z * pow10 m ≤ n * j + 5) (hlower : n * j ≤ z * pow10 m + 5) : z * i = a * j := by
  have hunit : pow10 3 ≤ pow10 m := pow10_le_pow10 (by have := h.places; omega)
  have hten : pow10 3 = 1000 := rfl
  have hproduct : i * j ≤ 9 * 9 := Nat.mul_le_mul hi hj
  have hmore : 2 * (z * i * pow10 m) ≤ 2 * (a * j * pow10 m) + (i * j + 10 * i) :=
    calc 2 * (z * i * pow10 m) = 2 * (z * pow10 m) * i := by ring
      _ ≤ 2 * (n * j + 5) * i := by gcongr
      _ = 2 * (n * i) * j + 10 * i := by ring
      _ ≤ (2 * (a * pow10 m) + i) * j + 10 * i := by
        gcongr
        exact h.upper
      _ = 2 * (a * j * pow10 m) + (i * j + 10 * i) := by ring
  have hless : 2 * (a * j * pow10 m) ≤ 2 * (z * i * pow10 m) + (i * j + 10 * i) :=
    calc 2 * (a * j * pow10 m) = 2 * (a * pow10 m) * j := by ring
      _ ≤ (2 * (n * i) + i) * j := by
        gcongr
        exact h.lower
      _ = 2 * (n * j) * i + i * j := by ring
      _ ≤ 2 * (z * pow10 m + 5) * i + i * j := by gcongr
      _ = 2 * (z * i * pow10 m) + (i * j + 10 * i) := by ring
  rcases Nat.lt_trichotomy (z * i) (a * j) with hlt | heq | hgt
  · have hstep := Nat.mul_le_mul_right (pow10 m) (Nat.succ_le_of_lt hlt)
    rw [Nat.succ_mul] at hstep
    omega
  · exact heq
  · have hstep := Nat.mul_le_mul_right (pow10 m) (Nat.succ_le_of_lt hgt)
    rw [Nat.succ_mul] at hstep
    omega

/-- Where the exact multiple is an integer, the multiple of a rounded quotient differs from it by
less than half of the next place. -/
theorem near_of_dvd (h : IsQuotient a i n m) (hi : 0 < i) (hj : j ≤ 9) {z : Nat}
    (hz : a * j = i * z) : n * j ≤ z * pow10 m + 4 ∧ z * pow10 m ≤ n * j + 4 := by
  have hmore : 2 * (n * j) ≤ 2 * (z * pow10 m) + j := by
    refine Nat.le_of_mul_le_mul_left ?_ hi
    calc i * (2 * (n * j)) = 2 * (n * i) * j := by ring
      _ ≤ (2 * (a * pow10 m) + i) * j := by
        gcongr
        exact h.upper
      _ = 2 * (a * j * pow10 m) + i * j := by ring
      _ = i * (2 * (z * pow10 m) + j) := by
        rw [hz]
        ring
  have hless : 2 * (z * pow10 m) ≤ 2 * (n * j) + j := by
    refine Nat.le_of_mul_le_mul_left ?_ hi
    calc i * (2 * (z * pow10 m)) = 2 * (a * j * pow10 m) := by
          rw [hz]
          ring
      _ = 2 * (a * pow10 m) * j := by ring
      _ ≤ (2 * (n * i) + i) * j := by
        gcongr
        exact h.lower
      _ = i * (2 * (n * j) + j) := by ring
  omega

/-- A product with a digit is kept if it has no more digits than the format. -/
theorem multiply_of_short (h : IsQuotient a i n m) (s : Bool) (hl : 1 ≤ j)
    (hshort : n * j < pow10 100) :
    working.multiply (.finite s n (-(m : Int))) (.ofNat j) =
      .ok (.finite s (n * j) (-(m : Int))) := by
  have hn : 0 < n := (pow10_pos 99).trans_le h.digits.1
  have hcount : digitCount (n * j) ≤ 100 := (digitCount_le_iff (by decide)).mpr hshort
  obtain ⟨-, htop, htiny⟩ := working_bounds
  have hplaces := h.places
  rw [ofNat, Format.multiply_finite, Bool.bne_false, Int.add_zero]
  exact Format.round_of_fits (Nat.ne_of_gt (Nat.mul_pos hn hl)) hcount (by omega) (by omega)

/-- A product with a digit that is one digit longer than the format is rounded to a multiple of
ten. -/
theorem multiply_of_long (h : IsQuotient a i n m) (s : Bool) (hu : j ≤ 9)
    (hlong : pow10 100 ≤ n * j) :
    ∃ kept, working.multiply (.finite s n (-(m : Int))) (.ofNat j) =
        .ok (.finite s kept (-((m - 1 : Nat) : Int))) ∧
      10 * kept ≤ n * j + 5 ∧ n * j ≤ 10 * kept + 5 := by
  have hmul : n * j ≤ n * 9 := Nat.mul_le_mul_left n hu
  have hdigits := h.digits
  have hplaces := h.places
  have hten : pow10 100 = 10 * pow10 99 := pow10_succ 99
  have hnext : pow10 101 = 10 * pow10 100 := pow10_succ 100
  have hless : n * j < pow10 101 := by omega
  have hcount : digitCount (n * j) = working.digits + 1 := digitCount_eq hlong hless
  obtain ⟨hworking, htop, htiny⟩ := working_bounds
  have hupper := divideRounded_le_half .toEven (n * j) (pow10 1)
  have hlower := half_le_divideRounded .toEven (n * j) (pow10_pos 1)
  have hone : pow10 1 = 10 := rfl
  rw [hone] at hupper hlower
  obtain ⟨kept, x, hround, hleast, -, ⟨hx, hkept⟩ | ⟨-, hcarry⟩⟩ :=
    Format.round_of_longer (s := s) (e := -(m : Int)) Nat.one_pos (by decide) hcount (by omega)
      (by omega)
  · rw [hone] at hkept
    refine ⟨kept, ?_, by omega, by omega⟩
    have hexponent : x = -((m - 1 : Nat) : Int) := by omega
    rw [ofNat, Format.multiply_finite, Bool.bne_false, Int.add_zero, hround, hexponent]
  · have hleast' : pow10 99 ≤ kept := hleast
    rw [hone] at hcarry
    omega

/-- What the product of a rounded quotient and a digit says about the multiple of the exact one: it
is integral where this is an integer that the rounding error does not hide, and then it is this
integer. -/
structure IsProduct (a i n m j : Nat) (s : Bool) (c : Nat) (e : Int) : Prop where
  multiply : working.multiply (.finite s n (-(m : Int))) (.ofNat j) = .ok (.finite s c e)
  integral_iff : integral c e = true ↔ i ∣ a * j ∧ (n * i = a * pow10 m ∨ pow10 100 ≤ n * j)
  truncate : integral c e = true → ∃ z : Nat, z * i = a * j ∧
    truncate (.finite s c e) = if s then -(z : Int) else z

/-- A product that is kept is integral only if the quotient is exact. -/
theorem isProduct_of_short (h : IsQuotient a i n m) (s : Bool) (hi : 1 ≤ i) (hi9 : i ≤ 9)
    (hl : 1 ≤ j) (hu : j ≤ 9) (hshort : n * j < pow10 100) :
    IsProduct a i n m j s (n * j) (-(m : Int)) := by
  have hvalue : integral (n * j) (-(m : Int)) = true →
      ∃ z, n * j = z * pow10 m ∧ z * i = a * j := by
    intro hwhole
    obtain ⟨z, hz⟩ := integral_neg_iff.mp hwhole
    rw [Nat.mul_comm (pow10 m)] at hz
    exact ⟨z, hz, h.mul_eq_of_near hi9 hu (by omega) (by omega)⟩
  refine ⟨h.multiply_of_short s hl hshort, ⟨fun hwhole => ?_, ?_⟩, fun hwhole => ?_⟩
  · obtain ⟨z, hz, hzi⟩ := hvalue hwhole
    refine ⟨⟨z, by rw [← hzi, Nat.mul_comm]⟩, .inl (Nat.eq_of_mul_eq_mul_right hl ?_)⟩
    calc n * i * j = n * j * i := Nat.mul_right_comm ..
      _ = z * i * pow10 m := by rw [hz, Nat.mul_right_comm]
      _ = a * pow10 m * j := by rw [hzi, Nat.mul_right_comm]
  · rintro ⟨⟨z, hz⟩, hexact | hlong⟩
    · refine integral_neg_iff.mpr ⟨z, Nat.eq_of_mul_eq_mul_right hi ?_⟩
      calc n * j * i = a * j * pow10 m := by rw [Nat.mul_right_comm, hexact, Nat.mul_right_comm]
        _ = pow10 m * z * i := by
          rw [hz]
          ring
    · exact absurd hshort (Nat.not_lt.mpr hlong)
  · obtain ⟨z, hz, hzi⟩ := hvalue hwhole
    exact ⟨z, hzi, by rw [hz, truncate_mul_pow10]⟩

/-- A product that is rounded is integral if the multiple of the exact quotient is an integer: the
rounding error is less than half of the digit that falls away. -/
theorem exists_isProduct_of_long (h : IsQuotient a i n m) (s : Bool) (hi : 1 ≤ i) (hi9 : i ≤ 9)
    (hu : j ≤ 9) (hlong : pow10 100 ≤ n * j) : ∃ c e, IsProduct a i n m j s c e := by
  obtain ⟨kept, hproduct, hupper, hlower⟩ := h.multiply_of_long s hu hlong
  have hunit : pow10 m = 10 * pow10 (m - 1) := by
    rw [← pow10_succ, Nat.sub_add_cancel (by have := h.places; omega)]
  have hten : ∀ z, z * pow10 m = 10 * (z * pow10 (m - 1)) := by
    intro z
    rw [hunit, Nat.mul_left_comm]
  have hvalue : integral kept (-((m - 1 : Nat) : Int)) = true →
      ∃ z, kept = z * pow10 (m - 1) ∧ z * i = a * j := by
    intro hwhole
    obtain ⟨z, hz⟩ := integral_neg_iff.mp hwhole
    rw [Nat.mul_comm] at hz
    have hkept := hten z
    exact ⟨z, hz, h.mul_eq_of_near hi9 hu (by omega) (by omega)⟩
  refine ⟨kept, -((m - 1 : Nat) : Int), hproduct, ⟨fun hwhole => ?_, ?_⟩, fun hwhole => ?_⟩
  · obtain ⟨z, -, hzi⟩ := hvalue hwhole
    exact ⟨⟨z, by rw [← hzi, Nat.mul_comm]⟩, .inr hlong⟩
  · rintro ⟨⟨z, hz⟩, -⟩
    obtain ⟨hmore, hless⟩ := h.near_of_dvd hi hu hz
    have hkept := hten z
    refine integral_neg_iff.mpr ⟨z, ?_⟩
    rw [Nat.mul_comm]
    omega
  · obtain ⟨z, hz, hzi⟩ := hvalue hwhole
    exact ⟨z, hzi, by rw [hz, truncate_mul_pow10]⟩

/-- Every product of a rounded quotient and a digit is finite and tells about the multiple of the
exact quotient. -/
theorem exists_isProduct (h : IsQuotient a i n m) (s : Bool) (hi : 1 ≤ i) (hi9 : i ≤ 9)
    (hl : 1 ≤ j) (hu : j ≤ 9) : ∃ c e, IsProduct a i n m j s c e := by
  rcases Nat.lt_or_ge (n * j) (pow10 100) with hshort | hlong
  · exact ⟨_, _, h.isProduct_of_short s hi hi9 hl hu hshort⟩
  · exact h.exists_isProduct_of_long s hi hi9 hu hlong

end IsQuotient

/-- An integer quotient of small integers whose rounding is not in the way of a power: it is exact,
or a small multiple is an integer of which the rounded quotient has more digits than the format. -/
def Admits (k : Int) (i n m : Nat) : Prop :=
  n * i = k.natAbs * pow10 m ∨
    ∃ j ≤ greatestDegree, i ∣ k.natAbs * j ∧ working.digits < digitCount (n * j)

instance (k : Int) (i n m : Nat) : Decidable (Admits k i n m) :=
  inferInstanceAs (Decidable (_ ∨ ∃ j, j ≤ greatestDegree ∧ _))

example : Admits 1 3 (pow10 100 / 3) 100 := by decide +kernel

/-- A fraction does not depend on how it is written, its sign in front. -/
theorem mkRat_signed {k : Int} {i j z : Nat} (hi : 1 ≤ i) (hj : 1 ≤ j) (h : z * i = k.natAbs * j) :
    mkRat (if decide (k < 0) then -(z : Int) else z) j = mkRat k i := by
  have hcast : (z : Int) * i = k.natAbs * j := by exact_mod_cast h
  rw [Rat.mkRat_eq_iff (Nat.ne_of_gt hj) (Nat.ne_of_gt hi)]
  by_cases hk : k < 0
  · have habs : (k.natAbs : Int) = -k := by omega
    rw [decide_eq_true hk, if_pos rfl, Int.neg_mul, hcast, habs, Int.neg_mul, Int.neg_neg]
  · have habs : (k.natAbs : Int) = k := by omega
    rw [decide_eq_false hk, if_neg Bool.false_ne_true, hcast, habs]

/-- The fraction that a rounded quotient means is the exact quotient, if it means any. -/
theorem fractionOf_quotient {k : Int} {i n m : Nat} (h : IsQuotient k.natAbs i n m) (hl : 1 ≤ i)
    (hu : i ≤ 9) :
    fractionOf? (.finite (k < 0) n (-(m : Int))) = .ok (some (mkRat k i)) ∧ Admits k i n m ∨
      fractionOf? (.finite (k < 0) n (-(m : Int))) = .ok none ∧ ¬ Admits k i n m := by
  have hproduct : ∀ j, 1 ≤ j → j < 1 + greatestDegree → ∃ c e,
      IsQuotient.IsProduct k.natAbs i n m j (k < 0) c e :=
    fun j hj hj9 => h.exists_isProduct (k < 0) hl hu hj (by rw [greatestDegree] at hj9; omega)
  have hs : ∀ j, 1 ≤ j → j < 1 + greatestDegree → ∃ s c e,
      working.multiply (.finite (k < 0) n (-(m : Int))) (.ofNat j) = .ok (.finite s c e) := by
    intro j hj hj9
    obtain ⟨c, e, hp⟩ := hproduct j hj hj9
    exact ⟨_, c, e, hp.multiply⟩
  rcases fractionFrom_cases hs with ⟨j, s, c, e, hj, hj9, hp, hwhole, hf⟩ | ⟨hf, hnone⟩
  · obtain ⟨c', e', hp'⟩ := hproduct j hj hj9
    cases Except.ok.inj (hp.symm.trans hp'.multiply)
    obtain ⟨z, hz, htruncate⟩ := hp'.truncate hwhole
    obtain ⟨hdvd, hway⟩ := hp'.integral_iff.mp hwhole
    refine .inl ⟨?_, hway.imp id fun hlong => ⟨j, by omega, hdvd, lt_digitCount hlong⟩⟩
    rw [fractionOf?, hf, htruncate, mkRat_signed hl hj hz]
  · refine .inr ⟨hf, ?_⟩
    have hnot : ∀ j, 1 ≤ j → j ≤ 9 → i ∣ k.natAbs * j →
        ¬ (n * i = k.natAbs * pow10 m ∨ pow10 100 ≤ n * j) := by
      intro j hj hj9 hdvd hway
      have hj10 : j < 1 + greatestDegree := by rw [greatestDegree]; omega
      obtain ⟨c, e, hp⟩ := hproduct j hj hj10
      have hfalse := hnone j _ c e hj hj10 hp.multiply
      rw [hp.integral_iff.mpr ⟨hdvd, hway⟩] at hfalse
      cases hfalse
    rintro (hexact | ⟨j, hj9, hdvd, hlong⟩)
    · exact hnot i hl hu (Nat.dvd_mul_left ..) (.inl hexact)
    · have hj : n * j ≠ 0 := by
        intro hzero
        rw [hzero] at hlong
        exact absurd hlong (by decide)
      exact hnot j (Nat.pos_of_ne_zero (Nat.ne_zero_of_mul_ne_zero_right hj)) hj9 hdvd
        (.inr (pow10_le_of_lt_digitCount hj hlong))

/-- The quotient of an integer and a small divisor means its exact value exactly if rounding admits
it. -/
theorem exists_divide_fractionOf {k : Int} {i : Nat} (hk : k.natAbs < pow10 50) (hl : 1 ≤ i)
    (hu : i ≤ 9) :
    ∃ n m : Nat, working.divide (.ofInt k) (.ofNat i) = .ok (.finite (k < 0) n (-(m : Int))) ∧
      (fractionOf? (.finite (k < 0) n (-(m : Int))) = .ok (some (mkRat k i)) ∧ Admits k i n m ∨
        fractionOf? (.finite (k < 0) n (-(m : Int))) = .ok none ∧ ¬ Admits k i n m) ∧
      (finite (k < 0) n (-(m : Int))).IsShown 6 := by
  by_cases hz : k = 0
  · subst hz
    have hdivide : working.divide (.ofInt 0) (.ofNat i) = .ok (.finite false 0 0) :=
      (if_neg (Nat.ne_of_gt hl)).trans (if_pos rfl)
    refine ⟨0, 0, hdivide, .inl ⟨?_, .inl (Nat.zero_mul i)⟩, .inl rfl⟩
    rw [Rat.zero_mkRat]
    rfl
  · obtain ⟨n, m, hquotient, h⟩ := exists_divide hk hz hl hu
    refine ⟨n, m, hquotient, fractionOf_quotient h hl hu, ?_⟩
    have hcount : digitCount n = 100 := digitCount_eq h.digits.1 h.digits.2
    have hleading := adjusted_finite (k < 0) n (-(m : Int))
    obtain ⟨-, htop, -⟩ := working_bounds
    obtain ⟨hleast, -, -⟩ := unit_bounds
    have hplaces := h.places
    exact .inr ⟨by omega, .inl (by omega)⟩

/-- A quantity with a dimension is raised to a number by the fraction that the number means. -/
theorem pow_of_some {q : Quantity} (hd : q.isDimensionless = false) {exponent value : Decimal}
    {fraction : Rat} (hf : fractionOf? exponent = .ok (some fraction))
    (hp : powerOf q.value exponent = .ok value) :
    q.pow (.number exponent) = .ok (.of value (q.dimension.multiply fraction)) := by
  have hone : requireDimensionless (number exponent) = .ok () := rfl
  rw [pow, hone, hd]
  refine bind_eq_ok_iff.mpr ⟨(), rfl, bind_eq_ok_iff.mpr ⟨_, hf, ?_⟩⟩
  exact bind_eq_ok_iff.mpr ⟨value, hp, rfl⟩

/-- An integer means itself. -/
theorem fractionOf?_ofInt {k : Int} (hk : k.natAbs < pow10 100) :
    fractionOf? (.ofInt k) = .ok (some (k : Rat)) := by
  have hproduct : working.multiply (.ofInt k) (.ofNat 1) = .ok (.ofInt k) :=
    (fits_zero hk).multiply_one (k < 0)
  have hvalue : truncate (.ofInt k) = k := by
    have hmagnitude := truncate_mul_pow10 (k < 0) k.natAbs 0
    rw [pow10_zero, Nat.mul_one] at hmagnitude
    refine hmagnitude.trans ?_
    by_cases hneg : k < 0
    · rw [decide_eq_true hneg, if_pos rfl]
      omega
    · rw [decide_eq_false hneg, if_neg Bool.false_ne_true]
      omega
  have hfirst : fractionOf? (.ofInt k) = .ok (some (mkRat (truncate (.ofInt k)) 1)) := by
    rw [fractionOf?, greatestDegree, fractionFrom, hproduct]
    rfl
  rw [hfirst, hvalue, Rat.mkRat_one]

/-- A unit with a dimension is raised to an integer. -/
theorem pow_ofInt {d : Dimension} (hd : d.isOne = false) {k : Int} (hk : k.natAbs < pow10 100) :
    (of (.ofNat 1) d).pow (.number (.ofInt k)) = .ok (.of (.ofNat 1) (d.multiply k)) := by
  have hdimension : (of (.ofNat 1) d).isDimensionless = false := hd
  exact pow_of_some hdimension (fractionOf?_ofInt hk) (powerOf_one rfl _ _ _)

/-- A quantity with a dimension does not fit a number that means no fraction. -/
theorem pow_of_none {q : Quantity} (hd : q.isDimensionless = false) {exponent : Decimal}
    {shown : String} (hf : fractionOf? exponent = .ok none)
    (hs : exponent.display defaultFigures = .ok shown) :
    q.pow (.number exponent) = mismatch q.dimension (.ok ("power " ++ shown)) := by
  have hone : requireDimensionless (number exponent) = .ok () := rfl
  have hpower : (do return "power " ++ (← ofSignal (exponent.display defaultFigures)) :
      Outcome String) = .ok ("power " ++ shown) := by
    rw [hs]
    rfl
  have hexponent : (number exponent).value = exponent := rfl
  rw [pow, hone, hd, hexponent, hf, ← hpower]
  simp only [bind, Except.bind, Bool.false_eq_true, if_false]

/-- A quotient of integers, rounded, raises a quantity that equals one and has a dimension exactly
to the exact quotient, unless its rounding is in the way: then the dimension and the power do not
fit. -/
theorem pow_quotient_spec {q : Quantity} {k : Int} {i : Nat} (hk : k.natAbs < pow10 50)
    (hl : 1 ≤ i) (hu : i ≤ 9) (hd : q.isDimensionless = false)
    (hv : q.value.isEqual (.ofNat 1) = .ok true) :
    ∃ n m : Nat, working.divide (.ofInt k) (.ofNat i) = .ok (.finite (k < 0) n (-(m : Int))) ∧
      (Admits k i n m → q.pow (.number (.finite (k < 0) n (-(m : Int)))) =
        .ok (.of (.ofNat 1) (q.dimension.multiply (mkRat k i)))) ∧
      (¬ Admits k i n m → ∃ shown,
        (finite (k < 0) n (-(m : Int))).display defaultFigures = .ok shown ∧
        q.pow (.number (.finite (k < 0) n (-(m : Int)))) =
          mismatch q.dimension (.ok ("power " ++ shown))) := by
  obtain ⟨n, m, hquotient, hfraction, hshown⟩ := exists_divide_fractionOf hk hl hu
  obtain ⟨shown, hdisplay⟩ := (exists_display_iff (by decide) (by decide)).mpr hshown
  refine ⟨n, m, hquotient, fun hadmits => ?_, fun hnot => ⟨shown, hdisplay, ?_⟩⟩
  · have hf := (hfraction.resolve_right fun h => h.2 hadmits).1
    exact pow_of_some hd hf (powerOf_one hv _ _ _)
  · have hf := (hfraction.resolve_left fun h => hnot h.2).1
    exact pow_of_none hd hf hdisplay

/-- A metre cannot be raised to the rounded quotient of ten and nine. -/
theorem pow_quotient_spec_tenNinths :
    let metre := of (.ofNat 1) { Dimension.one with length := 1 }
    ((10 : Int).natAbs < pow10 50 ∧ metre.isDimensionless = false ∧
      metre.value.isEqual (.ofNat 1) = .ok true) ∧
    ∃ exponent, working.divide (.ofInt 10) (.ofNat 9) = .ok exponent ∧
      metre.pow (.number exponent) = .error (.of (.incompatible "m" "power 1.11111")) := by
  have hk : (10 : Int).natAbs < pow10 50 := by decide +kernel
  have hd : (of (.ofNat 1) { Dimension.one with length := 1 }).isDimensionless = false := by
    decide +kernel
  have hv : (of (.ofNat 1) { Dimension.one with length := 1 }).value.isEqual (.ofNat 1) =
      .ok true := by
    decide +kernel
  refine ⟨⟨hk, hd, hv⟩, ?_⟩
  obtain ⟨n, m, hquotient, -, hnot⟩ := pow_quotient_spec (i := 9) hk (by decide) (by decide) hd hv
  have hvalue : working.divide (.ofInt 10) (.ofNat 9) =
      .ok (.finite false (pow10 100 / 9) (-99)) := by
    decide +kernel
  obtain ⟨-, rfl, hplaces⟩ := Decimal.finite.inj (Except.ok.inj (hquotient.symm.trans hvalue))
  obtain rfl : m = 99 := by omega
  obtain ⟨shown, hdisplay, hpow⟩ := hnot (by decide +kernel)
  obtain rfl : shown = "1.11111" := Except.ok.inj (hdisplay.symm.trans (by decide +kernel))
  exact ⟨_, hquotient, hpow.trans (by decide +kernel)⟩

end UnitCalculator.Quantity
