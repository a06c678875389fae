import UnitCalculator.Decimal.Arithmetic
import UnitCalculator.Proofs.Decimal.Display

/-!
# What rounding to a format yields

A number that fits is kept as it is. A longer one keeps as many digits as the format has, and
differs from the exact number by at most half a unit of the last digit. This holds for quotients as
well, although only the integer part of a multiple of the exact quotient is rounded: the digit that
stands for the rest lies beyond the middle between two neighbours.
-/

namespace UnitCalculator

section

variable (tie : Tie) (n d : Nat)

/-- A rounded quotient is the integer part where the rest is at most half of the divisor, or the
next integer where the rest is at least half of it. -/
theorem divideRounded_cases :
    divideRounded tie n d = n / d ∧ 2 * (n % d) ≤ d ∨
      divideRounded tie n d = n / d + 1 ∧ d ≤ 2 * (n % d) := by
  simp only [divideRounded]
  by_cases hless : 2 * (n % d) < d
  · exact .inl ⟨if_pos hless, hless.le⟩
  · by_cases hmore : d < 2 * (n % d)
    · exact .inr ⟨by rw [if_neg hless, if_pos hmore], hmore.le⟩
    · rw [if_neg hless, if_neg hmore]
      cases tie with
      | awayFromZero => exact .inr ⟨rfl, Nat.not_lt.mp hless⟩
      | toEven =>
        by_cases heven : n / d % 2 = 0
        · exact .inl ⟨if_pos heven, Nat.not_lt.mp hmore⟩
        · exact .inr ⟨if_neg heven, Nat.not_lt.mp hless⟩

/-- Rounding a quotient keeps at least its integer part. -/
theorem div_le_divideRounded : n / d ≤ divideRounded tie n d := by
  rcases divideRounded_cases tie n d with ⟨h, -⟩ | ⟨h, -⟩ <;> omega

/-- A rounded quotient exceeds the exact one by at most half. -/
theorem divideRounded_le_half : 2 * (d * divideRounded tie n d) ≤ 2 * n + d := by
  have hsplit := Nat.div_add_mod n d
  rcases divideRounded_cases tie n d with ⟨h, hr⟩ | ⟨h, hr⟩
  · rw [h]
    omega
  · rw [h, Nat.mul_succ]
    omega

/-- A rounded quotient falls short of the exact one by at most half. -/
theorem half_le_divideRounded {d : Nat} (hd : 0 < d) :
    2 * n ≤ 2 * (d * divideRounded tie n d) + d := by
  have hsplit := Nat.div_add_mod n d
  have hrest := Nat.mod_lt n hd
  rcases divideRounded_cases tie n d with ⟨h, hr⟩ | ⟨h, hr⟩
  · rw [h]
    omega
  · rw [h, Nat.mul_succ]
    omega

end

/-- One digit in place of the rest of a quotient decides rounding at a coarser place like the rest
itself. -/
theorem divideRounded_rest {tie : Tie} {n d half kept : Nat} (hd : 0 < d) (hh : 0 < half)
    (h : kept = divideRounded tie (10 * (n / d) + if n % d == 0 then 0 else 1) (20 * half)) :
    2 * half * kept * d ≤ n + half * d ∧ n ≤ 2 * half * kept * d + half * d := by
  have hupper := divideRounded_le_half tie (10 * (n / d) + if n % d == 0 then 0 else 1) (20 * half)
  have hlower := half_le_divideRounded tie (10 * (n / d) + if n % d == 0 then 0 else 1)
    (show 0 < 20 * half by omega)
  have hsplit := Nat.div_add_mod n d
  have hrest := Nat.mod_lt n hd
  have hmul : 20 * half * kept = 10 * (2 * half * kept) := by
    rw [← Nat.mul_assoc, ← Nat.mul_assoc]
  rw [← h, hmul] at hupper hlower
  rw [← Nat.add_mul]
  constructor
  · have hfloor : 2 * half * kept ≤ n / d + half := by
      split at hupper <;> omega
    calc 2 * half * kept * d ≤ (n / d + half) * d := Nat.mul_le_mul_right d hfloor
      _ = d * (n / d) + half * d := by rw [Nat.add_mul, Nat.mul_comm d]
      _ ≤ n + half * d := by omega
  · split at hlower
    · next hexact =>
      have hzero : n % d = 0 := beq_iff_eq.mp hexact
      have hfloor : n / d ≤ 2 * half * kept + half := by omega
      calc n = n / d * d := by rw [Nat.mul_comm]; omega
        _ ≤ (2 * half * kept + half) * d := Nat.mul_le_mul_right d hfloor
    · have hfloor : n / d + 1 ≤ 2 * half * kept + half := by omega
      calc n ≤ (n / d + 1) * d := by rw [Nat.succ_mul, Nat.mul_comm]; omega
        _ ≤ (2 * half * kept + half) * d := Nat.mul_le_mul_right d hfloor

/-- A bound by half a unit is a bound by half when the unit is left out. -/
theorem double_le_of_half {unit half a b d : Nat} (hpos : 0 < unit) (hhalf : 2 * half = unit)
    (h : unit * a ≤ unit * b + half * d) : 2 * a ≤ 2 * b + d := by
  refine Nat.le_of_mul_le_mul_left ?_ hpos
  calc unit * (2 * a) = 2 * (unit * a) := Nat.mul_left_comm ..
    _ ≤ 2 * (unit * b + half * d) := Nat.mul_le_mul_left 2 h
    _ = unit * (2 * b + d) := by
      rw [Nat.mul_add, Nat.mul_add, Nat.mul_left_comm 2, ← Nat.mul_assoc 2 half, hhalf]

/-- A quotient of which only the integer part and a digit for the rest are rounded is rounded to a
multiple of the unit that no other multiple is nearer than. -/
theorem near_of_divideRounded {tie : Tie} {n d half unit exact kept : Nat} (hd : 0 < d)
    (hh : 0 < half) (hunit : 2 * half = unit) (hn : n = unit * exact)
    (h : kept = divideRounded tie (10 * (n / d) + if n % d == 0 then 0 else 1) (20 * half)) :
    2 * (kept * d) ≤ 2 * exact + d ∧ 2 * exact ≤ 2 * (kept * d) + d := by
  have hpos : 0 < unit := by omega
  have hrest := divideRounded_rest hd hh h
  rw [hunit, hn, Nat.mul_assoc] at hrest
  exact ⟨double_le_of_half hpos hunit hrest.1, double_le_of_half hpos hunit hrest.2⟩

/-- The zeroth power of ten. -/
theorem pow10_zero : pow10 0 = 1 := rfl

/-- A power of ten appends its zeros to a positive number. -/
theorem digitCount_mul_pow10 {n : Nat} (hn : n ≠ 0) (k : Nat) :
    digitCount (n * pow10 k) = digitCount n + k := by
  obtain ⟨fewer, hcount⟩ := Nat.exists_eq_succ_of_ne_zero (Nat.ne_of_gt (digitCount_pos n))
  have hleast := Nat.mul_le_mul_right (pow10 k)
    (pow10_le_of_lt_digitCount hn (hcount ▸ Nat.lt_succ_self fewer))
  have hmost := Nat.mul_lt_mul_of_pos_right (lt_pow10_digitCount n) (pow10_pos k)
  rw [← pow10_add] at hleast hmost
  rw [hcount, Nat.succ_add] at hmost ⊢
  exact digitCount_eq hleast hmost

/-- The integer part of a quotient has as many digits as the length of the dividend exceeds that of
the divisor, or one more. -/
theorem le_quotient_lt {n d k : Nat} (hn : n ≠ 0) (hd : d ≠ 0)
    (h : digitCount n = k + 1 + digitCount d) : pow10 k ≤ n / d ∧ n / d < pow10 (k + 2) := by
  have hpos := Nat.pos_of_ne_zero hd
  constructor
  · have hless := Nat.mul_le_mul_left (pow10 k) (lt_pow10_digitCount d).le
    rw [← pow10_add] at hless
    rw [Nat.le_div_iff_mul_le hpos]
    exact hless.trans (pow10_le_of_lt_digitCount hn (by omega))
  · have hcount := digitCount_pos d
    have hmore := Nat.mul_le_mul_left (pow10 (k + 2))
      (pow10_le_of_lt_digitCount hd (Nat.sub_lt hcount Nat.one_pos))
    have hlast := lt_pow10_digitCount n
    have hsum : k + 2 + (digitCount d - 1) = digitCount n := by omega
    rw [← pow10_add, hsum] at hmore
    rw [Nat.div_lt_iff_lt_mul hpos]
    exact hlast.trans_le hmore

namespace Format

variable {format : Format} {s : Bool}

/-- The product of finite numbers is the rounded product of the coefficients. -/
theorem multiply_finite (s₁ s₂ : Bool) (c₁ c₂ : Nat) (e₁ e₂ : Int) :
    format.multiply (.finite s₁ c₁ e₁) (.finite s₂ c₂ e₂) =
      format.round (s₁ != s₂) (c₁ * c₂) (e₁ + e₂) := rfl

/-- The quotient of finite numbers other than zero is the rounded quotient of the coefficients. -/
theorem divide_finite (s₁ s₂ : Bool) {c₁ c₂ : Nat} (e₁ e₂ : Int) (h₁ : c₁ ≠ 0) (h₂ : c₂ ≠ 0) :
    format.divide (.finite s₁ c₁ e₁) (.finite s₂ c₂ e₂) =
      format.roundQuotient (s₁ != s₂) c₁ c₂ (e₁ - e₂) :=
  (if_neg h₂).trans (if_neg h₁)

section

variable {c places : Nat} {e : Int}

/-- A number that fits is kept. -/
theorem round_of_fits (hc : c ≠ 0) (hd : digitCount c ≤ format.digits) (hl : format.tiny ≤ e)
    (hu : e + digitCount c - 1 ≤ format.top) : format.round s c e = .ok (.finite s c e) := by
  rw [round, if_neg hc, if_pos (by omega), bounded, if_neg (by omega)]

/-- Rounding a number to fewer digits leaves as many, or the next power of ten. -/
theorem divideRounded_bounds (tie : Tie) {kept : Nat} (hc : c ≠ 0) (hf : 0 < kept)
    (hd : digitCount c = kept + places) :
    pow10 (kept - 1) ≤ divideRounded tie c (pow10 places) ∧
      divideRounded tie c (pow10 places) ≤ pow10 kept := by
  constructor
  · refine le_trans ?_ (div_le_divideRounded ..)
    rw [Nat.le_div_iff_mul_le (pow10_pos places), ← pow10_add]
    exact pow10_le_of_lt_digitCount hc (by omega)
  · have hpos := pow10_pos places
    have hless := lt_pow10_digitCount c
    have hhalf := divideRounded_le_half tie c (pow10 places)
    rw [hd, pow10_add] at hless
    have hlast : pow10 places * divideRounded tie c (pow10 places) <
        pow10 places * (pow10 kept + 1) := by
      rw [Nat.mul_succ, Nat.mul_comm (pow10 places) (pow10 kept)]
      omega
    exact Nat.lt_succ_iff.mp (Nat.lt_of_mul_lt_mul_left hlast)

/-- A number with more digits than the format keeps as many as the format has, and starts with a
one when it is rounded up to a power of ten. -/
theorem round_of_longer (hp : 0 < places) (hf : 0 < format.digits)
    (hd : digitCount c = format.digits + places) (hl : format.tiny ≤ e + places)
    (hu : e + digitCount c ≤ format.top) :
    ∃ kept x, format.round s c e = .ok (.finite s kept x) ∧
      pow10 (format.digits - 1) ≤ kept ∧ kept < pow10 format.digits ∧
      (x = e + places ∧ kept = divideRounded .toEven c (pow10 places) ∨
        x = e + places + 1 ∧ 10 * kept = divideRounded .toEven c (pow10 places)) := by
  have hc : c ≠ 0 := by
    rintro rfl
    have hone : digitCount 0 = 1 := rfl
    omega
  have hexcess : max ((digitCount c : Int) - format.digits) (format.tiny - e) = places := by omega
  have hdrop : dropDigits .toEven c places = divideRounded .toEven c (pow10 places) := by
    rw [dropDigits, if_neg (by omega)]
  have hround : format.round s c e =
      if divideRounded .toEven c (pow10 places) = pow10 format.digits then
        format.bounded s (pow10 (format.digits - 1)) (e + places + 1)
      else if divideRounded .toEven c (pow10 places) = 0 then .ok (.finite s 0 (e + places))
      else format.bounded s (divideRounded .toEven c (pow10 places)) (e + places) := by
    rw [round, if_neg hc, hexcess, if_neg (by omega), Int.toNat_natCast, hdrop]
  obtain ⟨hleast, hmost⟩ := divideRounded_bounds .toEven hc hf hd
  have hten : pow10 format.digits = 10 * pow10 (format.digits - 1) := by
    rw [← pow10_succ, Nat.sub_add_cancel hf]
  have hunit := pow10_pos (format.digits - 1)
  rw [hround]
  by_cases hcarry : divideRounded .toEven c (pow10 places) = pow10 format.digits
  · have hcount : digitCount (pow10 (format.digits - 1)) = format.digits := by
      rw [digitCount_pow10, Nat.sub_add_cancel hf]
    refine ⟨pow10 (format.digits - 1), e + places + 1, ?_, le_rfl, by omega,
      .inr ⟨rfl, by rw [hcarry, hten]⟩⟩
    rw [if_pos hcarry, bounded, if_neg (by omega)]
  · have hless := Nat.lt_of_le_of_ne hmost hcarry
    have hcount := (digitCount_le_iff hf).mpr hless
    refine ⟨_, _, ?_, hleast, hless, .inl ⟨rfl, rfl⟩⟩
    rw [if_neg hcarry, if_neg (by omega), bounded, if_neg (by omega)]

end

/-- A rounded quotient has as many digits as the format, and differs from the exact one by at most
half a unit of the last digit. -/
theorem roundQuotient_near (format : Format) (s : Bool) {n d : Nat} {e : Int} (hn : n ≠ 0)
    (hd : d ≠ 0) (hf : 0 < format.digits)
    (hlength : digitCount n + 2 ≤ format.digits + digitCount d)
    (hl : format.tiny + format.digits + digitCount d ≤ e + digitCount n)
    (hu : e + digitCount n + 1 ≤ format.top + digitCount d) :
    ∃ kept m : Nat, format.roundQuotient s n d e = .ok (.finite s kept (e - m)) ∧
      pow10 (format.digits - 1) ≤ kept ∧ kept < pow10 format.digits ∧
      format.digits + digitCount d ≤ m + digitCount n + 2 ∧
      m + digitCount n ≤ format.digits + digitCount d ∧
      2 * (kept * d) ≤ 2 * (n * pow10 m) + d ∧ 2 * (n * pow10 m) ≤ 2 * (kept * d) + d := by
  have hn10 : digitCount (n * pow10 (format.digits + 1 + digitCount d - digitCount n)) =
      format.digits + 1 + digitCount d := by
    rw [digitCount_mul_pow10 hn]
    omega
  generalize hshift : format.digits + 1 + digitCount d - digitCount n = shift at hn10
  generalize hscaled : n * pow10 shift = scaled at hn10
  have hs0 : scaled ≠ 0 := hscaled ▸ Nat.mul_ne_zero hn (pow10_ne_zero shift)
  obtain ⟨hleast, hmost⟩ := le_quotient_lt hs0 hd hn10
  generalize hdigits : (10 * (scaled / d) + if scaled % d == 0 then 0 else 1) = digits
  have hbounds : pow10 (format.digits + 1) ≤ digits ∧ digits < pow10 (format.digits + 3) := by
    rw [pow10_succ format.digits, pow10_succ (format.digits + 2), ← hdigits]
    split <;> omega
  have hmore := lt_digitCount hbounds.1
  have hless := (digitCount_le_iff (Nat.succ_pos _)).mpr hbounds.2
  obtain ⟨places, hplaces⟩ : ∃ places, digitCount digits = format.digits + (places + 2) :=
    ⟨digitCount digits - format.digits - 2, by omega⟩
  obtain ⟨kept, x, hround, hkept, hfits, hx⟩ := round_of_longer (s := s) (e := e - shift - 1)
    (Nat.succ_pos _) hf hplaces (by omega) (by omega)
  have hresult : format.roundQuotient s n d e = .ok (.finite s kept x) := by
    rw [roundQuotient, hshift, hscaled, roundBetween, hdigits]
    exact hround
  have hunit : pow10 (places + 2) = 20 * (5 * pow10 places) := by
    rw [pow10_succ, pow10_succ]
    omega
  generalize hnearest : divideRounded .toEven digits (pow10 (places + 2)) = nearest at hx
  have hdigit : nearest = divideRounded .toEven
      (10 * (scaled / d) + if scaled % d == 0 then 0 else 1) (20 * (5 * pow10 places)) := by
    rw [hdigits, ← hunit, hnearest]
  have hhalf : 2 * (5 * pow10 places) = pow10 (places + 1) := by
    rw [pow10_succ]
    omega
  -- the exact quotient has the unit `10 ^ (places + 1)` in common with the nearest multiple of it
  have hnear : ∀ m, shift = m + (places + 1) →
      2 * (nearest * d) ≤ 2 * (n * pow10 m) + d ∧ 2 * (n * pow10 m) ≤ 2 * (nearest * d) + d := by
    intro m hm
    have hexact : scaled = pow10 (places + 1) * (n * pow10 m) := by
      rw [← hscaled, hm, pow10_add, Nat.mul_comm (pow10 m), Nat.mul_left_comm]
    exact near_of_divideRounded (Nat.pos_of_ne_zero hd)
      (Nat.mul_pos (by decide) (pow10_pos places)) hhalf hexact hdigit
  rcases hx with ⟨hx, rfl⟩ | ⟨hx, hten⟩
  · obtain ⟨m, hm⟩ : ∃ m, shift = m + (places + 1) := ⟨shift - (places + 1), by omega⟩
    have hexponent : x = e - m := by omega
    exact ⟨kept, m, hexponent ▸ hresult, hkept, hfits, by omega, by omega, hnear m hm⟩
  · obtain ⟨m, hm⟩ : ∃ m, shift = m + 1 + (places + 1) := ⟨shift - (places + 2), by omega⟩
    have hexponent : x = e - m := by omega
    obtain ⟨hupper, hlower⟩ := hnear (m + 1) hm
    rw [← hten, pow10_succ, Nat.mul_assoc, Nat.mul_left_comm n] at hupper hlower
    exact ⟨kept, m, hexponent ▸ hresult, hkept, hfits, by omega, by omega, by omega, by omega⟩

end Format

end UnitCalculator
