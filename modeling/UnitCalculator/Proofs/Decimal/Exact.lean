import UnitCalculator.Proofs.Decimal.Alike
import UnitCalculator.Proofs.Decimal.Significant

/-!
# Exact results

A format has the rational numbers that are an integer of no more digits than the format times a
power of ten within its bounds. Sums, products, quotients and square roots whose exact value the
format has are exact, whatever forms the operands are given in.
-/

namespace UnitCalculator

/-- Of two forms of one value, the one with the lower exponent has the coefficient of the other one
with zeros behind it. -/
theorem eq_mul_pow10_of_le {c m : Nat} {e f : Int} (h : (c : ℚ) * 10 ^ e = m * 10 ^ f)
    (hle : e ≤ f) : c = m * pow10 (f - e).toNat := by
  have hsplit : (10 : ℚ) ^ f = (pow10 (f - e).toNat : Nat) * 10 ^ e := by
    rw [cast_pow10, ← zpow_natCast, ← ten_zpow_add]
    congr 1
    omega
  rw [hsplit, ← mul_assoc] at h
  exact_mod_cast mul_right_cancel₀ (ten_zpow_pos e).ne' h

/-- Of two forms of one value, the one with the larger coefficient has the lower exponent. -/
theorem eq_mul_pow10_of_lt {c m : Nat} {e f : Int} (h : (c : ℚ) * 10 ^ e = m * 10 ^ f)
    (hlt : m < c) : e ≤ f ∧ c = m * pow10 (f - e).toNat := by
  rcases Int.le_total e f with hle | hge
  · exact ⟨hle, eq_mul_pow10_of_le h hle⟩
  · have hmore := eq_mul_pow10_of_le h.symm hge
    have hself := Nat.le_mul_of_pos_right c (pow10_pos (e - f).toNat)
    omega

/-- The coefficient of a quotient, extended by zeros, is a multiple of the divisor. -/
theorem scaled_quotient {n d m shift : Nat} {e₁ e₂ f : Int} (hd : d ≠ 0)
    (h : (n : ℚ) * 10 ^ e₁ / (d * 10 ^ e₂) = m * 10 ^ f) :
    ((n * pow10 shift : Nat) : ℚ) * 10 ^ (e₁ - e₂ - shift) = (m * d : Nat) * 10 ^ f := by
  have hten := (ten_zpow_pos e₂).ne'
  have hexponent : (pow10 shift : ℚ) * 10 ^ (e₁ - e₂ - shift) * 10 ^ e₂ = 10 ^ e₁ := by
    rw [cast_pow10, ← zpow_natCast, ← ten_zpow_add, ← ten_zpow_add]
    congr 1
    omega
  rw [div_eq_iff (mul_ne_zero (Nat.cast_ne_zero.mpr hd) hten)] at h
  refine mul_right_cancel₀ hten ?_
  calc ((n * pow10 shift : Nat) : ℚ) * 10 ^ (e₁ - e₂ - shift) * 10 ^ e₂
      = n * (pow10 shift * 10 ^ (e₁ - e₂ - shift) * 10 ^ e₂) := by push_cast; ring
    _ = m * 10 ^ f * (d * 10 ^ e₂) := by rw [hexponent, h]
    _ = (m * d : Nat) * 10 ^ f * 10 ^ e₂ := by push_cast; ring

/-- The coefficient of a square, extended by zeros to an even exponent, is a square. -/
theorem scaled_square {c m shift : Nat} {e half f : Int} (hhalf : e - shift = 2 * half)
    (h : (c : ℚ) * 10 ^ e = m * 10 ^ f * (m * 10 ^ f)) :
    ((c * pow10 shift : Nat) : ℚ) * 10 ^ (2 * half) = (m * m : Nat) * 10 ^ (2 * f) := by
  have hexponent : (pow10 shift : ℚ) * 10 ^ (2 * half) = 10 ^ e := by
    rw [cast_pow10, ← zpow_natCast, ← ten_zpow_add]
    congr 1
    omega
  calc ((c * pow10 shift : Nat) : ℚ) * 10 ^ (2 * half)
      = c * (pow10 shift * 10 ^ (2 * half)) := by push_cast; ring
    _ = m * 10 ^ f * (m * 10 ^ f) := by rw [hexponent, h]
    _ = (m * m : Nat) * 10 ^ (2 * f) := by rw [two_mul f, ten_zpow_add]; push_cast; ring

namespace Decimal

/-- A finite number stands for a rational number. -/
structure StandsFor (d : Decimal) (x : ℚ) : Prop where
  finite : d.isFinite = true
  value : d.toRat = x

section

variable {d : Decimal} {x : ℚ}

/-- A number that stands for a rational number has a coefficient and an exponent. -/
theorem StandsFor.exists_eq (h : d.StandsFor x) :
    ∃ s c e, d = .finite s c e ∧ toRat (.finite s c e) = x := by
  cases d with
  | finite s c e => exact ⟨s, c, e, rfl, h.value⟩
  | infinity s => cases h.finite
  | nan s signaling payload => cases h.finite

/-- A natural number stands for itself. -/
theorem standsFor_ofNat (n : Nat) : (ofNat n).StandsFor n := ⟨rfl, by simp [ofNat, toRat]⟩

end

/-- A coefficient with the sign of its number. -/
def signed (s : Bool) (c : Nat) : ℤ := if s then -(c : ℤ) else c

/-- The sign does not change the magnitude. -/
@[simp] theorem natAbs_signed (s : Bool) (c : Nat) : (signed s c).natAbs = c := by
  cases s <;> simp [signed]

/-- What divides a sum and its first term divides the second one, whatever the signs are. -/
theorem dvd_of_dvd_signed_add {k : Nat} {s₁ s₂ : Bool} {c₁ c₂ : Nat}
    (h : k ∣ (signed s₁ c₁ + signed s₂ c₂).natAbs) (h₁ : k ∣ c₁) : k ∣ c₂ := by
  have hfirst : (k : ℤ) ∣ signed s₁ c₁ := by rwa [Int.natCast_dvd, natAbs_signed]
  have hrest := (Int.dvd_add_right hfirst).mp (Int.natCast_dvd.mpr h)
  rwa [Int.natCast_dvd, natAbs_signed] at hrest

/-- A sum is no smaller than its first term without the second one, whatever the signs are. -/
theorem le_natAbs_signed_add (s₁ s₂ : Bool) (c₁ c₂ : Nat) :
    c₁ ≤ (signed s₁ c₁ + signed s₂ c₂).natAbs + c₂ := by
  have hfirst := natAbs_signed s₁ c₁
  have hsecond := natAbs_signed s₂ c₂
  omega

/-- The value of a finite number is its coefficient with the sign times a power of ten. -/
theorem toRat_eq_signed (s : Bool) (c : Nat) (e : Int) :
    toRat (.finite s c e) = signed s c * 10 ^ e := by
  cases s <;> simp [toRat, signed]

/-- The value of a product of forms. -/
theorem toRat_product (s₁ s₂ : Bool) (c₁ c₂ : Nat) (e₁ e₂ : Int) :
    toRat (.finite (s₁ != s₂) (c₁ * c₂) (e₁ + e₂)) =
      toRat (.finite s₁ c₁ e₁) * toRat (.finite s₂ c₂ e₂) := by
  rw [toRat, toRat, toRat, ten_zpow_add, Nat.cast_mul]
  cases s₁ <;> cases s₂ <;> simp <;> ring

end Decimal

namespace Format

open Decimal

/-- A format has a number: it is an integer of no more digits than the format times a power of ten
within its bounds. -/
structure Represents (format : Format) (x : ℚ) : Prop where
  figures : ∃ z e : ℤ, x = z * 10 ^ e ∧ z.natAbs < pow10 format.digits ∧ format.tiny ≤ e
  bounded : |x| < 10 ^ (format.top + 1)

variable {format : Format} {a b : Decimal} {x y : ℚ}

/-- The magnitude of a number that a format has. -/
theorem Represents.exists_abs (h : format.Represents x) :
    ∃ (m : Nat) (f : Int), |x| = m * 10 ^ f ∧ m < pow10 format.digits ∧ format.tiny ≤ f := by
  obtain ⟨⟨z, f, rfl, hz, hf⟩, -⟩ := h
  refine ⟨z.natAbs, f, ?_, hz, hf⟩
  rw [abs_mul, abs_of_pos (ten_zpow_pos f), Nat.cast_natAbs, Int.cast_abs]

/-- A number that the format has keeps its value when it is rounded. -/
theorem exists_round {s : Bool} {c : Nat} {e : Int}
    (h : format.Represents (toRat (.finite s c e))) :
    ∃ d, format.round s c e = .ok d ∧ d.StandsFor (toRat (.finite s c e)) := by
  by_cases hc : c = 0
  · subst hc
    exact ⟨_, format.round_zero s e, rfl, by rw [toRat_zero, toRat_zero]⟩
  obtain ⟨m, f, habs, hm, hf⟩ := h.exists_abs
  rw [abs_toRat] at habs
  have hforms : ∃ k t, c = k * pow10 t ∧ k ≤ m ∧ f ≤ e + t := by
    rcases Int.le_total e f with hle | hge
    · exact ⟨m, _, eq_mul_pow10_of_le habs hle, le_rfl, by omega⟩
    · have hmore := eq_mul_pow10_of_le habs.symm hge
      refine ⟨c, 0, (Nat.mul_one c).symm, ?_, by omega⟩
      rw [hmore]
      exact Nat.le_mul_of_pos_right c (pow10_pos _)
  obtain ⟨k, t, rfl, hk, ht⟩ := hforms
  have hk0 : k ≠ 0 := Nat.ne_zero_of_mul_ne_zero_left hc
  have hdigits : format.digits ≠ 0 := by
    rintro hzero
    rw [hzero, pow10_zero] at hm
    omega
  have hcount : digitCount k ≤ format.digits :=
    (digitCount_le_iff (Nat.pos_of_ne_zero hdigits)).mpr (hk.trans_lt hm)
  have hleading : adjusted (.finite s (k * pow10 t) e) < format.top + 1 := by
    rw [← log_toRat hc]
    refine (Int.lt_zpow_iff_log_lt (by decide) (abs_pos.mpr ?_)).mp h.bounded
    exact fun hzero => hc (toRat_eq_zero_iff.mp hzero)
  rw [adjusted_finite, digitCount_mul_pow10 hk0] at hleading
  obtain ⟨c', e', hround, hvalue⟩ :=
    exists_round_of_few s hcount (fun _ => hf.trans ht) (fun _ => by omega)
  exact ⟨_, hround, rfl, hvalue⟩

/-- A number between neighbours that is the lower one keeps its value if the format has it. -/
theorem exists_roundBetween {s : Bool} {floor : Nat} {e : Int}
    (h : format.Represents (toRat (.finite s floor e))) :
    ∃ d, format.roundBetween s floor e true = .ok d ∧ d.StandsFor (toRat (.finite s floor e)) := by
  have hten : 10 * floor = floor * pow10 1 := Nat.mul_comm ..
  have hvalue : toRat (.finite s (10 * floor) (e - 1)) = toRat (.finite s floor e) := by
    rw [hten, toRat_mul_pow10]
    congr 2
    omega
  rw [← hvalue] at h ⊢
  exact exists_round h

/-- A product that the format has is exact. -/
theorem exists_multiply (ha : a.StandsFor x) (hb : b.StandsFor y)
    (h : format.Represents (x * y)) :
    ∃ d, format.multiply a b = .ok d ∧ d.StandsFor (x * y) := by
  obtain ⟨s₁, c₁, e₁, rfl, rfl⟩ := ha.exists_eq
  obtain ⟨s₂, c₂, e₂, rfl, rfl⟩ := hb.exists_eq
  rw [← toRat_product] at h ⊢
  exact exists_round h

section

variable {s₁ s₂ : Bool} {c₁ c₂ : Nat} {e₁ e₂ : Int}

/-- The sum of two values at the lower exponent. -/
theorem toRat_add_toRat (hle : e₂ ≤ e₁) :
    toRat (.finite s₁ c₁ e₁) + toRat (.finite s₂ c₂ e₂) =
      ((signed s₁ (c₁ * pow10 (e₁ - e₂).toNat) + signed s₂ c₂ : ℤ) : ℚ) * 10 ^ e₂ := by
  have hexponent : e₁ = e₂ + ((e₁ - e₂).toNat : Nat) := by omega
  have hfirst : toRat (.finite s₁ c₁ e₁) =
      toRat (.finite s₁ (c₁ * pow10 (e₁ - e₂).toNat) e₂) := by
    rw [toRat_mul_pow10, ← hexponent]
  rw [hfirst, toRat_eq_signed, toRat_eq_signed, Int.cast_add, add_mul]

/-- A format does not have the sum of two numbers further apart than it has digits. -/
theorem not_represents_of_far (h₁ : c₁ ≠ 0) (h₂ : c₂ ≠ 0) {gap : Nat}
    (hgap : digitCount c₂ + format.digits < gap) :
    ¬ format.Represents (((signed s₁ (c₁ * pow10 gap) + signed s₂ c₂ : ℤ) : ℚ) * 10 ^ e₂) := by
  intro h
  obtain ⟨m, f, habs, hm, -⟩ := h.exists_abs
  have hdivides :=
    @dvd_of_dvd_signed_add (pow10 (digitCount c₂)) s₁ s₂ (c₁ * pow10 gap) c₂
  have hfirst := le_natAbs_signed_add s₁ s₂ (c₁ * pow10 gap) c₂
  generalize signed s₁ (c₁ * pow10 gap) + signed s₂ c₂ = sum at habs hdivides hfirst
  have hless := lt_pow10_digitCount c₂
  have hmagnitude : (sum.natAbs : ℚ) * 10 ^ e₂ = m * 10 ^ f := by
    rw [← habs, abs_mul, abs_of_pos (ten_zpow_pos e₂), Nat.cast_natAbs, Int.cast_abs]
  have hboth := pow10_add (digitCount c₂) format.digits
  have hlarge : pow10 (digitCount c₂ + format.digits) ≤ sum.natAbs := by
    have hscale : pow10 gap ≤ c₁ * pow10 gap := Nat.le_mul_of_pos_left _ (Nat.pos_of_ne_zero h₁)
    have hnext := pow10_le_pow10 hgap
    have hmore := pow10_le_pow10 (Nat.le_add_right (digitCount c₂) format.digits)
    rw [pow10_succ] at hnext
    omega
  have hself : pow10 format.digits ≤ pow10 (digitCount c₂ + format.digits) :=
    pow10_le_pow10 (Nat.le_add_left ..)
  obtain ⟨-, hmultiple⟩ := eq_mul_pow10_of_lt hmagnitude (by omega)
  -- the sum ends in zeros where the smaller number has digits
  have hzeros : digitCount c₂ ≤ (f - e₂).toNat := by
    by_contra hfew
    have hpower := pow10_le_pow10 (Nat.le_of_not_le hfew)
    have hshort := Nat.mul_lt_mul_of_lt_of_le hm hpower (pow10_pos _)
    rw [Nat.mul_comm (pow10 format.digits)] at hshort
    omega
  have hsum : pow10 (digitCount c₂) ∣ sum.natAbs := by
    rw [hmultiple]
    exact Dvd.dvd.mul_left (pow_dvd_pow 10 hzeros) m
  have hscaled : pow10 (digitCount c₂) ∣ c₁ * pow10 gap :=
    Dvd.dvd.mul_left (pow_dvd_pow 10 (by omega)) c₁
  have hle := Nat.le_of_dvd (Nat.pos_of_ne_zero h₂) (hdivides hsum hscaled)
  omega

/-- Numbers other than zero that lie near each other are added at the lower exponent. -/
theorem addAligned_near (s₁ s₂ : Bool) (h₁ : c₁ ≠ 0) (h₂ : c₂ ≠ 0)
    (hnear : (e₁ - e₂).toNat ≤ digitCount c₂ + format.digits) :
    ∃ s c, format.addAligned s₁ c₁ e₁ s₂ c₂ e₂ = format.round s c e₂ ∧
      signed s c = signed s₁ (c₁ * pow10 (e₁ - e₂).toNat) + signed s₂ c₂ := by
  rw [addAligned, if_neg h₁, if_neg h₂, if_neg (by omega)]
  generalize c₁ * pow10 (e₁ - e₂).toNat = scaled
  by_cases hs : s₁ = s₂
  · refine ⟨s₁, scaled + c₂, if_pos hs, ?_⟩
    rw [← hs]
    cases s₁ <;> simp only [signed, if_true, Bool.false_eq_true, if_false] <;> omega
  rw [if_neg hs]
  obtain rfl : s₂ = !s₁ := Bool.eq_not_of_ne (Ne.symm hs)
  by_cases heq : scaled = c₂
  · refine ⟨false, 0, if_pos heq, ?_⟩
    rw [heq]
    cases s₁ <;> simp [signed]
  rw [if_neg heq]
  by_cases hless : c₂ < scaled
  · refine ⟨s₁, scaled - c₂, if_pos hless, ?_⟩
    cases s₁ <;> simp [signed] <;> omega
  · refine ⟨!s₁, c₂ - scaled, if_neg hless, ?_⟩
    cases s₁ <;> simp [signed] <;> omega

/-- An aligned sum that the format has is exact. -/
theorem exists_addAligned (hle : e₂ ≤ e₁)
    (h : format.Represents (toRat (.finite s₁ c₁ e₁) + toRat (.finite s₂ c₂ e₂))) :
    ∃ d, format.addAligned s₁ c₁ e₁ s₂ c₂ e₂ = .ok d ∧
      d.StandsFor (toRat (.finite s₁ c₁ e₁) + toRat (.finite s₂ c₂ e₂)) := by
  by_cases h₁ : c₁ = 0
  · rw [addAligned, if_pos h₁]
    by_cases h₂ : c₂ = 0
    · rw [if_pos h₂, h₁, h₂, toRat_zero, toRat_zero, round_zero]
      exact ⟨_, rfl, rfl, by rw [toRat_zero, add_zero]⟩
    · rw [h₁, toRat_zero, zero_add] at h
      rw [if_neg h₂, h₁, toRat_zero, zero_add]
      exact exists_round h
  by_cases h₂ : c₂ = 0
  · rw [h₂, toRat_zero, add_zero] at h
    rw [addAligned, if_neg h₁, if_pos h₂, h₂, toRat_zero, add_zero]
    exact exists_round h
  rw [toRat_add_toRat hle] at h ⊢
  by_cases hfar : digitCount c₂ + format.digits < (e₁ - e₂).toNat
  · exact absurd h (not_represents_of_far h₁ h₂ hfar)
  obtain ⟨s, c, hround, hsum⟩ := addAligned_near s₁ s₂ h₁ h₂ (Nat.le_of_not_lt hfar)
  rw [hround]
  rw [← hsum, ← toRat_eq_signed] at h ⊢
  exact exists_round h

end

/-- A sum that the format has is exact. -/
theorem exists_add (ha : a.StandsFor x) (hb : b.StandsFor y) (h : format.Represents (x + y)) :
    ∃ d, format.add a b = .ok d ∧ d.StandsFor (x + y) := by
  obtain ⟨s₁, c₁, e₁, rfl, rfl⟩ := ha.exists_eq
  obtain ⟨s₂, c₂, e₂, rfl, rfl⟩ := hb.exists_eq
  have hadd : format.add (.finite s₁ c₁ e₁) (.finite s₂ c₂ e₂) =
      if e₂ ≤ e₁ then format.addAligned s₁ c₁ e₁ s₂ c₂ e₂
      else format.addAligned s₂ c₂ e₂ s₁ c₁ e₁ := rfl
  rw [hadd]
  by_cases hle : e₂ ≤ e₁
  · rw [if_pos hle]
    exact exists_addAligned hle h
  · rw [if_neg hle]
    rw [add_comm] at h ⊢
    exact exists_addAligned (by omega) h

/-- A quotient that the format has is exact. -/
theorem exists_divide (ha : a.StandsFor x) (hb : b.StandsFor y) (hy : y ≠ 0)
    (h : format.Represents (x / y)) :
    ∃ d, format.divide a b = .ok d ∧ d.StandsFor (x / y) := by
  obtain ⟨s₁, n, e₁, rfl, rfl⟩ := ha.exists_eq
  obtain ⟨s₂, d, e₂, rfl, rfl⟩ := hb.exists_eq
  have hd : d ≠ 0 := fun hzero => hy (toRat_eq_zero_iff.mpr hzero)
  by_cases hn : n = 0
  · subst hn
    have hdivide : format.divide (.finite s₁ 0 e₁) (.finite s₂ d e₂) =
        format.round (s₁ != s₂) 0 (e₁ - e₂) := (if_neg hd).trans (if_pos rfl)
    rw [hdivide, round_zero, toRat_zero, zero_div]
    exact ⟨_, rfl, rfl, toRat_zero _ _⟩
  obtain ⟨m, f, habs, hm, -⟩ := h.exists_abs
  rw [abs_div, abs_toRat, abs_toRat] at habs
  rw [divide_finite s₁ s₂ e₁ e₂ hn hd, roundQuotient]
  generalize hshift : format.digits + 1 + digitCount d - digitCount n = shift
  have hlong : pow10 format.digits * d ≤ n * pow10 shift := by
    have hcount := digitCount_mul_pow10 hn shift
    have hleast := pow10_le_of_lt_digitCount (Nat.mul_ne_zero hn (pow10_ne_zero shift))
      (show format.digits + digitCount d < digitCount (n * pow10 shift) by omega)
    rw [pow10_add] at hleast
    exact (Nat.mul_le_mul_left _ (lt_pow10_digitCount d).le).trans hleast
  have hless : m * d < n * pow10 shift :=
    (Nat.mul_lt_mul_of_pos_right hm (Nat.pos_of_ne_zero hd)).trans_le hlong
  obtain ⟨-, hmultiple⟩ := eq_mul_pow10_of_lt (scaled_quotient hd habs) hless
  generalize pow10 (f - (e₁ - e₂ - shift)).toNat = zeros at hmultiple
  rw [Nat.mul_right_comm] at hmultiple
  have hquotient : n * pow10 shift / d = m * zeros := by
    rw [hmultiple, Nat.mul_div_cancel _ (Nat.pos_of_ne_zero hd)]
  have hrest : (n * pow10 shift % d == 0) = true := by
    rw [hmultiple, Nat.mul_mod_left]
    rfl
  have hvalue : toRat (.finite (s₁ != s₂) (m * zeros) (e₁ - e₂ - shift)) =
      toRat (.finite s₁ n e₁) / toRat (.finite s₂ d e₂) := by
    have hsign : ((s₁ != s₂) != s₂) = s₁ := by cases s₁ <;> cases s₂ <;> rfl
    have hexponent : e₁ - e₂ - shift + e₂ + shift = e₁ := by omega
    rw [eq_div_iff hy, ← toRat_product, hsign, ← hmultiple, toRat_mul_pow10, hexponent]
  rw [hquotient, hrest]
  rw [← hvalue] at h ⊢
  exact exists_roundBetween h

/-- The square root of the square of a number that the format has is exact. -/
theorem exists_sqrt (ha : a.StandsFor (x * x)) (hx : 0 ≤ x) (h : format.Represents x) :
    ∃ d, format.sqrt a = .ok d ∧ d.StandsFor x := by
  obtain ⟨s, c, e, rfl, hvalue⟩ := ha.exists_eq
  rw [sqrt]
  by_cases hc : c = 0
  · obtain rfl : x = 0 := mul_self_eq_zero.mp (by rw [← hvalue, hc, toRat_zero])
    rw [if_pos hc, round_zero]
    exact ⟨_, rfl, rfl, toRat_zero _ _⟩
  have hs : s = false := by
    rw [← Bool.not_eq_true, ← toRat_neg_iff hc, hvalue]
    exact not_lt.mpr (mul_self_nonneg x)
  subst hs
  rw [if_neg hc, if_neg Bool.false_ne_true]
  obtain ⟨m, f, habs, hm, -⟩ := h.exists_abs
  rw [abs_of_nonneg hx] at habs
  dsimp only
  generalize hshift : (if (e - ((2 * (format.digits + 1) - digitCount c : Nat) : Int)) % 2 = 0
    then 2 * (format.digits + 1) - digitCount c
    else 2 * (format.digits + 1) - digitCount c + 1) = shift
  obtain ⟨half, hhalf⟩ : ∃ half : Int, e - shift = 2 * half := by
    refine ⟨(e - shift) / 2, ?_⟩
    split at hshift <;> omega
  have hlong : pow10 (2 * format.digits + 1) ≤ c * pow10 shift := by
    have hcount := digitCount_mul_pow10 hc shift
    refine pow10_le_of_lt_digitCount (Nat.mul_ne_zero hc (pow10_ne_zero shift)) ?_
    split at hshift <;> omega
  have hsquare : (c : ℚ) * 10 ^ e = m * 10 ^ f * (m * 10 ^ f) := by
    rw [← habs, ← hvalue, toRat_eq_signed]
    rfl
  rw [hhalf, Int.mul_ediv_cancel_left half (by decide)]
  have hless : m * m < c * pow10 shift := by
    have hshort := Nat.mul_lt_mul'' hm hm
    have hnext := pow10_succ (2 * format.digits)
    rw [← pow10_add, ← Nat.two_mul] at hshort
    omega
  obtain ⟨hle, hmultiple⟩ := eq_mul_pow10_of_lt (scaled_square hhalf hsquare) hless
  have hroot : c * pow10 shift = m * pow10 (f - half).toNat * (m * pow10 (f - half).toNat) := by
    have hdouble : (2 * f - 2 * half).toNat = (f - half).toNat + (f - half).toNat := by omega
    rw [hmultiple, hdouble, pow10_add]
    ring
  have hexact : toRat (.finite false (m * pow10 (f - half).toNat) half) = x := by
    have hexponent : half + ((f - half).toNat : Nat) = f := by omega
    rw [toRat_mul_pow10, hexponent, habs, toRat_eq_signed]
    rfl
  rw [hroot, Nat.sqrt_eq, beq_self_eq_true]
  rw [← hexact] at h ⊢
  exact exists_roundBetween h

end Format

end UnitCalculator
