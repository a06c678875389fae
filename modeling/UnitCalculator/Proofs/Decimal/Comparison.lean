import UnitCalculator.Proofs.Decimal.Exact

/-!
# Comparing values

Two finite numbers are equal exactly if they stand for the same rational number, in whatever forms
they are given, and a number is less than zero exactly if its rational number is. Numbers that stand
for the same rational number are shown alike.
-/

namespace UnitCalculator.Decimal

section

variable {s₁ s₂ : Bool} {c₁ c₂ : Nat} {e₁ e₂ : Int}

/-- At a common exponent, coefficients of one value are equal. -/
theorem scaled_eq_iff :
    c₁ * pow10 (e₁ - e₂).toNat = c₂ * pow10 (e₂ - e₁).toNat ↔
      (c₁ : ℚ) * 10 ^ e₁ = c₂ * 10 ^ e₂ := by
  have hexponent : ∀ e f : Int,
      (10 : ℚ) ^ e = (pow10 (e - f).toNat : Nat) * 10 ^ min e f := by
    intro e f
    rw [cast_pow10, ← zpow_natCast, ← ten_zpow_add]
    congr 1
    omega
  rw [hexponent e₁ e₂, hexponent e₂ e₁, min_comm e₂ e₁, ← mul_assoc, ← mul_assoc,
    mul_left_inj' (ten_zpow_pos _).ne']
  exact_mod_cast Iff.rfl

/-- Positive numbers compare equal exactly if they have one value. -/
theorem compareMagnitude_eq_iff (h₁ : c₁ ≠ 0) :
    compareMagnitude c₁ e₁ c₂ e₂ = .eq ↔ (c₁ : ℚ) * 10 ^ e₁ = c₂ * 10 ^ e₂ := by
  constructor
  · intro h
    rw [compareMagnitude] at h
    split at h
    · exact scaled_eq_iff.mp (Nat.compare_eq_eq.mp h)
    · next hne => exact absurd h hne
  · intro h
    have hvalue : toRat (.finite false c₁ e₁) = toRat (.finite false c₂ e₂) := h
    obtain ⟨-, hleading⟩ := adjusted_eq_of_toRat_eq h₁ hvalue
    rw [adjusted_finite, adjusted_finite] at hleading
    have hplace : e₁ + digitCount c₁ = e₂ + digitCount c₂ := by omega
    rw [compareMagnitude, hplace, Int.compare_eq_eq.mpr rfl]
    exact Nat.compare_eq_eq.mpr (scaled_eq_iff.mpr h)

/-- Finite numbers compare equal exactly if they have one value. -/
theorem compareFinite_eq_iff :
    compareFinite s₁ c₁ e₁ s₂ c₂ e₂ = .eq ↔
      toRat (.finite s₁ c₁ e₁) = toRat (.finite s₂ c₂ e₂) := by
  rw [compareFinite.eq_def]
  by_cases h₁ : c₁ = 0
  · rw [if_pos h₁, h₁, toRat_zero, eq_comm, eq_comm (a := (0 : ℚ)), toRat_eq_zero_iff]
    by_cases h₂ : c₂ = 0
    · simp [h₂]
    · cases s₂ <;> simp [h₂]
  rw [if_neg h₁]
  by_cases h₂ : c₂ = 0
  · rw [if_pos h₂, h₂, toRat_zero, toRat_eq_zero_iff]
    cases s₁ <;> simp [h₁]
  rw [if_neg h₂]
  have hdifferent : s₁ ≠ s₂ → toRat (.finite s₁ c₁ e₁) ≠ toRat (.finite s₂ c₂ e₂) := by
    intro hs h
    exact hs (Bool.eq_iff_iff.mpr (by rw [← toRat_neg_iff h₁, h, toRat_neg_iff h₂]))
  cases s₁ with
  | false =>
    cases s₂ with
    | false => exact compareMagnitude_eq_iff h₁
    | true => exact iff_of_false nofun (hdifferent nofun)
  | true =>
    cases s₂ with
    | false => exact iff_of_false nofun (hdifferent nofun)
    | true =>
      have hopposite : ∀ c e, toRat (.finite true c e) = -((c : ℚ) * 10 ^ e) :=
        fun c e => neg_mul _ _
      rw [hopposite, hopposite, neg_inj]
      exact (compareMagnitude_eq_iff h₂).trans eq_comm

end

variable {a b : Decimal} {x y : ℚ}

/-- Whether finite numbers are equal is whether their values are. -/
theorem isEqual_of_standsFor (ha : a.StandsFor x) (hb : b.StandsFor y) :
    a.isEqual b = .ok (decide (x = y)) := by
  obtain ⟨s₁, c₁, e₁, rfl, rfl⟩ := ha.exists_eq
  obtain ⟨s₂, c₂, e₂, rfl, rfl⟩ := hb.exists_eq
  refine congrArg Except.ok (Bool.eq_iff_iff.mpr ?_)
  rw [decide_eq_true_iff, ← compareFinite_eq_iff, beq_iff_eq, compare?, Option.some_inj]

/-- Whether a finite number is negative is whether its value is. -/
theorem isLess_zero_of_standsFor (ha : a.StandsFor x) :
    a.isLess (.ofNat 0) = .ok (decide (x < 0)) := by
  obtain ⟨s, c, e, rfl, rfl⟩ := ha.exists_eq
  by_cases hc : c = 0
  · rw [hc, toRat_zero]
    rfl
  · refine congrArg Except.ok (Bool.eq_iff_iff.mpr ?_)
    rw [decide_eq_true_iff, toRat_neg_iff hc]
    cases s <;> simp [compareFinite, hc]

/-- Finite numbers of one value are shown by one text. -/
theorem exists_display_of_standsFor {figures : Nat} (ha : a.StandsFor x) (hb : b.StandsFor x)
    (hl : 0 < figures) (hu : figures ≤ 50)
    (hr : a.isZero = true ∨ a.adjusted.natAbs ≤ shownExponent) :
    ∃ text, a.display figures = .ok text ∧ b.display figures = .ok text := by
  obtain ⟨s₁, c₁, e₁, rfl, rfl⟩ := ha.exists_eq
  obtain ⟨s₂, c₂, e₂, rfl, hvalue⟩ := hb.exists_eq
  by_cases hc : c₁ = 0
  · subst hc
    rw [toRat_zero, toRat_eq_zero_iff] at hvalue
    subst hvalue
    exact ⟨"0", rfl, rfl⟩
  have hnear := hr.resolve_left fun hzero => hc (eq_of_beq hzero)
  obtain ⟨m, f, -, hm, hd, hrounded, hleading⟩ :=
    exists_rounded_toRat (s := s₁) hc hl hu (Nat.le_succ_of_le hnear)
  obtain ⟨w, hw, -⟩ := exists_trim_fits (s := s₁) (e := f) hm (hd.le.trans hu) (by omega)
  obtain ⟨hother, hsame⟩ := adjusted_eq_of_toRat_eq hc hvalue.symm
  refine ⟨_, display_of_toRat hc hl hu (Nat.le_succ_of_le hnear) hd hw hrounded, ?_⟩
  exact display_of_toRat hother hl hu (by omega) hd hw (by rw [hrounded, hvalue])

end UnitCalculator.Decimal
