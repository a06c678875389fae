import UnitCalculator.Quantity.BaseUnits
import UnitCalculator.Proofs.Binary.General
import UnitCalculator.Proofs.Failure

/-!
# Exchange of dimensions

An exponent in general notation is read as itself exactly if it is a short double. So a quantity
that is handed over in base units comes back with its dimension exactly if all its exponents are
short doubles, and it is handed over exactly if all of them have nearest doubles.
-/

namespace UnitCalculator

open Binary

namespace Decimal

/-- A number within the scope of doubles is read as the nearest double of its value. -/
theorem doubleOf?_eq {c : Nat} {e : Int} (hc : c ≠ 0) (hl : -400 ≤ e + digitCount c)
    (hu : e + digitCount c ≤ 400) :
    doubleOf? c e = nearestDouble? (c * pow10 e.toNat) (pow10 (-e).toNat) := by
  rw [doubleOf?, if_neg (by rw [aboveDoubles]; omega), if_neg (by rw [aboveDoubles]; omega)]

/-- The quotient of natural numbers that a decimal is. -/
theorem quotient_pow10 (c : Nat) (e : Int) :
    ((c * pow10 e.toNat : Nat) : ℚ) / (pow10 (-e).toNat : Nat) = c * 10 ^ e := by
  have hpos : (0 : ℚ) < 10 ^ (-e).toNat := by positivity
  rw [Nat.cast_mul, cast_pow10, cast_pow10, pow_toNat (by norm_num) e, mul_left_comm,
    mul_div_cancel_left₀ _ hpos.ne']

end Decimal

namespace BaseForm

open Decimal

variable {x : ℚ} {text : String}

/-- The rational number of a double with its sign. -/
theorem mkRat_quotient (s : Bool) (b : Binary) :
    mkRat (if s then -(b.quotient.1 : ℤ) else b.quotient.1) b.quotient.2 =
      if s then -b.toRat else b.toRat := by
  have hvalue : (b.quotient.1 : ℚ) / b.quotient.2 = b.toRat :=
    (div_eq_iff (Nat.cast_ne_zero.mpr b.quotient_pos.ne')).mpr b.quotient_eq
  rw [Rat.mkRat_eq_div, ← hvalue]
  cases s with
  | false => rw [if_neg Bool.false_ne_true, if_neg Bool.false_ne_true, Int.cast_natCast]
  | true => rw [if_pos rfl, if_pos rfl, Int.cast_neg, Int.cast_natCast, neg_div]

/-- A text stands for the nearest double of the decimal that it is read as. -/
theorem exponentOf_eq_iff {s : Bool} {c : Nat} {e : Int}
    (h : read? text.toList = some (.finite s c e)) (hc : c ≠ 0) (hl : -400 ≤ e + digitCount c)
    (hu : e + digitCount c ≤ 400) (hx : x ≠ 0) :
    exponentOf text = x ↔ NearestDouble (if s then -(c * 10 ^ e : ℚ) else c * 10 ^ e) x := by
  have hd : pow10 (-e).toNat ≠ 0 := pow10_ne_zero _
  have hquotient := quotient_pow10 c e
  rw [exponentOf, h]
  dsimp only
  rw [doubleOf?_eq hc hl hu]
  cases hnearest : nearestDouble? (c * pow10 e.toNat) (pow10 (-e).toNat) with
  | none =>
    -- an infinite exponent is read as zero
    refine iff_of_false hx.symm fun hnear => ?_
    have hunsigned : ∃ y, NearestDouble (c * 10 ^ e) y := by
      cases s with
      | false => exact ⟨x, hnear⟩
      | true => exact ⟨-x, neg_neg (c * 10 ^ e : ℚ) ▸ hnear.neg⟩
    obtain ⟨y, hy⟩ := hunsigned
    rw [← hquotient] at hy
    obtain ⟨b, hb, -⟩ := NearestDouble.exists_nearestDouble? hd hy
    rw [hnearest] at hb
    cases hb
  | some b =>
    have hb := NearestDouble.of_nearestDouble? hd hnearest
    rw [hquotient] at hb
    have hsigned : NearestDouble (if s then -(c * 10 ^ e : ℚ) else c * 10 ^ e)
        (if s then -b.toRat else b.toRat) := by
      cases s with
      | false => exact hb
      | true => exact hb.neg
    dsimp only
    rw [mkRat_quotient]
    exact ⟨fun he => he ▸ hsigned, fun hnear => hsigned.unique hnear⟩

/-- A text that is read as zero stands for zero. -/
theorem exponentOf_zero {s : Bool} {e : Int} (h : read? text.toList = some (.finite s 0 e)) :
    exponentOf text = 0 := by
  rw [exponentOf, h]
  dsimp only
  rw [doubleOf?, if_pos (.inl rfl)]
  dsimp only
  rw [mkRat_quotient, Binary.toRat, Nat.cast_zero, zero_mul, neg_zero, ite_self]

/-- The text of a positive double stands for the nearest double of the nearest decimal with six
digits, with the sign. -/
theorem exists_exponentOf_generalText {b : Binary} (hm : b.mantissa ≠ 0)
    (hl : 2 ^ (-1074 : ℤ) ≤ b.toRat) (hu : b.toRat < 2 ^ 1024) :
    ∃ (r : Nat) (k : Int), r < pow10 6 ∧
      RoundsTo (10 ^ lastFigure b.toRat) b.toRat (r * 10 ^ k) ∧
      ∀ (negative : Bool) (x : ℚ), x ≠ 0 → (exponentOf (b.generalText negative) = x ↔
        NearestDouble (if negative then -(r * 10 ^ k : ℚ) else r * 10 ^ k) x) := by
  have hpos : 0 < b.toRat := lt_of_lt_of_le (two_zpow_pos _) hl
  obtain ⟨hlower, hupper⟩ := log_bounds hl hu
  obtain ⟨r, l, hr, hfive, hsix, hfirst, hlast, hround⟩ := exists_toSignificant hpos hlower
  rw [lastFigure, abs_of_pos hpos] at hfirst hlast
  refine ⟨r, l - 5, hsix, hround, fun negative x hx => ?_⟩
  obtain ⟨c, zeros, hc, hread⟩ := exists_read?_generalText negative hm hr hfive hsix
    (by omega) (by omega)
  obtain ⟨hzero, hcount⟩ := digitCount_add hfive hsix hc
  have hvalue : (c * 10 ^ (l - 5 + zeros) : ℚ) = r * 10 ^ (l - 5) := by
    rw [← hc, Nat.cast_mul, cast_pow10, ten_zpow_add, zpow_natCast]
    ring
  rw [exponentOf_eq_iff hread hzero (by omega) (by omega) hx, hvalue]

/-- The text of zero stands for zero. -/
theorem exponentOf_generalText_zero {b : Binary} (hm : b.mantissa = 0) (negative : Bool) :
    exponentOf (b.generalText negative) = 0 := by
  refine exponentOf_zero (s := negative) (e := 0) ?_
  rw [generalText, if_pos hm, String.toList_ofList]
  exact (Written.ofNat 0).read?_text negative (by decide) (by decide)

/-- The text of an exponent stands for it exactly if it is a short double. -/
theorem exponentOf_exponentText (h : exponentText x = .ok text) :
    exponentOf text = x ↔ IsShort x := by
  rw [exponentText] at h
  split at h
  · next b hb =>
    obtain rfl := Except.ok.inj h
    have hnear := NearestDouble.of_nearestDouble? x.den_nz hb
    rw [natAbs_div_den] at hnear
    rw [← isShort_abs]
    by_cases hm : b.mantissa = 0
    · -- an exponent below the smallest double is written as zero
      have hvalue : b.toRat = 0 := by rw [Binary.toRat, hm, Nat.cast_zero, zero_mul]
      rw [hvalue] at hnear
      rw [exponentOf_generalText_zero hm]
      constructor
      · rintro rfl
        rw [abs_zero]
        exact isShort_intCast (n := 0) (by decide)
      · exact fun hs => (abs_eq_zero.mp (hs.nearestDouble.unique hnear)).symm
    · have hpos : 0 < b.toRat :=
        mul_pos (Nat.cast_pos.mpr (Nat.pos_of_ne_zero hm)) (two_zpow_pos _)
      have hx : x ≠ 0 := by
        rintro rfl
        rw [abs_zero] at hnear
        exact hpos.ne' (hnear.unique .zero)
      have hleast := hnear.tiny_le hpos.ne'
      have hmost := hnear.finite
      rw [abs_of_pos hpos] at hleast hmost
      obtain ⟨r, k, hr, hround, hiff⟩ := exists_exponentOf_generalText hm hleast hmost
      have hsign : NearestDouble (if decide (x < 0) then -(r * 10 ^ k : ℚ) else r * 10 ^ k) x ↔
          NearestDouble (r * 10 ^ k) |x| := by
        by_cases hneg : x < 0
        · rw [decide_eq_true hneg, if_pos rfl, abs_of_neg hneg, ← NearestDouble.neg_iff, neg_neg]
        · rw [decide_eq_false hneg, if_neg Bool.false_ne_true, abs_of_nonneg (not_lt.mp hneg)]
      rw [hiff _ x hx, hsign]
      constructor
      · intro hshort
        refine ⟨r, k, by rw [Nat.abs_cast]; exact_mod_cast hr, ?_⟩
        rwa [Int.cast_natCast]
      · intro hs
        rw [← hs.nearestDouble.unique hnear] at hround
        exact .of_isShort (abs_pos.mpr hx) hs hround
  · cases h

/-- The exponents that are written are those that have a nearest double. -/
theorem exists_exponentText_iff :
    (∃ text, exponentText x = .ok text) ↔ 2 * |x| + 2 ^ 971 < 2 * 2 ^ 1024 := by
  have hexists : (∃ y, NearestDouble x y) ↔ ∃ y, NearestDouble |x| y := by
    rw [NearestDouble.exists_iff, NearestDouble.exists_iff, abs_abs]
  rw [← NearestDouble.exists_iff, hexists, ← natAbs_div_den, exponentText]
  constructor
  · rintro ⟨text, h⟩
    split at h
    · next b hb => exact ⟨b.toRat, NearestDouble.of_nearestDouble? x.den_nz hb⟩
    · cases h
  · rintro ⟨y, hy⟩
    obtain ⟨b, hb, -⟩ := NearestDouble.exists_nearestDouble? x.den_nz hy
    rw [hb]
    exact ⟨_, rfl⟩

/-- Seven exponents make a dimension. -/
theorem exists_ofExponents {exponents : List ℚ} (h : exponents.length = 7) :
    ∃ d, Dimension.ofExponents exponents = .ok d ∧ d.exponents = exponents := by
  match exponents, h with
  | [t, l, m, i, θ, n, j], _ => exact ⟨⟨t, l, m, i, θ, n, j⟩, rfl, rfl⟩

/-- A dimension is given by its exponents. -/
theorem exponents_injective {d d' : Dimension} (h : d.exponents = d'.exponents) : d = d' := by
  have hback := congrArg Dimension.ofExponents h
  exact Except.ok.inj hback

/-- A quantity with a finite double is handed over with the texts of its exponents. -/
theorem ofQuantity_eq_ok_iff {q : Quantity} (hv : q.value.toDouble.isFinite = true)
    {form : BaseForm} : ofQuantity q = .ok form ↔
      ∃ texts, q.dimension.exponents.mapM exponentText = .ok texts ∧
        form = ⟨q.value.toDouble, texts⟩ := by
  rw [ofQuantity, bind_eq_ok_iff]
  refine exists_congr fun texts => and_congr_right fun _ => ?_
  split
  · next he =>
    rw [he] at hv
    cases hv
  · rw [pure_eq_ok_iff, eq_comm]

/-- Exponents are the same when they are read back exactly if all of them are short doubles. -/
theorem map_exponentOf_eq_iff {exponents : List ℚ} {texts : List String}
    (h : exponents.mapM exponentText = .ok texts) :
    texts.map exponentOf = exponents ↔ ∀ x ∈ exponents, IsShort x := by
  induction exponents generalizing texts with
  | nil =>
    cases h
    exact iff_of_true rfl fun x hx => absurd hx List.not_mem_nil
  | cons x exponents ih =>
    obtain ⟨text, rest, hx, hrest, rfl⟩ := mapM_cons_eq_ok_iff.mp h
    rw [List.map_cons, List.cons_eq_cons, List.forall_mem_cons, exponentOf_exponentText hx,
      ih hrest]

/-- A quantity with a finite double is handed over in base units exactly if all exponents of its
dimension lie below the middle between the greatest double and the power of two above it. It then
comes back, and with its dimension exactly if every exponent is a short double. -/
theorem quantity_dimension_spec {q : Quantity} (hv : q.value.toDouble.isFinite = true) :
    ((∃ form, ofQuantity q = .ok form) ↔
      ∀ x ∈ q.dimension.exponents, 2 * |x| + 2 ^ 971 < 2 * 2 ^ 1024) ∧
    ∀ form, ofQuantity q = .ok form → ∃ back, form.quantity = .ok back ∧
      (back.dimension = q.dimension ↔ ∀ x ∈ q.dimension.exponents, IsShort x) := by
  constructor
  · have htexts : (∃ texts, q.dimension.exponents.mapM exponentText = .ok texts) ↔ _ :=
      exists_mapM_iff.trans (forall₂_congr fun x _ => exists_exponentText_iff)
    rw [← htexts]
    constructor
    · rintro ⟨form, hf⟩
      obtain ⟨texts, ht, -⟩ := (ofQuantity_eq_ok_iff hv).mp hf
      exact ⟨texts, ht⟩
    · rintro ⟨texts, ht⟩
      exact ⟨_, (ofQuantity_eq_ok_iff hv).mpr ⟨texts, ht, rfl⟩⟩
  · intro form hf
    obtain ⟨texts, ht, rfl⟩ := (ofQuantity_eq_ok_iff hv).mp hf
    have hcount : (texts.map exponentOf).length = 7 := by
      have hmap := congrArg List.length (map_of_mapM (k := fun _ => ()) (l := fun _ => ())
        (fun _ _ _ => rfl) ht)
      rw [List.length_map, List.length_map] at hmap
      rw [List.length_map, hmap]
      rfl
    obtain ⟨d, hd, hexponents⟩ := exists_ofExponents hcount
    refine ⟨.of q.value.toDouble d, ?_, ?_⟩
    · rw [quantity, hd]
      rfl
    · rw [← map_exponentOf_eq_iff ht, ← hexponents]
      exact ⟨fun he => congrArg Dimension.exponents he, exponents_injective⟩

/-- An integral exponent of six digits is kept, and a third is not. -/
theorem quantity_dimension_spec_third :
    let kept : Quantity := .of (.ofNat 2) { Dimension.one with length := 123456 }
    let lost : Quantity := .of (.ofNat 2) { Dimension.one with length := 1 / 3 }
    (kept.value.toDouble.isFinite = true ∧ ∃ form back, ofQuantity kept = .ok form ∧
      form.quantity = .ok back ∧ back.dimension = kept.dimension) ∧
    lost.value.toDouble.isFinite = true ∧ ∃ form back, ofQuantity lost = .ok form ∧
      form.quantity = .ok back ∧ back.dimension ≠ lost.dimension := by
  have hv : (Decimal.ofNat 2).toDouble.isFinite = true := by decide +kernel
  have hscope : ∀ x : ℚ, IsShort x → 2 * |x| + 2 ^ 971 < 2 * 2 ^ 1024 := fun x hx =>
    (NearestDouble.exists_iff x).mp ⟨x, hx.nearestDouble⟩
  have hzero : IsShort 0 := isShort_intCast (n := 0) (by decide)
  have hsix : IsShort 123456 := isShort_intCast (n := 123456) (by decide)
  have hthird : ¬IsShort (1 / 3) := by
    intro h
    obtain ⟨m, k, hm⟩ := h.exists_dyadic
    have hpower : (2 : ℤ) ^ k = 3 * m := by
      have hcast : (2 : ℚ) ^ k = 3 * m := by linarith
      exact_mod_cast hcast
    have hcoprime : Nat.Coprime 3 (2 ^ k) := Nat.Coprime.pow_right k (by decide)
    have hdvd : 3 ∣ 2 ^ k := by exact_mod_cast Dvd.intro m hpower.symm
    exact absurd (Nat.Coprime.eq_one_of_dvd hcoprime hdvd) (by decide)
  refine ⟨⟨hv, ?_⟩, hv, ?_⟩
  · obtain ⟨hok, hback⟩ := quantity_dimension_spec
      (q := .of (.ofNat 2) { Dimension.one with length := 123456 }) hv
    have hall : ∀ x ∈ { Dimension.one with length := 123456 }.exponents, IsShort x := by
      simp [Dimension.exponents, Dimension.one, hzero, hsix]
    obtain ⟨form, hf⟩ := hok.mpr fun x hx => hscope x (hall x hx)
    obtain ⟨back, hb, hiff⟩ := hback form hf
    exact ⟨form, back, hf, hb, hiff.mpr hall⟩
  · obtain ⟨hok, hback⟩ := quantity_dimension_spec
      (q := .of (.ofNat 2) { Dimension.one with length := 1 / 3 }) hv
    have hcases : ∀ x ∈ { Dimension.one with length := 1 / 3 }.exponents, |x| ≤ |1| := by
      decide +kernel
    have hone := hscope 1 (isShort_intCast (n := 1) (by decide))
    obtain ⟨form, hf⟩ := hok.mpr fun x hx => lt_of_le_of_lt
      (add_le_add_left (mul_le_mul_of_nonneg_left (hcases x hx) (by norm_num)) _) hone
    obtain ⟨back, hb, hiff⟩ := hback form hf
    refine ⟨form, back, hf, hb, fun he => hthird ?_⟩
    exact hiff.mp he (1 / 3) (List.mem_cons_of_mem _ List.mem_cons_self)

end BaseForm

end UnitCalculator
