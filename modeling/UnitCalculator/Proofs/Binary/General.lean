import UnitCalculator.Binary.General
import UnitCalculator.Proofs.Binary.Short
import UnitCalculator.Proofs.Decimal.Written

/-!
# Reading general notation

A double in general notation is read as the decimal with six significant digits that is nearest to
it, with its sign.
-/

namespace UnitCalculator

namespace Binary

open Text Decimal

/-- The divisor of a binary number is not zero. -/
theorem quotient_pos (b : Binary) : 0 < b.quotient.2 := Nat.pow_pos (by decide)

/-- The quotient of a binary number is its value. -/
theorem quotient_eq (b : Binary) : (b.quotient.1 : ℚ) = b.toRat * b.quotient.2 := by
  rw [quotient, toRat, Nat.cast_mul, cast_pow2, cast_pow2, pow_toNat (by norm_num) b.exponent]
  ring

/-- Powers of two that bound doubles are below a power of ten. -/
theorem two_pow_lt : (2 : ℚ) ^ 1074 < 10 ^ 336 := by
  have hpower : (2 : ℚ) ^ 93 < 10 ^ 28 := by norm_num
  calc (2 : ℚ) ^ 1074 ≤ 2 ^ (93 * 12) := pow_le_pow_right₀ (by norm_num) (by norm_num)
    _ = (2 ^ 93) ^ 12 := pow_mul 2 93 12
    _ < (10 ^ 28) ^ 12 := pow_lt_pow_left₀ hpower (by positivity) (by norm_num)
    _ = 10 ^ 336 := by rw [← pow_mul]

/-- The leading digit of a double lies in the scope of its integer part at many places. -/
theorem log_bounds {x : ℚ} (hl : 2 ^ (-1074 : ℤ) ≤ x) (hu : x < 2 ^ 1024) :
    -336 ≤ Int.log 10 x ∧ Int.log 10 x < 336 := by
  have hx : 0 < x := lt_of_lt_of_le (two_zpow_pos _) hl
  constructor
  · refine (Int.zpow_le_iff_le_log (by decide) hx).mp (le_trans ?_ hl)
    rw [Nat.cast_ofNat, zpow_neg, zpow_neg]
    exact inv_anti₀ (by positivity) (by exact_mod_cast two_pow_lt.le)
  · refine (Int.lt_zpow_iff_log_lt (by decide) hx).mp (lt_trans hu ?_)
    refine lt_of_le_of_lt (b := (2 : ℚ) ^ 1074) ?_ (by exact_mod_cast two_pow_lt)
    exact pow_le_pow_right₀ (by norm_num) (by norm_num)

variable {b : Binary}

/-- A natural number below a quotient is below its integer part. -/
theorem digitCount_scaled (hx : 0 < b.toRat) {k : Nat}
    (hk : Int.log 10 b.toRat + sufficientPlaces = k) :
    digitCount (b.quotient.1 * pow10 sufficientPlaces / b.quotient.2) = k + 1 := by
  have hten : (10 : ℚ) ≠ 0 := by norm_num
  have hdpos : (0 : ℚ) < b.quotient.2 := Nat.cast_pos.mpr b.quotient_pos
  have hplaces : (0 : ℚ) < 10 ^ sufficientPlaces := by positivity
  have hl := Int.zpow_log_le_self (b := 10) (by decide) hx
  have hu := Int.lt_zpow_succ_log_self (b := 10) (by decide) b.toRat
  have hleast : (10 : ℚ) ^ k ≤ b.toRat * 10 ^ sufficientPlaces := by
    have hsplit := mul_le_mul_of_nonneg_right hl hplaces.le
    rw [Nat.cast_ofNat, ← zpow_natCast, ← zpow_add₀ hten, hk, zpow_natCast] at hsplit
    exact hsplit
  have hmost : b.toRat * 10 ^ sufficientPlaces < (10 : ℚ) ^ (k + 1) := by
    have hsplit := mul_lt_mul_of_pos_right hu hplaces
    rw [Nat.cast_ofNat, ← zpow_natCast, ← zpow_add₀ hten, add_right_comm, hk] at hsplit
    exact_mod_cast hsplit
  refine digitCount_eq ((Nat.le_div_iff_mul_le b.quotient_pos).mpr ?_)
    ((Nat.div_lt_iff_lt_mul b.quotient_pos).mpr ?_)
  · rw [← Nat.cast_le (α := ℚ), Nat.cast_mul, Nat.cast_mul, cast_pow10, cast_pow10,
      b.quotient_eq, mul_right_comm]
    exact mul_le_mul_of_nonneg_right hleast hdpos.le
  · rw [← Nat.cast_lt (α := ℚ), Nat.cast_mul, Nat.cast_mul, cast_pow10, cast_pow10,
      b.quotient_eq, mul_right_comm]
    exact mul_lt_mul_of_pos_right hmost hdpos

/-- A double in digits up to a place is rounded to the nearest multiple of the place. -/
theorem roundsTo_digits (b : Binary) (place : ℤ) :
    RoundsTo (10 ^ place) b.toRat (divideRounded .toEven (b.quotient.1 * pow10 (-place).toNat)
      (b.quotient.2 * pow10 place.toNat) * 10 ^ place) := by
  refine .of_divideRounded (Nat.mul_pos b.quotient_pos (pow10_pos _)) (ten_zpow_pos place) ?_
  rw [Nat.cast_mul, Nat.cast_mul, cast_pow10, cast_pow10, pow_toNat (by norm_num) place,
    b.quotient_eq]
  ring

/-- A number has six digits up to its sixth significant one, if it is not rounded to seven. -/
theorem digits_bounds {x : ℚ} {r : Nat} (hx : 0 < x)
    (h : RoundsTo (10 ^ lastFigure x) x (r * 10 ^ lastFigure x)) : pow10 5 ≤ r ∧ r ≤ pow10 6 := by
  have hunit := ten_zpow_pos (lastFigure x)
  have hleast := le_of_mul_le_mul_right (h.multiple_le hunit (leading_le hx)) hunit
  have hmost := le_of_mul_le_mul_right (h.le_multiple hunit (lt_leading hx).le) hunit
  exact ⟨by exact_mod_cast hleast, by exact_mod_cast hmost⟩

/-- A double rounded to significant digits is the nearest decimal with six digits. -/
theorem exists_toSignificant (hx : 0 < b.toRat) (hl : -336 ≤ Int.log 10 b.toRat) :
    ∃ r l, b.toSignificant = (r, l) ∧ pow10 5 ≤ r ∧ r < pow10 6 ∧
      lastFigure b.toRat + 5 ≤ l ∧ l ≤ lastFigure b.toRat + 6 ∧
      RoundsTo (10 ^ lastFigure b.toRat) b.toRat (r * 10 ^ (l - 5)) := by
  obtain ⟨k, hk⟩ := Int.eq_ofNat_of_zero_le
    (show 0 ≤ Int.log 10 b.toRat + sufficientPlaces by rw [sufficientPlaces]; omega)
  have hcount := digitCount_scaled hx hk
  have hplace : ((k + 1 - generalDigits : Nat) : ℤ) - sufficientPlaces = lastFigure b.toRat := by
    rw [lastFigure, abs_of_pos hx, generalDigits]
    rw [sufficientPlaces] at hk ⊢
    omega
  have hround := b.roundsTo_digits (lastFigure b.toRat)
  generalize hr : divideRounded .toEven (b.quotient.1 * pow10 (-lastFigure b.toRat).toNat)
    (b.quotient.2 * pow10 (lastFigure b.toRat).toNat) = rounded at hround
  obtain ⟨hleast, hmost⟩ := digits_bounds hx hround
  rw [toSignificant]
  dsimp only
  rw [hcount, hplace, hr]
  split
  · next hcarry =>
    -- rounding up to seven digits moves the leading digit
    have hsplit : lastFigure b.toRat + generalDigits - 5 = 1 + lastFigure b.toRat := by
      rw [generalDigits]
      omega
    refine ⟨_, _, rfl, le_rfl, by decide, by omega, by omega, ?_⟩
    rw [hcarry, cast_pow10] at hround
    rw [cast_pow10, hsplit, ten_zpow_add, ← mul_assoc, zpow_one, ← pow_succ]
    exact hround
  · next hkept =>
    have hsplit : lastFigure b.toRat + generalDigits - 1 - 5 = lastFigure b.toRat := by
      rw [generalDigits]
      omega
    refine ⟨_, _, rfl, hleast, lt_of_le_of_ne hmost hkept, by omega, by omega, ?_⟩
    rw [hsplit]
    exact hround

/-- A power of ten in general notation is read as its value. -/
theorem isPower_powerText (power : Int) : Written.IsPower (powerText power) power := by
  have hdigits : ∀ c ∈ Nat.toDigits 10 power.natAbs, isLatinDigit c = true := fun c hc =>
    isLatinDigit_of_mem_toDigits hc
  refine .marked (.inl rfl) (Written.powerOf?_sign ?_)
  split
  · rw [Written.naturalOf?_eq (List.cons_ne_nil _ _)
      (List.forall_mem_cons.mpr ⟨by decide, hdigits⟩), Nat.ofDigitChars_cons]
    exact congrArg some Nat.ofDigitChars_ten_toDigits
  · rw [Written.naturalOf?_eq Nat.toDigits_ne_nil hdigits, Nat.ofDigitChars_ten_toDigits]

/-- Characters of a power of ten in general notation. -/
theorem mem_powerText {power : Int} {c : Char} (h : c ∈ powerText power) :
    isLatinDigit c = true ∨ c = 'e' ∨ c = '-' ∨ c = '+' := by
  rcases List.mem_cons.mp h with rfl | h
  · exact .inr (.inl rfl)
  rcases List.mem_cons.mp h with rfl | h
  · split
    · exact .inr (.inr (.inl rfl))
    · exact .inr (.inr (.inr rfl))
  · left
    split at h
    · rcases List.mem_cons.mp h with rfl | h
      · decide
      · exact isLatinDigit_of_mem_toDigits h
    · exact isLatinDigit_of_mem_toDigits h

/-- Characters of a power of ten are neither blank nor left out, and lie in ASCII. -/
theorem of_mem_powerText {power : Int} {c : Char} (h : c ∈ powerText power) :
    isBlank c = false ∧ c ≠ '_' ∧ c.toNat < 128 := by
  rcases mem_powerText h with hdigit | rfl | rfl | rfl
  · obtain ⟨hblank, -, hascii⟩ := of_isLatinDigit hdigit
    refine ⟨hblank, ?_, hascii⟩
    rintro rfl
    exact absurd hdigit (by decide)
  · decide
  · decide
  · decide

/-- The digits of a number text with its point. -/
theorem decimalText_eq (w : Written) : w.decimalText = w.whole ++ pointed w.fraction := by
  rw [Written.decimalText, pointed]
  by_cases hf : w.fraction = []
  · rw [if_pos hf, hf, List.isEmpty_nil, if_pos rfl, List.append_nil]
  · rw [if_neg hf, List.isEmpty_eq_false_iff.mpr hf, if_neg Bool.false_ne_true]

/-- Six digits stay six with the zeros that are split off their end. -/
theorem digitCount_add {r c zeros : Nat} (hleast : pow10 5 ≤ r) (hmost : r < pow10 6)
    (h : c * pow10 zeros = r) : c ≠ 0 ∧ digitCount c + zeros = 6 := by
  have hc : c ≠ 0 := by
    rintro rfl
    rw [Nat.zero_mul] at h
    exact absurd hleast (not_le.mpr (h ▸ pow10_pos 5))
  refine ⟨hc, ?_⟩
  rw [← digitCount_mul_pow10 hc, h]
  exact digitCount_eq hleast hmost

/-- Six digits, without zeros at their end, are read where their point and their power of ten put
them. -/
theorem exists_read?_pointed {r : Nat} {l : Int} (hleast : pow10 5 ≤ r) (hmost : r < pow10 6)
    (hl : -1000 ≤ l) (hu : l ≤ 1000) (negative : Bool) {whole : List Char} (hne : whole ≠ [])
    (fraction : List Char) {tail : List Char} (power : Int) {zeros : Nat}
    (hlatin : ∀ d ∈ whole ++ fraction, isLatinDigit d = true)
    (htail : tail = [] ∧ power = 0 ∨ tail = powerText power)
    (hvalue : Nat.ofDigitChars 10 (whole ++ fraction) 0 * pow10 zeros = r)
    (hplaces : power - fraction.length = l - 5 + zeros) :
    ∃ c zeros, c * pow10 zeros = r ∧
      read? ((if negative then ['-'] else []) ++ (whole ++ pointed fraction ++ tail)) =
        some (.finite negative c (l - 5 + zeros)) := by
  let w : Written := ⟨whole, fraction, none, hne, hlatin⟩
  have hpower : Written.IsPower tail power := by
    rcases htail with ⟨rfl, rfl⟩ | rfl
    · exact .none
    · exact isPower_powerText power
  have hplain : ∀ c ∈ tail, isBlank c = false ∧ c ≠ '_' ∧ c.toNat < 128 := by
    rcases htail with ⟨rfl, -⟩ | rfl
    · exact fun c hc => absurd hc List.not_mem_nil
    · exact fun c hc => of_mem_powerText hc
  have hcount : digitCount w.coefficient + zeros = 6 := (digitCount_add hleast hmost hvalue).2
  have hread := w.read?_append negative hplain hpower
    (by rw [leastExponent, hplaces]; omega) (by rw [greatestExponent, hplaces]; omega)
  rw [decimalText_eq, hplaces] at hread
  exact ⟨w.coefficient, zeros, hvalue, hread⟩

/-- Digits keep their value up to a power of ten without the zeros at their end behind a place. -/
theorem exists_withoutZeros (digits : List Char) (place : Nat) : ∃ zeros,
    Nat.ofDigitChars 10 (digits.take place ++ withoutZeros (digits.drop place)) 0 * pow10 zeros =
      Nat.ofDigitChars 10 digits 0 ∧
    (withoutZeros (digits.drop place)).length + zeros = digits.length - place ∧
    ∀ d ∈ digits.take place ++ withoutZeros (digits.drop place), d ∈ digits := by
  obtain ⟨zeros, hzeros⟩ := exists_replicate_end '0' (digits.drop place)
  rw [← withoutZeros] at hzeros
  have hwhole : (digits.take place ++ withoutZeros (digits.drop place)) ++
      List.replicate zeros '0' = digits := by
    rw [List.append_assoc, ← hzeros, List.take_append_drop]
  refine ⟨zeros, ?_, ?_, fun d hd => ?_⟩
  · rw [← ofDigitChars_append_zeros, hwhole]
  · have hcount := congrArg List.length hzeros
    rw [List.length_drop, List.length_append, List.length_replicate] at hcount
    exact hcount.symm
  · rw [← hwhole]
    exact List.mem_append_left _ hd

/-- A double in general notation is read as the decimal that it is rounded to. -/
theorem exists_read?_generalText {r : Nat} {l : Int} (negative : Bool) (hm : b.mantissa ≠ 0)
    (h : b.toSignificant = (r, l)) (hleast : pow10 5 ≤ r) (hmost : r < pow10 6)
    (hl : -1000 ≤ l) (hu : l ≤ 1000) :
    ∃ c zeros, c * pow10 zeros = r ∧
      read? (b.generalText negative).toList = some (.finite negative c (l - 5 + zeros)) := by
  have hlatin : ∀ d ∈ Nat.toDigits 10 r, isLatinDigit d = true := fun d hd =>
    isLatinDigit_of_mem_toDigits hd
  have hvalue : Nat.ofDigitChars 10 (Nat.toDigits 10 r) 0 = r := Nat.ofDigitChars_ten_toDigits
  have hlength : (Nat.toDigits 10 r).length = 6 := digitCount_eq hleast hmost
  rw [generalText, if_neg hm, h]
  dsimp only
  rw [String.toList_ofList]
  generalize Nat.toDigits 10 r = digits at hlatin hvalue hlength ⊢
  have hne : ∀ place, 0 < place → digits.take place ≠ [] := by
    intro place hplace
    rw [← List.length_pos_iff, List.length_take]
    omega
  by_cases hpower : l < leastPositional ∨ (generalDigits : Int) ≤ l
  · -- one digit in front of the point and a power of ten
    obtain ⟨zeros, hr, hplaces, hdigits⟩ := exists_withoutZeros digits 1
    rw [if_pos hpower]
    exact exists_read?_pointed hleast hmost hl hu negative (hne 1 one_pos) _ l
      (fun d hd => hlatin d (hdigits d hd)) (.inr rfl) (hr.trans hvalue) (by omega)
  have hscope : ¬(l < -4 ∨ 6 ≤ l) := hpower
  rw [if_neg hpower]
  by_cases hsmall : l < 0
  · -- zeros around the point
    obtain ⟨zeros, hr, hplaces, hdigits⟩ := exists_withoutZeros digits 0
    rw [List.take_zero, List.drop_zero, List.nil_append] at hr hdigits
    rw [List.drop_zero] at hplaces
    rw [if_pos hsmall]
    have hread := exists_read?_pointed hleast hmost hl hu negative (List.cons_ne_nil '0' [])
      (List.replicate (-l - 1).toNat '0' ++ withoutZeros digits) 0
      (isLatinDigit_leadingZeros (fun d hd => hlatin d (hdigits d hd)) _) (.inl ⟨rfl, rfl⟩)
      ((congrArg (· * pow10 zeros) (ofDigitChars_leadingZeros _ _)).trans (hr.trans hvalue)) (by
        rw [List.length_append, List.length_replicate]
        omega)
    rwa [List.append_nil] at hread
  · -- the point among the digits
    obtain ⟨zeros, hr, hplaces, hdigits⟩ := exists_withoutZeros digits (l.toNat + 1)
    rw [if_neg hsmall]
    have hread := exists_read?_pointed hleast hmost hl hu negative (hne _ l.toNat.succ_pos) _ 0
      (fun d hd => hlatin d (hdigits d hd)) (.inl ⟨rfl, rfl⟩) (hr.trans hvalue) (by omega)
    rwa [List.append_nil] at hread

end Binary

end UnitCalculator
