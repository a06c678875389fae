import UnitCalculator.Expression.Equation
import UnitCalculator.Proofs.Failure
import UnitCalculator.Proofs.Text.Matching

/-!
# Scanning lexemes again

The text of a scanned lexeme is scanned to the same lexeme wherever what follows neither continues
it nor turns a name into a call.
-/

namespace UnitCalculator

namespace Scanner

open Text

/-- Digits with at most one point. -/
def IsDecimal (text : List Char) : Prop :=
  ∃ whole, (∀ c ∈ whole, isDecimalDigit c = true) ∧
    ((whole ≠ [] ∧ text = whole) ∨
      ∃ fraction, (∀ c ∈ fraction, isDecimalDigit c = true) ∧
        (whole ≠ [] ∨ fraction ≠ []) ∧ text = whole ++ '.' :: fraction)

/-- A mark, an optional sign and digits. -/
def IsPower (text : List Char) : Prop :=
  ∃ mark sign digits, (mark = 'e' ∨ mark = 'E') ∧ (sign = [] ∨ sign = ['+'] ∨ sign = ['-']) ∧
    digits ≠ [] ∧ (∀ c ∈ digits, isDecimalDigit c = true) ∧ text = mark :: (sign ++ digits)

/-- Digits with at most one point and at most one power of ten. -/
def IsNumeral (text : List Char) : Prop :=
  ∃ decimal power, IsDecimal decimal ∧ (power = [] ∨ IsPower power) ∧ text = decimal ++ power

/-- Neither a digit, nor a point, nor a power of ten follows. -/
structure EndsNumeral (rest : List Char) : Prop where
  /-- No digit follows. -/
  digit : Ends isDecimalDigit rest
  /-- No point follows. -/
  point : Ends (· = '.') rest
  /-- No power of ten follows. -/
  power : powerLength rest = 0

variable {text rest : List Char}

/-- The digits of a decimal are found in front of what follows. -/
theorem digitsLength_append (h : IsDecimal text) (hd : Ends isDecimalDigit rest)
    (hp : Ends (· = '.') rest) : digitsLength (text ++ rest) = text.length := by
  obtain ⟨whole, hw, ⟨hne, rfl⟩ | ⟨fraction, hf, hne, rfl⟩⟩ := h
  · have htake := takeWhile_append hw hd
    rw [digitsLength, htake, List.drop_left]
    cases rest with
    | nil => rfl
    | cons c rest =>
      have hc : c ≠ '.' := by simpa using hp c (by simp)
      split
      · next he => exact absurd (List.cons.inj he).1 hc
      · rfl
  · have htake : (whole ++ '.' :: (fraction ++ rest)).takeWhile isDecimalDigit = whole :=
      takeWhile_append hw (.cons (by decide))
    rw [List.append_assoc, List.cons_append, digitsLength, htake, List.drop_left]
    simp only [takeWhile_append hf hd]
    rw [if_neg, List.length_append, List.length_cons]
    · omega
    · rintro ⟨hwhole, hfraction⟩
      rcases hne with hne | hne
      · exact hne (List.length_eq_zero_iff.mp hwhole)
      · exact hne (List.length_eq_zero_iff.mp hfraction)

/-- A text is its first run of digits and what stands behind it. -/
theorem exists_run (text : List Char) : ∃ run rest, text = run ++ rest ∧
    (∀ c ∈ run, isDecimalDigit c = true) ∧ Ends isDecimalDigit rest ∧
    text.takeWhile isDecimalDigit = run := by
  refine ⟨text.takeWhile isDecimalDigit, text.dropWhile isDecimalDigit, ?_, ?_, ?_, rfl⟩
  · exact List.takeWhile_append_dropWhile.symm
  · exact fun c hc => List.mem_takeWhile_imp hc
  · exact ends_dropWhile text

/-- What has the length of its digits is a decimal. -/
theorem isDecimal_take (h : digitsLength text ≠ 0) :
    IsDecimal (text.take (digitsLength text)) := by
  obtain ⟨whole, behind, rfl, hw, hends, htake⟩ := exists_run text
  have hplain : (∀ rest, behind ≠ '.' :: rest) →
      digitsLength (whole ++ behind) = whole.length := by
    intro hpoint
    rw [digitsLength, htake, List.drop_left]
    split
    · next rest => exact absurd rfl (hpoint rest)
    · rfl
  by_cases hpoint : ∃ rest, behind = '.' :: rest
  · obtain ⟨rest, rfl⟩ := hpoint
    obtain ⟨fraction, after, rfl, hf, -, hfraction⟩ := exists_run rest
    rw [digitsLength, htake, List.drop_left] at h ⊢
    simp only [hfraction] at h ⊢
    split at h
    · exact absurd rfl h
    · next hne =>
      refine ⟨whole, hw, .inr ⟨fraction, hf, ?_, ?_⟩⟩
      · by_contra hnot
        simp only [not_or, not_not] at hnot
        exact hne ⟨by rw [hnot.1]; rfl, by rw [hnot.2]; rfl⟩
      · rw [if_neg hne, Nat.add_assoc, List.take_length_add_append, Nat.add_comm,
          List.take_succ_cons, List.take_left]
  · have hlength := hplain fun rest he => hpoint ⟨rest, he⟩
    have hne : whole ≠ [] := fun hnil => h (by rw [hlength, hnil]; rfl)
    exact ⟨whole, hw, .inl ⟨hne, by rw [hlength, List.take_left]⟩⟩

/-- A sign is no digit. -/
theorem sign_of_digit {c : Char} (h : isDecimalDigit c = true) : c ≠ '+' ∧ c ≠ '-' := by
  constructor
  · rintro rfl
    exact absurd h (by decide)
  · rintro rfl
    exact absurd h (by decide)

/-- The length of a power of ten with a given sign. -/
theorem powerLength_cons {mark : Char} (sign behind : List Char)
    (hmark : mark = 'e' ∨ mark = 'E')
    (hsign : sign = ['+'] ∨ sign = ['-'] ∨
      sign = [] ∧ Ends (· = '+') behind ∧ Ends (· = '-') behind) :
    powerLength (mark :: (sign ++ behind)) =
      if (behind.takeWhile isDecimalDigit).length = 0 then 0
      else 1 + sign.length + (behind.takeWhile isDecimalDigit).length := by
  rcases hsign with rfl | rfl | ⟨rfl, hplus, hminus⟩
  · simp [powerLength, hmark]
  · simp [powerLength, hmark]
  · cases behind with
    | nil => simp [powerLength, hmark]
    | cons c behind =>
      have hp : c ≠ '+' := by simpa using hplus c (by simp)
      have hm : c ≠ '-' := by simpa using hminus c (by simp)
      simp [powerLength, hmark, hp, hm]

/-- What follows a mark is an optional sign and what stands behind it. -/
theorem exists_sign (rest : List Char) : ∃ sign behind, rest = sign ++ behind ∧
    (sign = ['+'] ∨ sign = ['-'] ∨
      sign = [] ∧ Ends (· = '+') behind ∧ Ends (· = '-') behind) := by
  cases rest with
  | nil => exact ⟨[], [], rfl, .inr (.inr ⟨rfl, .nil, .nil⟩)⟩
  | cons c rest =>
    by_cases hp : c = '+'
    · exact ⟨['+'], rest, by rw [hp]; rfl, .inl rfl⟩
    · by_cases hm : c = '-'
      · exact ⟨['-'], rest, by rw [hm]; rfl, .inr (.inl rfl)⟩
      · exact ⟨[], c :: rest, rfl, .inr (.inr ⟨rfl, .cons (by simpa using hp),
          .cons (by simpa using hm)⟩)⟩

/-- The power of ten is found in front of what follows. -/
theorem powerLength_append (h : IsPower text) (hd : Ends isDecimalDigit rest) :
    powerLength (text ++ rest) = text.length := by
  obtain ⟨mark, sign, digits, hmark, hsign, hne, hdigits, rfl⟩ := h
  have htake := takeWhile_append hdigits hd
  have hlength : digits.length ≠ 0 := fun hl => hne (List.length_eq_zero_iff.mp hl)
  have hsign' : sign = ['+'] ∨ sign = ['-'] ∨ sign = [] ∧
      Ends (· = '+') (digits ++ rest) ∧ Ends (· = '-') (digits ++ rest) := by
    rcases hsign with rfl | rfl | rfl
    · cases digits with
      | nil => exact absurd rfl hne
      | cons d digits =>
        obtain ⟨hplus, hminus⟩ := sign_of_digit (hdigits d (by simp))
        exact .inr (.inr ⟨rfl, .cons (by simpa using hplus), .cons (by simpa using hminus)⟩)
    · exact .inl rfl
    · exact .inr (.inl rfl)
  rw [List.cons_append, List.append_assoc, powerLength_cons sign _ hmark hsign', htake,
    if_neg hlength, List.length_cons, List.length_append]
  omega

/-- What has the length of its power of ten is one. -/
theorem isPower_take (h : powerLength text ≠ 0) : IsPower (text.take (powerLength text)) := by
  cases text with
  | nil => exact absurd rfl h
  | cons mark rest =>
    by_cases hmark : mark = 'e' ∨ mark = 'E'
    · obtain ⟨sign, behind, rfl, hsign⟩ := exists_sign rest
      obtain ⟨digits, after, rfl, hdigits, -, htake⟩ := exists_run behind
      rw [powerLength_cons sign _ hmark hsign, htake] at h ⊢
      have hne : digits.length ≠ 0 := fun hl => h (if_pos hl)
      refine ⟨mark, sign, digits, hmark, ?_, fun hnil => hne (by rw [hnil]; rfl), hdigits, ?_⟩
      · rcases hsign with hs | hs | ⟨hs, -⟩
        · exact .inr (.inl hs)
        · exact .inr (.inr hs)
        · exact .inl hs
      · rw [if_neg hne, Nat.add_assoc, Nat.add_comm, List.take_succ_cons, ← List.append_assoc,
          ← List.length_append, List.take_left]
    · exact absurd (by simp [powerLength, hmark]) h

/-- A numeral is found in front of what follows. -/
theorem numberLength_append (h : IsNumeral text) (he : EndsNumeral rest) :
    numberLength (text ++ rest) = text.length := by
  obtain ⟨decimal, power, hdecimal, hpower, rfl⟩ := h
  have hne : decimal.length ≠ 0 := by
    obtain ⟨whole, -, ⟨hwhole, rfl⟩ | ⟨fraction, -, -, rfl⟩⟩ := hdecimal
    · exact fun hl => hwhole (List.length_eq_zero_iff.mp hl)
    · simp
  rw [List.append_assoc]
  rcases hpower with rfl | hpower
  · have hlength := digitsLength_append hdecimal he.digit he.point
    rw [List.nil_append, List.append_nil, numberLength, hlength, List.drop_left, he.power]
    simp [hne]
  · have hfollows : Ends isDecimalDigit (power ++ rest) ∧ Ends (· = '.') (power ++ rest) := by
      obtain ⟨mark, sign, digits, hmark, -, -, -, rfl⟩ := hpower
      rcases hmark with rfl | rfl
      · exact ⟨.cons (by decide), .cons (by decide)⟩
      · exact ⟨.cons (by decide), .cons (by decide)⟩
    have hlength := digitsLength_append hdecimal hfollows.1 hfollows.2
    rw [numberLength, hlength, List.drop_left, powerLength_append hpower he.digit]
    simp [hne]

/-- What has the length of its number is a numeral. -/
theorem isNumeral_take (h : numberLength text ≠ 0) :
    IsNumeral (text.take (numberLength text)) := by
  have hdigits : digitsLength text ≠ 0 := fun hzero => h (by rw [numberLength, if_pos hzero])
  rw [numberLength, if_neg hdigits, List.take_add]
  refine ⟨_, _, isDecimal_take hdigits, ?_, rfl⟩
  by_cases hpower : powerLength (text.drop (digitsLength text)) = 0
  · left
    rw [hpower, List.take_zero]
  · exact .inr (isPower_take hpower)

/-- Code points of decimal digits. -/
theorem toNat_of_isDecimalDigit {c : Char} (h : isDecimalDigit c = true) :
    (48 ≤ c.toNat ∧ c.toNat ≤ 57) ∨ 1632 ≤ c.toNat := by
  have hall : ∀ first ∈ zeroDigits, first = 48 ∨ 1632 ≤ first := by decide
  simp only [isDecimalDigit, digitValue?, Option.isSome_map, List.find?_isSome, Bool.and_eq_true,
    decide_eq_true_eq] at h
  obtain ⟨first, hf, hl, hu⟩ := h
  rcases hall first hf with rfl | hfirst <;> omega

/-- Decimal digits are no blanks. -/
theorem isBlank_of_isDecimalDigit {c : Char} (h : isDecimalDigit c = true) :
    isBlank c = false := by
  have hspaces : ∀ first ∈ zeroDigits, 32 < first ∧
      ∀ space ∈ wideSpaces, ¬ (first ≤ space ∧ space < first + 10) := by decide
  simp only [isDecimalDigit, digitValue?, Option.isSome_map, List.find?_isSome, Bool.and_eq_true,
    decide_eq_true_eq] at h
  obtain ⟨first, hf, hl, hu⟩ := h
  obtain ⟨hfirst, hwide⟩ := hspaces first hf
  refine Bool.eq_false_iff.mpr fun hb => ?_
  rcases isBlank_iff.mp hb with hb | hb | hb
  · omega
  · omega
  · exact hwide _ hb ⟨hl, hu⟩

/-- A decimal starts with a digit or a point. -/
theorem IsNumeral.head {c : Char} {tail : List Char} (h : IsNumeral (c :: tail)) :
    isDecimalDigit c = true ∨ c = '.' := by
  obtain ⟨decimal, power, ⟨whole, hw, hdecimal⟩, -, he⟩ := h
  cases whole with
  | cons d whole =>
    have hd : isDecimalDigit d = true := hw d (by simp)
    rcases hdecimal with ⟨-, rfl⟩ | ⟨fraction, -, -, rfl⟩
    · exact .inl (by rw [(List.cons.inj he).1]; exact hd)
    · exact .inl (by rw [(List.cons.inj he).1]; exact hd)
  | nil =>
    rcases hdecimal with ⟨hne, -⟩ | ⟨fraction, -, -, rfl⟩
    · exact absurd rfl hne
    · exact .inr (List.cons.inj he).1

/-- A numeral has characters. -/
theorem IsNumeral.ne_nil (h : IsNumeral text) : text ≠ [] := by
  obtain ⟨decimal, power, ⟨whole, -, ⟨hne, rfl⟩ | ⟨fraction, -, -, rfl⟩⟩, -, rfl⟩ := h
  · simp [hne]
  · simp

/-- A text that starts with neither a digit nor a point starts with no number. -/
theorem numberLength_eq_zero {c : Char} (hd : isDecimalDigit c = false) (hp : c ≠ '.')
    (tail : List Char) : numberLength (c :: tail) = 0 := by
  have hdigits : digitsLength (c :: tail) = 0 := by
    simp only [digitsLength, List.takeWhile_cons, hd]
    rw [if_neg (by decide), List.length_nil, List.drop_zero]
    split
    · next he => exact absurd (List.cons.inj he).1 hp
    · rfl
  rw [numberLength, if_pos hdigits]

/-- Digits at the start of a text lie in it. -/
theorem digitsLength_le (text : List Char) : digitsLength text ≤ text.length := by
  obtain ⟨whole, behind, rfl, -, -, hwhole⟩ := exists_run text
  rw [digitsLength, hwhole, List.drop_left]
  dsimp only
  split
  · next rest =>
    have hfraction := (List.takeWhile_prefix isDecimalDigit (l := rest)).length_le
    split
    · exact Nat.zero_le _
    · simp only [List.length_append, List.length_cons]
      omega
  · simp

/-- A power of ten at the start of a text lies in it. -/
theorem powerLength_le (text : List Char) : powerLength text ≤ text.length := by
  cases text with
  | nil => exact Nat.le_refl 0
  | cons mark rest =>
    obtain ⟨sign, behind, rfl, hsign⟩ := exists_sign rest
    by_cases hmark : mark = 'e' ∨ mark = 'E'
    · have hdigits := (List.takeWhile_prefix isDecimalDigit (l := behind)).length_le
      rw [powerLength_cons sign behind hmark hsign, List.length_cons, List.length_append]
      split <;> omega
    · simp [powerLength, hmark]

/-- A number at the start of a text lies in it. -/
theorem numberLength_le (text : List Char) : numberLength text ≤ text.length := by
  have hdigits := digitsLength_le text
  have hpower := powerLength_le (text.drop (digitsLength text))
  rw [List.length_drop] at hpower
  rw [numberLength]
  split
  · exact Nat.zero_le _
  · omega

end Scanner

end UnitCalculator
