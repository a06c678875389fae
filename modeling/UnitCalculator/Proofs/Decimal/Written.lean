import Mathlib.Data.List.TakeWhile
import UnitCalculator.Decimal.Display
import UnitCalculator.Decimal.Reading
import UnitCalculator.Proofs.Decimal.Form
import UnitCalculator.Proofs.Text.Matching

/-!
# Parts of number texts

A number text without its sign consists of the digits before the point, those behind it and a power
of ten. Reading joins the digits and takes the places behind the point from the power, so that zeros
that end the digits behind the point can be left out: the same value is read in a shorter form.
-/

namespace UnitCalculator

namespace Text

/-- Code points of ASCII digits. -/
theorem toNat_of_isLatinDigit {c : Char} (h : isLatinDigit c = true) :
    48 ≤ c.toNat ∧ c.toNat ≤ 57 := by
  simp only [isLatinDigit, Bool.and_eq_true, decide_eq_true_eq] at h
  exact h

/-- The value of an ASCII digit. -/
theorem digitValue?_of_isLatinDigit {c : Char} (h : isLatinDigit c = true) :
    digitValue? c = some (c.toNat - 48) := by
  obtain ⟨hl, hu⟩ := toNat_of_isLatinDigit h
  have hfirst : (decide (48 ≤ c.toNat) && decide (c.toNat < 48 + 10)) = true := by
    simp only [Bool.and_eq_true, decide_eq_true_eq]
    omega
  have hfind : zeroDigits.find? (fun first => first ≤ c.toNat && c.toNat < first + 10) = some 48 :=
    List.find?_cons_of_pos hfirst
  rw [digitValue?, hfind, Option.map_some]

/-- The value of a run of ASCII digits. -/
theorem digitsValue?_of_isLatinDigit {digits : List Char}
    (h : ∀ c ∈ digits, isLatinDigit c = true) :
    digitsValue? digits = some (Nat.ofDigitChars 10 digits 0) := by
  rw [digitsValue?]
  generalize 0 = before
  induction digits generalizing before with
  | nil => rfl
  | cons c digits ih =>
    obtain ⟨hc, hrest⟩ := List.forall_mem_cons.mp h
    rw [List.foldl_cons, Option.bind_some, digitValue?_of_isLatinDigit hc, Option.map_some,
      ih hrest, Nat.ofDigitChars_cons]
    rfl

/-- An ASCII digit is neither blank nor a letter, and lies in ASCII. -/
theorem of_isLatinDigit {c : Char} (h : isLatinDigit c = true) :
    isBlank c = false ∧ c.toLower = c ∧ c.toNat < 128 := by
  obtain ⟨hl, hu⟩ := toNat_of_isLatinDigit h
  refine ⟨?_, ?_, by omega⟩
  · have hwide : ∀ space ∈ wideSpaces, 57 < space := by decide
    refine Bool.eq_false_iff.mpr fun hb => ?_
    rcases isBlank_iff.mp hb with hb | hb | hb
    · omega
    · omega
    · exact absurd (hwide _ hb) (by omega)
  · have hlower : ¬(c.val ≥ 'A'.val ∧ c.val ≤ 'Z'.val) := by
      rintro ⟨hupper, -⟩
      have hletter : 65 ≤ c.toNat := hupper
      omega
    exact dif_neg hlower

/-- The digits of a number are ASCII digits. -/
theorem isLatinDigit_of_mem_toDigits {c : Char} {n : Nat} (h : c ∈ Nat.toDigits 10 n) :
    isLatinDigit c = true :=
  Nat.isDigit_of_mem_toDigits (by decide) (by decide) h

/-- A text without a class is left by stripping it. -/
theorem strip_eq_self {p : Char → Bool} {text : List Char} (h : ∀ c ∈ text, p c = false) :
    strip p text = text := by
  have hends : ∀ text : List Char, (∀ c ∈ text, p c = false) → Ends p text :=
    fun text ht c hc => ht c (List.mem_of_mem_head? hc)
  rw [strip, dropWhile_of_ends (hends _ h),
    dropWhile_of_ends (hends _ fun c hc => h c (List.mem_reverse.mp hc)), List.reverse_reverse]

/-- What is left out at the end of a text is one character in a row. -/
theorem exists_replicate_end (last : Char) (text : List Char) :
    ∃ n, text = (text.reverse.dropWhile (· = last)).reverse ++ List.replicate n last := by
  have hend : text.reverse.takeWhile (· = last) =
      List.replicate (text.reverse.takeWhile (· = last)).length last :=
    List.eq_replicate_iff.mpr ⟨rfl, fun c hc => by simpa using List.mem_takeWhile_imp hc⟩
  refine ⟨(text.reverse.takeWhile (· = last)).length, ?_⟩
  rw [← List.reverse_replicate, ← hend, ← List.reverse_append, List.takeWhile_append_dropWhile,
    List.reverse_reverse]

/-- Zeros at the end of digits are a power of ten. -/
theorem ofDigitChars_append_zeros (digits : List Char) (zeros : Nat) :
    Nat.ofDigitChars 10 (digits ++ List.replicate zeros '0') 0 =
      Nat.ofDigitChars 10 digits 0 * pow10 zeros := by
  rw [Nat.ofDigitChars_append, Nat.ofDigitChars_replicate_zero, Nat.mul_comm]
  rfl

/-- Zeros in front of digits do not count. -/
theorem ofDigitChars_leadingZeros (zeros : Nat) (digits : List Char) :
    Nat.ofDigitChars 10 ('0' :: (List.replicate zeros '0' ++ digits)) 0 =
      Nat.ofDigitChars 10 digits 0 := by
  rw [Nat.ofDigitChars_cons, Nat.ofDigitChars_append, Nat.ofDigitChars_replicate_zero]
  rfl

/-- Zeros in front of digits are digits. -/
theorem isLatinDigit_leadingZeros {digits : List Char}
    (h : ∀ d ∈ digits, isLatinDigit d = true) (zeros : Nat) :
    ∀ d ∈ '0' :: (List.replicate zeros '0' ++ digits), isLatinDigit d = true := by
  intro d hd
  rcases List.mem_cons.mp hd with rfl | hd
  · decide
  · rcases List.mem_append.mp hd with hd | hd
    · rw [(List.mem_replicate.mp hd).2]
      decide
    · exact h d hd

end Text

namespace Decimal

open Text

/-- The parts of a number text without its sign. -/
structure Written where
  whole : List Char
  fraction : List Char
  power : Option Int
  /-- A digit stands before the point. -/
  whole_ne_nil : whole ≠ []
  /-- Digits are those of ASCII. -/
  digits : ∀ c ∈ whole ++ fraction, isLatinDigit c = true

/-- A power of ten as it is written. -/
def powerText : Option Int → List Char
  | none => []
  | some power => 'E' :: (if power < 0 then '-' else '+') :: Nat.toDigits 10 power.natAbs

namespace Written

/-- The digits, with a point if any stand behind it. -/
def decimalText (w : Written) : List Char :=
  if w.fraction = [] then w.whole else w.whole ++ '.' :: w.fraction

/-- The text of the parts. -/
def text (w : Written) : List Char := w.decimalText ++ powerText w.power

/-- The digits as a number. -/
def coefficient (w : Written) : Nat := Nat.ofDigitChars 10 (w.whole ++ w.fraction) 0

/-- The exponent of the last digit. -/
def exponent (w : Written) : Int := w.power.getD 0 - w.fraction.length

/-- An integer. -/
def ofNat (n : Nat) : Written :=
  ⟨Nat.toDigits 10 n, [], none, Nat.toDigits_ne_nil, fun _ hc =>
    isLatinDigit_of_mem_toDigits (List.append_nil _ ▸ hc)⟩

/-- The parts without zeros that end the digits behind the point. -/
def trim (w : Written) : Written :=
  ⟨w.whole, (w.fraction.reverse.dropWhile (· = '0')).reverse, w.power, w.whole_ne_nil, by
    intro c hc
    refine w.digits c ?_
    rcases List.mem_append.mp hc with hc | hc
    · exact List.mem_append_left _ hc
    · refine List.mem_append_right _ (List.mem_reverse.mp ?_)
      exact (List.dropWhile_sublist _).mem (List.mem_reverse.mp hc)⟩

@[simp] theorem trim_whole (w : Written) : w.trim.whole = w.whole := rfl

@[simp] theorem trim_power (w : Written) : w.trim.power = w.power := rfl

theorem trim_fraction (w : Written) :
    w.trim.fraction = (w.fraction.reverse.dropWhile (· = '0')).reverse := rfl

/-- The digits of an integer are its value. -/
@[simp] theorem coefficient_ofNat (n : Nat) : (ofNat n).coefficient = n := by
  rw [coefficient, ofNat, List.append_nil, Nat.ofDigitChars_ten_toDigits]

/-- An integer has no digits behind the point. -/
@[simp] theorem exponent_ofNat (n : Nat) : (ofNat n).exponent = 0 := rfl

/-- An integer is written by its digits. -/
@[simp] theorem text_ofNat (n : Nat) : (ofNat n).text = Nat.toDigits 10 n :=
  List.append_nil _

variable {w : Written}

/-- The digits with their point. -/
theorem mem_decimalText {c : Char} (h : c ∈ w.decimalText) : isLatinDigit c = true ∨ c = '.' := by
  rw [decimalText] at h
  split at h
  · exact .inl (w.digits c (List.mem_append_left _ h))
  · rcases List.mem_append.mp h with h | h
    · exact .inl (w.digits c (List.mem_append_left _ h))
    · rcases List.mem_cons.mp h with rfl | h
      · exact .inr rfl
      · exact .inl (w.digits c (List.mem_append_right _ h))

/-- Characters of number texts without sign. -/
theorem mem_text {c : Char} (h : c ∈ w.text) :
    isLatinDigit c = true ∨ c = '.' ∨ c = 'E' ∨ c = '+' ∨ c = '-' := by
  rcases List.mem_append.mp h with h | h
  · exact (mem_decimalText h).imp_right .inl
  · cases hp : w.power with
    | none =>
      rw [hp] at h
      cases h
    | some power =>
      rw [hp, powerText] at h
      rcases List.mem_cons.mp h with rfl | h
      · exact .inr (.inr (.inl rfl))
      · rcases List.mem_cons.mp h with rfl | h
        · split
          · exact .inr (.inr (.inr (.inr rfl)))
          · exact .inr (.inr (.inr (.inl rfl)))
        · exact .inl (isLatinDigit_of_mem_toDigits h)

/-- A text starts with a digit. -/
theorem exists_head (w : Written) :
    ∃ c tail, w.decimalText = c :: tail ∧ isLatinDigit c = true := by
  obtain ⟨c, whole, hw⟩ := List.exists_cons_of_ne_nil w.whole_ne_nil
  have hc : isLatinDigit c = true := w.digits c (by rw [hw]; exact List.mem_cons_self)
  rw [decimalText, hw]
  split
  · exact ⟨c, _, rfl, hc⟩
  · exact ⟨c, _, rfl, hc⟩

/-- Digits in a row are read as their value. -/
theorem naturalOf?_eq {digits : List Char} (hne : digits ≠ [])
    (h : ∀ c ∈ digits, isLatinDigit c = true) :
    naturalOf? digits = some (Nat.ofDigitChars 10 digits 0) := by
  have hall : digits.all isLatinDigit = true := List.all_eq_true.mpr h
  have hempty : digits.isEmpty = false := List.isEmpty_eq_false_iff.mpr hne
  rw [naturalOf?, hall, hempty, if_neg (by decide), digitsValue?_of_isLatinDigit h]

/-- The digits are read with the number of places behind the point. -/
theorem coefficientOf?_decimalText (w : Written) :
    coefficientOf? w.decimalText = some (w.coefficient, w.fraction.length) := by
  have hpoint : ∀ c ∈ w.whole, decide (c ≠ '.') = true := by
    intro c hc
    rw [decide_eq_true_eq]
    rintro rfl
    exact absurd (w.digits '.' (List.mem_append_left _ hc)) (by decide)
  have hnatural : naturalOf? (w.whole ++ w.fraction) = some w.coefficient :=
    naturalOf?_eq (by simp [w.whole_ne_nil]) w.digits
  rw [coefficientOf?, decimalText]
  split
  · next hf =>
    have htake := takeWhile_append hpoint (.nil : Ends (fun c => decide (c ≠ '.')) [])
    have hdrop := dropWhile_append hpoint (.nil : Ends (fun c => decide (c ≠ '.')) [])
    rw [List.append_nil] at htake hdrop
    rw [hf] at hnatural ⊢
    simp only [htake, hdrop, List.drop_nil, hnatural, Option.map_some]
  · have hends : Ends (fun c => decide (c ≠ '.')) ('.' :: w.fraction) := .cons (by decide)
    simp only [takeWhile_append hpoint hends, dropWhile_append hpoint hends, List.drop_succ_cons,
      List.drop_zero, hnatural, Option.map_some]

/-- A power of ten is read from its sign and its digits. -/
theorem powerOf?_sign {power : Int} {digits : List Char}
    (hdigits : naturalOf? digits = some power.natAbs) :
    powerOf? ((if power < 0 then '-' else '+') :: digits) = some power := by
  have hsign : signOf ((if power < 0 then '-' else '+') :: digits) =
      (decide (power < 0), digits) := by
    by_cases hneg : power < 0
    · rw [if_pos hneg, decide_eq_true hneg, signOf]
    · rw [if_neg hneg, decide_eq_false hneg, signOf]
  have hmagnitude : (if power < 0 then -(power.natAbs : Int) else power.natAbs) = power := by
    split
    · omega
    · omega
  rw [powerOf?, hsign]
  simp only [hdigits, decide_eq_true_eq]
  exact congrArg some hmagnitude

/-- A power of ten is read behind its mark. -/
theorem powerOf?_powerText (power : Int) :
    powerOf? ((if power < 0 then '-' else '+') :: Nat.toDigits 10 power.natAbs) = some power := by
  refine powerOf?_sign ?_
  rw [naturalOf?_eq Nat.toDigits_ne_nil fun c hc => isLatinDigit_of_mem_toDigits hc,
    Nat.ofDigitChars_ten_toDigits]

/-- A text behind digits is a power of ten: nothing, or a mark and an integer. -/
inductive IsPower : List Char → Int → Prop
  | none : IsPower [] 0
  | marked {mark : Char} {rest : List Char} {power : Int} (hmark : mark = 'e' ∨ mark = 'E')
      (hrest : powerOf? rest = some power) : IsPower (mark :: rest) power

/-- Digits end where a power of ten starts. -/
theorem IsPower.ends {tail : List Char} {power : Int} (h : IsPower tail power) :
    Ends (fun c => !(c = 'e' || c = 'E')) tail := by
  cases h with
  | none => exact .nil
  | marked hmark _ =>
    refine .cons ?_
    rcases hmark with rfl | rfl
    · rfl
    · rfl

/-- A power of ten is one as it is written. -/
theorem IsPower.of_powerText (power : Option Int) : IsPower (powerText power) (power.getD 0) := by
  cases power with
  | none => exact .none
  | some power => exact .marked (.inr rfl) (powerOf?_powerText power)

/-- The digits and the power of ten behind them are read as coefficient and exponent if these stay
within the bounds of storage. -/
theorem unsignedOf?_append (w : Written) {tail : List Char} {power : Int}
    (h : IsPower tail power) (hl : leastExponent ≤ power - w.fraction.length)
    (hu : power - w.fraction.length + digitCount w.coefficient ≤ greatestExponent) :
    unsignedOf? (w.decimalText ++ tail) = some (w.coefficient, power - w.fraction.length) := by
  have hdigits : ∀ c ∈ w.decimalText, (!(c = 'e' || c = 'E')) = true := by
    intro c hc
    have hne : c ≠ 'e' ∧ c ≠ 'E' := by
      constructor
      · rintro rfl
        exact absurd (mem_decimalText hc) (by decide)
      · rintro rfl
        exact absurd (mem_decimalText hc) (by decide)
    simp [hne]
  have hpos := digitCount_pos w.coefficient
  have hleading : (if w.coefficient = 0 then power - w.fraction.length
      else power - w.fraction.length + digitCount w.coefficient - 1) ≤ greatestExponent := by
    split
    · omega
    · omega
  rw [unsignedOf?]
  simp only [takeWhile_append hdigits h.ends, dropWhile_append hdigits h.ends,
    w.coefficientOf?_decimalText, Option.bind_eq_bind, Option.bind_some]
  cases h with
  | none => exact if_pos ⟨hleading, hl⟩
  | marked _ hrest =>
    simp only [hrest, Option.bind_some]
    exact if_pos ⟨hleading, hl⟩

/-- Characters of number texts are neither blank nor left out, and lie in ASCII. -/
theorem of_mem_text {c : Char} (h : c ∈ w.text) :
    isBlank c = false ∧ c ≠ '_' ∧ c.toNat < 128 := by
  rcases mem_text h with hc | rfl | rfl | rfl | rfl
  · obtain ⟨hblank, -, hascii⟩ := of_isLatinDigit hc
    refine ⟨hblank, ?_, hascii⟩
    rintro rfl
    exact absurd hc (by decide)
  · decide
  · decide
  · decide
  · decide

/-- A text without blanks and underscores is read character by character. -/
theorem plainText?_eq_mapM {text : List Char} (h : ∀ c ∈ text, isBlank c = false ∧ c ≠ '_') :
    plainText? text = text.mapM fun c =>
      if c.toNat < 128 then some c else (digitValue? c).map Nat.digitChar := by
  have htrim : Text.trim text = text := strip_eq_self fun c hc => (h c hc).1
  have hfilter : text.filter (· ≠ '_') = text :=
    List.filter_eq_self.mpr fun c hc => decide_eq_true (h c hc).2
  rw [plainText?, htrim, hfilter]

/-- A text in plain characters is left as it is. -/
theorem plainText?_eq {text : List Char}
    (h : ∀ c ∈ text, isBlank c = false ∧ c ≠ '_' ∧ c.toNat < 128) :
    plainText? text = some text := by
  rw [plainText?_eq_mapM fun c hc => ⟨(h c hc).1, (h c hc).2.1⟩]
  have hascii : ∀ c ∈ text, c.toNat < 128 := fun c hc => (h c hc).2.2
  clear h
  induction text with
  | nil => rfl
  | cons c text ih =>
    obtain ⟨hc, hrest⟩ := List.forall_mem_cons.mp hascii
    rw [List.mapM_cons, if_pos hc, ih hrest]
    rfl

/-- No sign stands before a digit or a point. -/
theorem signOf_cons {c : Char} (hc : isLatinDigit c = true ∨ c = '.') (tail : List Char) :
    signOf (c :: tail) = (false, c :: tail) := by
  have hsign : ∀ sign, isLatinDigit sign = false ∧ sign ≠ '.' → c ≠ sign := by
    rintro sign ⟨hdigit, hpoint⟩ rfl
    rw [hdigit] at hc
    exact hc.elim Bool.noConfusion hpoint
  unfold signOf
  split
  · next he => exact absurd (List.cons.inj he).1 (hsign '-' (by decide))
  · next he => exact absurd (List.cons.inj he).1 (hsign '+' (by decide))
  · rfl

/-- A sign is split off a number text. -/
theorem signOf_append (w : Written) (negative : Bool) (tail : List Char) :
    signOf ((if negative then ['-'] else []) ++ (w.decimalText ++ tail)) =
      (negative, w.decimalText ++ tail) := by
  cases negative with
  | true => rfl
  | false =>
    obtain ⟨c, behind, hd, hc⟩ := w.exists_head
    rw [if_neg Bool.false_ne_true, List.nil_append, hd, List.cons_append, signOf_cons (.inl hc)]

/-- A text that starts with a digit or a point behind its sign is read as a finite number. -/
theorem read?_of_plain {text plain tail : List Char} {c : Char} {negative : Bool}
    (hplain : plainText? text = some plain) (hsign : signOf plain = (negative, c :: tail))
    (hc : isLatinDigit c = true ∨ c = '.') :
    read? text = (unsignedOf? (c :: tail)).map fun (coefficient, exponent) =>
      .finite negative coefficient exponent := by
  have hlower : (c :: tail).map Char.toLower = c :: tail.map Char.toLower := by
    rcases hc with hc | rfl
    · rw [List.map_cons, (of_isLatinDigit hc).2.1]
    · rfl
  have hword : ∀ letter rest others, isLatinDigit letter = false ∧ letter ≠ '.' →
      c :: rest ≠ letter :: others := by
    rintro letter rest others ⟨hdigit, hpoint⟩ he
    rw [(List.cons.inj he).1, hdigit] at hc
    exact hc.elim Bool.noConfusion hpoint
  rw [read?, hplain]
  simp only [Option.bind_eq_bind, Option.bind_some, hsign, hlower, List.take_succ_cons]
  rw [if_neg, if_neg, if_neg]
  · exact hword 's' _ _ (by decide)
  · exact hword 'n' _ _ (by decide)
  · rintro (he | he)
    · exact hword 'i' _ _ (by decide) he
    · exact hword 'i' _ _ (by decide) he

/-- Digits behind an optional sign and with a power of ten behind them are read as the number with
that sign. -/
theorem read?_append (w : Written) (negative : Bool) {tail : List Char} {power : Int}
    (hplain : ∀ c ∈ tail, isBlank c = false ∧ c ≠ '_' ∧ c.toNat < 128) (h : IsPower tail power)
    (hl : leastExponent ≤ power - w.fraction.length)
    (hu : power - w.fraction.length + digitCount w.coefficient ≤ greatestExponent) :
    read? ((if negative then ['-'] else []) ++ (w.decimalText ++ tail)) =
      some (.finite negative w.coefficient (power - w.fraction.length)) := by
  have hchars : plainText? ((if negative then ['-'] else []) ++ (w.decimalText ++ tail)) =
      some ((if negative then ['-'] else []) ++ (w.decimalText ++ tail)) := by
    refine plainText?_eq fun c hc => ?_
    rcases List.mem_append.mp hc with hc | hc
    · cases negative with
      | false => cases hc
      | true =>
        rw [List.mem_singleton.mp hc]
        decide
    · rcases List.mem_append.mp hc with hc | hc
      · exact of_mem_text (List.mem_append_left _ hc)
      · exact hplain c hc
  obtain ⟨c, behind, hd, hc⟩ := w.exists_head
  have hsign := w.signOf_append negative tail
  have hvalue := w.unsignedOf?_append h hl hu
  rw [hd] at hsign hvalue hchars ⊢
  rw [List.cons_append] at hsign hvalue
  rw [read?_of_plain hchars hsign (.inl hc), hvalue, Option.map_some]

/-- A text behind an optional sign is read as the number with that sign. -/
theorem read?_text (w : Written) (negative : Bool) (hl : leastExponent ≤ w.exponent)
    (hu : w.exponent + digitCount w.coefficient ≤ greatestExponent) :
    read? ((if negative then ['-'] else []) ++ w.text) =
      some (.finite negative w.coefficient w.exponent) := by
  exact w.read?_append negative (fun c hc => of_mem_text (List.mem_append_right _ hc))
    (.of_powerText w.power) hl hu

/-- Digits in two parts are written with a point between them. -/
theorem exists_cut {digits : List Char} {n : Nat} (h : ∀ d ∈ digits, isLatinDigit d = true)
    (hl : 0 < n) (hu : n ≤ digits.length) (power : Option Int) :
    ∃ w : Written, w.coefficient = Nat.ofDigitChars 10 digits 0 ∧
      w.exponent = power.getD 0 - (digits.length - n : Nat) ∧
      w.text = digits.take n ++ (if (digits.drop n).isEmpty then [] else '.' :: digits.drop n) ++
        powerText power := by
  have hne : digits.take n ≠ [] := by
    rw [← List.length_pos_iff, List.length_take]
    omega
  have hdigits : ∀ d ∈ digits.take n ++ digits.drop n, isLatinDigit d = true := by
    rwa [List.take_append_drop]
  refine ⟨⟨digits.take n, digits.drop n, power, hne, hdigits⟩, ?_, ?_, ?_⟩
  · rw [coefficient, List.take_append_drop]
  · rw [exponent, List.length_drop]
  · simp only [text, decimalText]
    split
    · next hnil => simp [hnil]
    · next hsome => simp [hsome]

/-- Digits behind the point follow zeros there and a zero in front of it. -/
theorem exists_leadingZeros {digits : List Char} (h : ∀ d ∈ digits, isLatinDigit d = true)
    (hpos : 0 < digits.length) (zeros : Nat) :
    ∃ w : Written, w.coefficient = Nat.ofDigitChars 10 digits 0 ∧
      w.exponent = -(zeros + digits.length : Nat) ∧
      w.text = '0' :: '.' :: (List.replicate zeros '0' ++ digits) := by
  have hne : (List.replicate zeros '0' ++ digits).isEmpty = false := by
    rw [List.isEmpty_eq_false_iff, ← List.length_pos_iff, List.length_append]
    omega
  obtain ⟨w, hc, he, ht⟩ := exists_cut (n := 1) (isLatinDigit_leadingZeros h zeros) (by decide)
    (by simp) none
  refine ⟨w, ?_, ?_, ?_⟩
  · rw [hc, ofDigitChars_leadingZeros]
  · rw [he, List.length_cons, List.length_append, List.length_replicate, Option.getD_none]
    omega
  · rw [ht, List.drop_succ_cons, List.drop_zero, hne]
    simp [powerText]

/-- A number that is written with its point or with a power of ten has parts. -/
theorem exists_unsignedText (c : Nat) (e : Int) :
    ∃ w : Written, unsignedText c e = w.text ∧ w.coefficient = c ∧ w.exponent = e := by
  have hlatin : ∀ d ∈ Nat.toDigits 10 c, isLatinDigit d = true := fun d hd =>
    isLatinDigit_of_mem_toDigits hd
  have hpos : 0 < (Nat.toDigits 10 c).length := Nat.length_toDigits_pos
  have hvalue : Nat.ofDigitChars 10 (Nat.toDigits 10 c) 0 = c := Nat.ofDigitChars_ten_toDigits
  rw [unsignedText]
  generalize Nat.toDigits 10 c = digits at hlatin hpos hvalue ⊢
  dsimp only
  by_cases hplain : e ≤ 0 ∧ -6 < e + digits.length
  · rw [if_pos hplain]
    by_cases hzero : e = 0
    · obtain ⟨w, hc, he, ht⟩ := exists_cut hlatin hpos le_rfl none
      refine ⟨w, ?_, hc.trans hvalue, by rw [he]; simp [hzero]⟩
      rw [if_pos hzero, ht]
      simp [powerText]
    · rw [if_neg hzero]
      by_cases hpoint : 0 < e + digits.length
      · obtain ⟨w, hc, he, ht⟩ := exists_cut (n := (e + digits.length).toNat) hlatin (by omega)
          (by omega) none
        have hdrop : (digits.drop (e + digits.length).toNat).isEmpty = false := by
          rw [List.isEmpty_eq_false_iff, ← List.length_pos_iff, List.length_drop]
          omega
        refine ⟨w, ?_, hc.trans hvalue, ?_⟩
        · rw [if_pos hpoint, ht, hdrop]
          simp [powerText]
        · rw [he, Option.getD_none]
          omega
      · obtain ⟨w, hc, he, ht⟩ := exists_leadingZeros hlatin hpos (-(e + digits.length)).toNat
        refine ⟨w, ?_, hc.trans hvalue, ?_⟩
        · rw [if_neg hpoint, ht]
          rfl
        · rw [he]
          omega
  · rw [if_neg hplain]
    obtain ⟨w, hc, he, ht⟩ := exists_cut (n := 1) hlatin (by decide) hpos
      (some (e + digits.length - 1))
    refine ⟨w, ?_, hc.trans hvalue, ?_⟩
    · rw [ht, powerText]
    · rw [he, Option.getD_some]
      omega

/-- Zeros that are left out end the digits behind the point. -/
theorem exists_fraction_eq (w : Written) :
    ∃ zeros, w.fraction = w.trim.fraction ++ List.replicate zeros '0' :=
  exists_replicate_end '0' w.fraction

/-- Without these zeros the value is the same in a shorter form. -/
theorem exists_trim (w : Written) : ∃ zeros : Nat,
    w.coefficient = w.trim.coefficient * pow10 zeros ∧ w.trim.exponent = w.exponent + zeros := by
  obtain ⟨zeros, hzeros⟩ := w.exists_fraction_eq
  refine ⟨zeros, ?_, ?_⟩
  · rw [coefficient, coefficient, hzeros, ← List.append_assoc, ofDigitChars_append_zeros]
    rfl
  · rw [exponent, exponent, hzeros, List.length_append, List.length_replicate]
    rw [trim_power]
    omega

/-- Zeros that end the digits behind the point are left out of the text, and the point with all
digits, whatever stands in front. -/
theorem trimFraction_append (w : Written) {front : List Char} (hfront : '.' ∉ front) :
    trimFraction (front ++ w.decimalText) = front ++ w.trim.decimalText := by
  have hwhole : '.' ∉ w.whole := fun hc =>
    absurd (w.digits '.' (List.mem_append_left _ hc)) (by decide)
  rw [trimFraction, decimalText, decimalText]
  by_cases hf : w.fraction = []
  · have htrim : w.trim.fraction = [] := by
      rw [trim_fraction, hf]
      rfl
    rw [if_pos hf, if_pos htrim, trim_whole, if_neg]
    simpa using ⟨hfront, hwhole⟩
  · have hreverse : (front ++ (w.whole ++ '.' :: w.fraction)).reverse =
        w.fraction.reverse ++ '.' :: (w.whole.reverse ++ front.reverse) := by simp
    have hkept : w.fraction.reverse.dropWhile (· = '0') = w.trim.fraction.reverse := by
      rw [trim_fraction, List.reverse_reverse]
    rw [if_neg hf, if_pos (by simp), hreverse, List.dropWhile_append, hkept, trim_whole]
    cases hr : w.trim.fraction.reverse with
    | nil =>
      rw [List.reverse_eq_nil_iff.mp hr]
      simp
    | cons d rest =>
      have hmem : d ∈ w.trim.fraction := by
        rw [← List.mem_reverse, hr]
        exact List.mem_cons_self
      have hd : d ≠ '.' := by
        rintro rfl
        exact absurd (w.trim.digits '.' (List.mem_append_right _ hmem)) (by decide)
      have hfraction : w.trim.fraction = rest.reverse ++ [d] := by
        rw [← List.reverse_reverse w.trim.fraction, hr, List.reverse_cons]
      rw [hfraction]
      simp [hd]

/-- The power of ten is split off a text with an optional sign. -/
theorem splitPower_text (w : Written) (negative : Bool) :
    splitPower ((if negative then ['-'] else []) ++ w.text) =
      ((if negative then ['-'] else []) ++ w.decimalText, powerText w.power) := by
  have hdigits : ∀ c ∈ (if negative then ['-'] else []) ++ w.decimalText,
      decide (c ≠ 'E') = true := by
    intro c hc
    rw [decide_eq_true_eq]
    rintro rfl
    rcases List.mem_append.mp hc with hc | hc
    · cases negative with
      | false => cases hc
      | true => exact absurd hc (by decide)
    · exact absurd (mem_decimalText hc) (by decide)
  have hends : Ends (fun c => decide (c ≠ 'E')) (powerText w.power) := by
    cases w.power with
    | none => exact .nil
    | some power => exact .cons (by decide)
  rw [splitPower, text, ← List.append_assoc, takeWhile_append hdigits hends,
    dropWhile_append hdigits hends]

/-- Digits that have a point end neither in a zero nor in the point without these zeros. -/
theorem last_of_trim (w : Written) {c : Char} (hpoint : '.' ∈ w.trim.decimalText)
    (hc : w.trim.decimalText.getLast? = some c) : c ≠ '0' ∧ c ≠ '.' := by
  have hwhole : '.' ∉ w.whole := fun hmem =>
    absurd (w.digits '.' (List.mem_append_left _ hmem)) (by decide)
  rw [decimalText] at hpoint hc
  split at hpoint
  · exact absurd hpoint hwhole
  · next hne =>
    rw [if_neg hne, List.getLast?_append, List.getLast?_cons_of_ne_nil hne] at hc
    obtain ⟨d, hd⟩ := Option.isSome_iff_exists.mp (List.getLast?_isSome.mpr hne)
    rw [hd] at hc
    obtain rfl : d = c := Option.some.inj hc
    have hmem : d ∈ w.trim.fraction := List.mem_of_getLast? hd
    rw [trim_fraction, List.getLast?_reverse] at hd
    constructor
    · rintro rfl
      have hdrop := List.head?_dropWhile_not (fun c => decide (c = '0')) w.fraction.reverse
      rw [hd] at hdrop
      simp at hdrop
    · rintro rfl
      exact absurd (w.trim.digits '.' (List.mem_append_right _ hmem)) (by decide)

/-- So does a number text before its power of ten. -/
theorem last_of_mantissa (w : Written) (negative : Bool) {c : Char}
    (hpoint : '.' ∈ ((if negative then ['-'] else []) ++ w.trim.text).takeWhile (· ≠ 'E'))
    (hc : (((if negative then ['-'] else []) ++ w.trim.text).takeWhile (· ≠ 'E')).getLast? =
      some c) :
    c ≠ '0' ∧ c ≠ '.' := by
  have hmantissa : ((if negative then ['-'] else []) ++ w.trim.text).takeWhile (· ≠ 'E') =
      (if negative then ['-'] else []) ++ w.trim.decimalText :=
    congrArg Prod.fst (w.trim.splitPower_text negative)
  rw [hmantissa] at hpoint hc
  have hmem : '.' ∈ w.trim.decimalText :=
    (List.mem_append.mp hpoint).resolve_left (by cases negative <;> decide)
  rw [List.getLast?_append_of_ne_nil _ (List.ne_nil_of_mem hmem)] at hc
  exact w.last_of_trim hmem hc

end Written

end Decimal

end UnitCalculator
