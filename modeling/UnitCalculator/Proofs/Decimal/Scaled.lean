import UnitCalculator.Proofs.Decimal.Shown

/-!
# Numbers shown with a power of ten

A number is shown with a power of ten if the last digit of the rounded number stands before the
units, or its leading digit more than six places behind the point.
-/

namespace UnitCalculator

namespace Decimal

/-- A number without sign is shown with a power of ten. -/
structure IsScaled (figures : Int) (value : Decimal) : Prop where
  /-- Zero is shown as it is. -/
  isZero : value.isZero = false
  /-- The rounded number is too large or too small to be written with a point alone. -/
  rounded : ∃ m x, value.rounded figures = .ok (.finite false m x) ∧
    (0 < x ∨ adjusted (.finite false m x) < -6)

/-- A power of ten is written where the digits with a point do not suffice. -/
theorem mem_unsignedText_iff {c : Nat} {e : Int} :
    'E' ∈ unsignedText c e ↔ 0 < e ∨ adjusted (.finite false c e) < -6 := by
  have hdigit : 'E' ∉ Nat.toDigits 10 c := fun h =>
    absurd (Text.isLatinDigit_of_mem_toDigits h) (by decide)
  have htake : ∀ n, 'E' ∉ (Nat.toDigits 10 c).take n := fun n h => hdigit (List.mem_of_mem_take h)
  have hdrop : ∀ n, 'E' ∉ (Nat.toDigits 10 c).drop n := fun n h => hdigit (List.mem_of_mem_drop h)
  have hcount : digitCount c = (Nat.toDigits 10 c).length := rfl
  simp only [adjusted, unsignedText]
  split
  · next h =>
    refine iff_of_false ?_ (by omega)
    split
    · exact hdigit
    · split
      · simp [htake, hdrop]
      · simp [hdigit, List.mem_replicate]
  · next h => exact iff_of_true (by simp) (by omega)

namespace Written

variable (w : Written)

/-- The parts of a number text have a power of ten if the text has its mark. -/
theorem mem_text_iff : 'E' ∈ w.text ↔ w.power ≠ none := by
  have hdigits : 'E' ∉ w.decimalText := fun h => by
    rcases mem_decimalText h with h | h
    · exact absurd h (by decide)
    · exact absurd h (by decide)
  rw [text, List.mem_append, or_iff_right hdigits]
  cases w.power with
  | none => simp [powerText]
  | some power => simp [powerText]

/-- A text without power of ten is the same in LaTeX. -/
theorem latexOfText_none (hp : w.power = none) (negative : Bool) :
    latexOfText (String.ofList ((if negative then ['-'] else []) ++ w.text)) =
      String.ofList ((if negative then ['-'] else []) ++ w.decimalText) := by
  rw [latexOfText, String.toList_ofList, w.splitPower_text, text, hp, powerText, List.append_nil]

/-- In LaTeX a power of ten is a factor behind the digits. -/
theorem latexOfText_some {power : Int} (hp : w.power = some power) (negative : Bool) :
    ∃ behind, (latexOfText (String.ofList ((if negative then ['-'] else []) ++ w.text))).toList =
      (if negative then ['-'] else []) ++ (w.decimalText ++ '*' :: behind) := by
  rw [latexOfText, String.toList_ofList, w.splitPower_text, hp, powerText]
  dsimp only
  rw [String.toList_ofList]
  simp

end Written

variable {figures : Int} {s : Bool} {c : Nat} {e : Int} {shown : String}

/-- A multiple of a power of ten that a number is rounded to has the sign of the number. -/
theorem exists_of_quantize {x : Int} {r : Decimal}
    (h : working.quantize (.finite s c e) x = .ok r) : ∃ m, r = .finite s m x := by
  simp only [Format.quantize] at h
  generalize (if x ≤ e then c * pow10 (e - x).toNat
    else dropDigits .awayFromZero c (x - e).toNat) = kept at h
  split at h
  · cases h
  · split at h
    · exact ⟨0, (Except.ok.inj h).symm⟩
    · split at h
      · cases h
      · split at h
        · cases h
        · exact ⟨_, (Except.ok.inj h).symm⟩

/-- A rounded number is finite and has the sign of the number. -/
theorem exists_of_rounded {r : Decimal} (h : rounded (.finite s c e) figures = .ok r) :
    ∃ m x, r = .finite s m x := by
  have hround : ∀ {c : Nat} {e : Int} {leading r : Decimal},
      roundFigures (.finite s c e) leading figures = .ok r → ∃ m x, r = .finite s m x := by
    intro c e leading r hr
    obtain ⟨x, -, hq⟩ := bind_eq_ok_iff.mp hr
    obtain ⟨m, hm⟩ := exists_of_quantize hq
    exact ⟨m, x, hm⟩
  obtain ⟨first, hfirst, h⟩ := bind_eq_ok_iff.mp h
  obtain ⟨m, x, rfl⟩ := hround hfirst
  split at h
  · exact ⟨m, x, (Except.ok.inj h).symm⟩
  · exact hround h

/-- A finite number that is not zero is shown by the parts of the rounded number, which have a power
of ten where digits with a point do not suffice. -/
theorem exists_written_of_display (hc : c ≠ 0)
    (h : display (.finite s c e) figures = .ok shown) :
    ∃ m x, rounded (.finite s c e) figures = .ok (.finite s m x) ∧ ∃ w : Written,
      shown = String.ofList ((if s then ['-'] else []) ++ w.text) ∧
      (w.power ≠ none ↔ 0 < x ∨ adjusted (.finite false m x) < -6) := by
  have hzero : isZero (.finite s c e) = false := isZero_finite_eq_false_iff.mpr hc
  have hd := h
  rw [display, if_neg (by rw [hzero]; exact Bool.false_ne_true)] at h
  obtain ⟨r, hr, -⟩ := bind_eq_ok_iff.mp h
  obtain ⟨m, x, rfl⟩ := exists_of_rounded hr
  obtain ⟨w, hw, -⟩ := Written.exists_unsignedText m x
  rw [display_of_rounded hzero hr hw] at hd
  refine ⟨m, x, hr, w.trim, (Except.ok.inj hd).symm, ?_⟩
  rw [Written.trim_power, ← w.mem_text_iff, ← hw, mem_unsignedText_iff]

end Decimal

end UnitCalculator
