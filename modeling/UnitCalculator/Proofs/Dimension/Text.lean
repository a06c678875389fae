import UnitCalculator.Proofs.Decimal.Written
import UnitCalculator.Proofs.Dimension.Naming
import UnitCalculator.Proofs.Failure
import UnitCalculator.Quantity.Basic

/-!
# Dimensions told apart by their texts

The text of a dimension is taken apart at its spaces into powers of units, and a power at its caret
into a unit and an exponent. Units and exponents hold neither of these marks, so one text is that of
one list of powers, whose product is the dimension. The name of a unit is read in the same way, as a
single power. A fault that names two dimensions therefore never names them alike.
-/

namespace UnitCalculator

namespace Text

/-- Texts that go on with one mark behind parts without it have equal parts. -/
theorem append_cons_inj {c : Char} {front other behind rest : List Char} (hf : c ∉ front)
    (ho : c ∉ other) (h : front ++ c :: behind = other ++ c :: rest) :
    front = other ∧ behind = rest := by
  have hfront : ∀ {front : List Char} (behind : List Char), c ∉ front →
      (front ++ c :: behind).takeWhile (· ≠ c) = front := fun behind hf =>
    takeWhile_append (fun d hd => decide_eq_true fun he => hf (he ▸ hd)) (.cons (by simp))
  have hsame : front = other := by rw [← hfront behind hf, h, hfront rest ho]
  exact ⟨hsame, (List.cons.inj (List.append_cancel_left (hsame ▸ h))).2⟩

end Text

open Text

/-- Natural numbers are told apart by their digits. -/
theorem repr_injective : Function.Injective Nat.repr := by
  intro m n h
  have hdigits := congrArg String.toList h
  rw [Nat.toList_repr, Nat.toList_repr] at hdigits
  rw [← Nat.ofDigitChars_ten_toDigits (n := m), hdigits, Nat.ofDigitChars_ten_toDigits]

/-- The text of an integer is made of digits and a sign. -/
theorem of_mem_intText {c : Char} {n : Int} (h : c ∈ (intText n).toList) :
    c = '-' ∨ isLatinDigit c = true := by
  rw [intText] at h
  split at h
  · rw [String.toList_append, Nat.toList_repr] at h
    rcases List.mem_append.mp h with h | h
    · exact .inl (List.mem_singleton.mp h)
    · exact .inr (isLatinDigit_of_mem_toDigits h)
  · rw [Nat.toList_repr] at h
    exact .inr (isLatinDigit_of_mem_toDigits h)

/-- No natural number is written with a sign. -/
theorem intText_sign_ne (m : String) (n : Nat) : "-" ++ m ≠ n.repr := by
  intro h
  have hm : '-' ∈ n.repr.toList := by
    rw [← h, String.toList_append]
    exact List.mem_append_left _ (List.mem_singleton_self '-')
  rw [Nat.toList_repr] at hm
  exact absurd (isLatinDigit_of_mem_toDigits hm) (by decide)

/-- Integers are told apart by their texts. -/
theorem intText_injective : Function.Injective intText := by
  intro a b h
  rw [intText, intText] at h
  split at h <;> split at h
  · have hsame := repr_injective ((String.append_right_inj "-").mp h)
    omega
  · exact absurd h (intText_sign_ne _ _)
  · exact absurd h.symm (intText_sign_ne _ _)
  · have hsame := repr_injective h
    omega

namespace Dimension

variable {a b : Dimension}

/-- A fraction is written in brackets, with a stroke between its parts. -/
theorem toList_exponentText {exponent : Rat} (h : exponent.den ≠ 1) :
    (exponentText exponent).toList = '(' :: (intText exponent.num).toList ++
      '/' :: (exponent.den.repr.toList ++ [')']) := by
  rw [exponentText, if_neg h]
  simp [String.toList_append]

/-- An exponent is written with digits, a sign, brackets and a stroke. -/
theorem of_mem_exponentText {c : Char} {exponent : Rat} (h : c ∈ (exponentText exponent).toList) :
    c ∈ ['-', '(', '/', ')'] ∨ isLatinDigit c = true := by
  by_cases hden : exponent.den = 1
  · rw [exponentText, if_pos hden] at h
    exact (of_mem_intText h).imp_left fun hc => by simp [hc]
  · rw [toList_exponentText hden, List.cons_append, List.mem_cons, List.mem_append, List.mem_cons,
      List.mem_append, Nat.toList_repr, List.mem_singleton] at h
    rcases h with rfl | h | rfl | h | rfl
    · exact .inl (by simp)
    · exact (of_mem_intText h).imp_left fun hc => by simp [hc]
    · exact .inl (by simp)
    · exact .inr (isLatinDigit_of_mem_toDigits h)
    · exact .inl (by simp)

/-- No integer is written like a fraction. -/
theorem intText_ne_fraction {exponent : Rat} (h : exponent.den ≠ 1) (n : Int) :
    intText n ≠ exponentText exponent := by
  intro he
  have hbracket : '(' ∈ (intText n).toList := by
    rw [he, toList_exponentText h]
    exact List.mem_cons_self
  rcases of_mem_intText hbracket with hc | hc
  · cases hc
  · exact absurd hc (by decide)

/-- Exponents are told apart by their texts. -/
theorem exponentText_injective : Function.Injective exponentText := by
  intro a b h
  have hstroke : ∀ n : Int, '/' ∉ '(' :: (intText n).toList := by
    intro n hm
    rcases List.mem_cons.mp hm with hc | hm
    · cases hc
    · rcases of_mem_intText hm with hc | hc
      · cases hc
      · exact absurd hc (by decide)
  by_cases ha : a.den = 1 <;> by_cases hb : b.den = 1
  · rw [exponentText, if_pos ha, exponentText, if_pos hb] at h
    exact Rat.ext (intText_injective h) (ha.trans hb.symm)
  · rw [exponentText, if_pos ha] at h
    exact absurd h (intText_ne_fraction hb a.num)
  · rw [exponentText.eq_1 b, if_pos hb] at h
    exact absurd h.symm (intText_ne_fraction ha b.num)
  · have hlist := congrArg String.toList h
    rw [toList_exponentText ha, toList_exponentText hb] at hlist
    obtain ⟨hnum, hden⟩ := append_cons_inj (hstroke _) (hstroke _) hlist
    have hnumerator := intText_injective (String.toList_inj.mp (List.cons.inj hnum).2)
    have hdenominator := repr_injective (String.toList_inj.mp (List.append_cancel_right hden))
    exact Rat.ext hnumerator hdenominator

/-- A power of a unit other than the first is written with a caret behind the unit. -/
theorem toList_factorText {factor : String × Rat} (h : factor.2 ≠ 1) :
    (factorText factor).toList = factor.1.toList ++ '^' :: (exponentText factor.2).toList := by
  rw [factorText, if_neg h]
  simp [String.toList_append]

/-- Powers of units without a caret are told apart by their texts. -/
theorem factorText_inj {f g : String × Rat} (hf : '^' ∉ f.1.toList) (hg : '^' ∉ g.1.toList)
    (h : factorText f = factorText g) : f = g := by
  have hcaret : ∀ {f g : String × Rat}, '^' ∉ f.1.toList → f.2 = 1 → g.2 ≠ 1 →
      factorText f ≠ factorText g := by
    intro f g hf hone hpower h
    rw [factorText, if_pos hone] at h
    rw [h, toList_factorText hpower] at hf
    exact hf (List.mem_append_right _ List.mem_cons_self)
  by_cases hone : f.2 = 1 <;> by_cases hone' : g.2 = 1
  · rw [factorText, if_pos hone, factorText, if_pos hone'] at h
    exact Prod.ext h (hone.trans hone'.symm)
  · exact absurd h (hcaret hf hone hone')
  · exact absurd h.symm (hcaret hg hone' hone)
  · have hlist := congrArg String.toList h
    rw [toList_factorText hone, toList_factorText hone'] at hlist
    obtain ⟨hunit, hexponent⟩ := append_cons_inj hf hg hlist
    exact Prod.ext (String.toList_inj.mp hunit)
      (exponentText_injective (String.toList_inj.mp hexponent))

/-- Lists of powers of units without a caret are told apart by the lists of their texts. -/
theorem map_factorText_inj {factors others : List (String × Rat)}
    (hf : ∀ factor ∈ factors, '^' ∉ factor.1.toList)
    (ho : ∀ factor ∈ others, '^' ∉ factor.1.toList)
    (h : factors.map factorText = others.map factorText) : factors = others := by
  induction factors generalizing others with
  | nil => exact (List.map_eq_nil_iff.mp h.symm).symm
  | cons factor factors ih =>
    cases others with
    | nil => cases h
    | cons other others =>
      obtain ⟨hfactor, hfactors⟩ := List.forall_mem_cons.mp hf
      obtain ⟨hother, hothers⟩ := List.forall_mem_cons.mp ho
      obtain ⟨hfirst, hrest⟩ := List.cons.inj h
      rw [factorText_inj hfactor hother hfirst, ih hfactors hothers hrest]

/-- Words that are joined by spaces are the pieces between the spaces. -/
theorem splitOn_intercalate {words : List String}
    (h : ∀ word ∈ words, ' ' ∉ word.toList ∧ word.toList ≠ []) :
    ((" ".intercalate words).toList.splitOn ' ').filter (· ≠ []) = words.map String.toList := by
  cases words with
  | nil => rfl
  | cons first others =>
    have hspace : ∀ word ∈ (first :: others).map String.toList, ' ' ∉ word :=
      List.forall_mem_map.mpr fun word hw => (h word hw).1
    have hpieces := List.splitOn_intercalate ' ' hspace (List.cons_ne_nil _ _)
    rw [String.toList_intercalate]
    refine (congrArg _ hpieces).trans (List.filter_eq_self.mpr ?_)
    exact List.forall_mem_map.mpr fun word hw => decide_eq_true (h word hw).2

/-- The units that dimensions are written by hold no marks. -/
theorem of_mem_written_symbol {factor : String × Rat} (h : factor ∈ a.written) :
    factor.1.toList ≠ [] ∧ ' ' ∉ factor.1.toList ∧ '^' ∉ factor.1.toList := by
  have hall : ∀ symbol ∈ namedUnits.map (·.1),
      symbol.toList ≠ [] ∧ ' ' ∉ symbol.toList ∧ '^' ∉ symbol.toList := by decide +kernel
  exact hall _ (of_mem_written h).1

/-- The powers that a dimension is written by hold no spaces. -/
theorem of_mem_map_written {word : String} (h : word ∈ a.written.map factorText) :
    ' ' ∉ word.toList ∧ word.toList ≠ [] := by
  obtain ⟨factor, hf, rfl⟩ := List.mem_map.mp h
  obtain ⟨hne, hspace, -⟩ := of_mem_written_symbol hf
  by_cases hone : factor.2 = 1
  · rw [factorText, if_pos hone]
    exact ⟨hspace, hne⟩
  · rw [toList_factorText hone]
    refine ⟨fun hm => ?_, List.append_ne_nil_of_left_ne_nil hne _⟩
    rcases List.mem_append.mp hm with hm | hm
    · exact hspace hm
    · rcases List.mem_cons.mp hm with hc | hm
      · cases hc
      · rcases of_mem_exponentText hm with hc | hc
        · exact absurd hc (by decide)
        · exact absurd hc (by decide)

/-- Dimensions are told apart by their texts. -/
theorem text_injective : Function.Injective text := by
  intro a b h
  rw [text_eq, text_eq] at h
  have hwords := splitOn_intercalate fun word (hw : word ∈ a.written.map factorText) =>
    of_mem_map_written hw
  rw [h, splitOn_intercalate fun word hw => of_mem_map_written hw] at hwords
  have htexts := List.map_injective_iff.mpr (fun _ _ => String.toList_inj.mp) hwords
  have hwritten := map_factorText_inj (fun factor hf => (of_mem_written_symbol hf).2.2)
    (fun factor hf => (of_mem_written_symbol hf).2.2) htexts
  rw [← times_written a, ← times_written b, hwritten]

/-- A text that a dimension has is the written one. -/
theorem text?_eq_ok {s : String} (h : a.text? = .ok s) : a.text = s := by
  rw [text?] at h
  split at h
  · exact Except.ok.inj h
  · cases h

end Dimension

namespace Quantity

variable {a b : Quantity} {left right : String} {equation : Option String}

/-- Quantities that fail for their dimensions have different ones, which are named by their
texts. -/
theorem of_requireSame (h : a.requireSame b = .error (.fault (.incompatible left right) equation)) :
    a.dimension ≠ b.dimension ∧ a.dimension.text? = .ok left ∧ b.dimension.text? = .ok right := by
  have hnumeral : ∀ {d : Dimension} {failure : Failure}, d.text? = .error failure →
      failure = .longNumeral := by
    intro d failure hd
    rw [Dimension.text?] at hd
    split at hd
    · cases hd
    · exact (Except.error.inj hd).symm
  rw [requireSame] at h
  split at h
  · cases h
  · next hne =>
    cases ha : a.dimension.text? with
    | error failure =>
      rw [mismatch, ha, hnumeral ha] at h
      cases h
    | ok first =>
      cases hb : b.dimension.text? with
      | error failure =>
        rw [mismatch, ha, hb, hnumeral hb] at h
        cases h
      | ok second =>
        rw [mismatch, ha, hb] at h
        obtain ⟨rfl, rfl⟩ := Fault.incompatible.inj (Failure.fault.inj (Except.error.inj h)).1
        exact ⟨hne, rfl, rfl⟩

/-- An operation on quantities of one dimension fails for their dimensions only where these
differ. -/
theorem requireSame_of_error {operation : String} {result : Except Signal Decimal}
    (h : (do
      a.requireSame b
      return of (← within operation result) a.dimension) =
        .error (.fault (.incompatible left right) equation)) :
    a.requireSame b = .error (.fault (.incompatible left right) equation) := by
  cases hs : a.requireSame b with
  | error failure =>
    rw [hs] at h
    exact congrArg Except.error (Except.error.inj h)
  | ok _ =>
    rw [hs] at h
    cases result with
    | ok value => cases h
    | error signal => cases signal <;> cases h

/-- Two dimensions with one text are the same, and where a sum or a difference fails for the
dimensions of its operands, the fault names these by texts that differ. -/
theorem incompatible_names_spec :
    (∀ (d other : Dimension) (s : String), d.text? = .ok s → other.text? = .ok s → d = other) ∧
    ∀ (a b : Quantity) (left right : String) (equation : Option String),
      (a.add b = .error (.fault (.incompatible left right) equation) ∨
        a.subtract b = .error (.fault (.incompatible left right) equation)) →
      a.dimension.text? = .ok left ∧ b.dimension.text? = .ok right ∧ left ≠ right := by
  refine ⟨fun d other s hd ho => ?_, fun a b left right equation h => ?_⟩
  · exact Dimension.text_injective ((Dimension.text?_eq_ok hd).trans (Dimension.text?_eq_ok ho).symm)
  · have hsame := h.elim requireSame_of_error requireSame_of_error
    obtain ⟨hne, hleft, hright⟩ := of_requireSame hsame
    refine ⟨hleft, hright, fun he => hne (Dimension.text_injective ?_)⟩
    rw [Dimension.text?_eq_ok hleft, Dimension.text?_eq_ok hright, he]

/-- A root of a metre is not added to a hertz. -/
theorem incompatible_names_spec_root :
    let a := of (.ofNat 2) ⟨0, 1 / 2, 0, 0, 0, 0, 0⟩
    let b := of (.ofNat 1) ⟨-1, 0, 0, 0, 0, 0, 0⟩
    a.add b = .error (.of (.incompatible "m^(1/2)" "Hz")) ∧
      a.dimension.text? = .ok "m^(1/2)" ∧ b.dimension.text? = .ok "Hz" ∧ "m^(1/2)" ≠ "Hz" := by
  intro a b
  have hadd : a.add b = .error (.of (.incompatible "m^(1/2)" "Hz")) := by decide +kernel
  exact ⟨hadd, incompatible_names_spec.2 a b _ _ none (.inl hadd)⟩

end Quantity

end UnitCalculator
