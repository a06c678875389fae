import UnitCalculator.Proofs.Expression.Amount
import UnitCalculator.Proofs.Quantity.Literal

/-!
# Amounts as literals

Literals and expressions have readers of their own. A literal is split behind its last digit, and
number texts end in a digit or in a point behind digits. So the amounts whose number text ends in a
digit are split where the number text ends, and both readers find the same value. If it ends in a
point, the point is taken for the start of the symbol, and no unit has such a symbol.
-/

namespace UnitCalculator

open Text Scanner

namespace Scanner

/-- Decimal digits are neither blank nor left out. -/
theorem of_isDecimalDigit {c : Char} (h : isDecimalDigit c = true) :
    isBlank c = false ∧ c ≠ '_' := by
  refine ⟨isBlank_of_isDecimalDigit h, ?_⟩
  rintro rfl
  exact absurd h (by decide)

/-- Number texts hold neither blanks nor characters that are left out. -/
theorem IsNumeral.plain {text : List Char} (h : IsNumeral text) :
    ∀ c ∈ text, isBlank c = false ∧ c ≠ '_' := by
  intro c hc
  rcases h.isDecimalDigit_or c hc with hd | hm
  · exact of_isDecimalDigit hd
  · simp only [List.mem_cons, List.not_mem_nil, or_false] at hm
    rcases hm with rfl | rfl | rfl | rfl | rfl <;> decide

/-- Behind any text, digits in a row end in a digit. -/
theorem exists_last_digit {digits : List Char} (front : List Char) (hne : digits ≠ [])
    (h : ∀ c ∈ digits, isDecimalDigit c = true) :
    ∃ c, (front ++ digits).getLast? = some c ∧ isDecimalDigit c = true := by
  refine ⟨digits.getLast hne, ?_, h _ (List.getLast_mem hne)⟩
  rw [List.getLast?_append_of_ne_nil _ hne, List.getLast?_eq_getLast_of_ne_nil hne]

/-- Nothing is left out of a number text by trimming it. -/
theorem IsNumeral.trim_eq {text : List Char} (h : IsNumeral text) : trim text = text :=
  strip_eq_self fun c hc => (h.plain c hc).1

/-- A number text ends in a digit, or in a point behind digits. -/
theorem IsNumeral.last {text : List Char} (h : IsNumeral text) :
    (∃ c, text.getLast? = some c ∧ isDecimalDigit c = true) ∨
      ∃ digits, digits ≠ [] ∧ (∀ c ∈ digits, isDecimalDigit c = true) ∧ text = digits ++ ['.'] := by
  obtain ⟨decimal, power, ⟨whole, hw, hdecimal⟩, hpower, rfl⟩ := h
  rcases hpower with rfl | ⟨mark, sign, digits, -, -, hne, hd, rfl⟩
  · rw [List.append_nil]
    rcases hdecimal with ⟨hne, rfl⟩ | ⟨fraction, hf, hsome, rfl⟩
    · exact .inl (exists_last_digit [] hne hw)
    · by_cases hnone : fraction = []
      · subst hnone
        exact .inr ⟨whole, hsome.resolve_right (fun hne => hne rfl), hw, rfl⟩
      · have hlast := exists_last_digit (whole ++ ['.']) hnone hf
        rw [List.append_assoc] at hlast
        exact .inl hlast
  · have hlast := exists_last_digit (decimal ++ mark :: sign) hne hd
    rw [List.append_assoc, List.cons_append] at hlast
    exact .inl hlast

end Scanner

namespace Decimal

open Written

variable {text digits : List Char} {x : Decimal} {c : Char}

/-- Decimal digits of every script are read as ASCII digits. -/
theorem exists_latinDigit (h : isDecimalDigit c = true) : ∃ d, isLatinDigit d = true ∧
    (if c.toNat < 128 then some c else (digitValue? c).map Nat.digitChar) = some d := by
  by_cases hascii : c.toNat < 128
  · refine ⟨c, ?_, if_pos hascii⟩
    have hpoints : 48 ≤ c.toNat ∧ c.toNat ≤ 57 := by
      have := toNat_of_isDecimalDigit h
      omega
    simp only [isLatinDigit, Bool.and_eq_true, decide_eq_true_eq]
    exact hpoints
  · obtain ⟨value, hvalue⟩ := Option.isSome_iff_exists.mp h
    have hlatin : ∀ n < 10, isLatinDigit (Nat.digitChar n) = true := by decide
    refine ⟨value.digitChar, hlatin value ?_, by rw [if_neg hascii, hvalue, Option.map_some]⟩
    obtain ⟨first, hfind, rfl⟩ := Option.map_eq_some_iff.mp hvalue
    have hrange := List.find?_some hfind
    simp only [Bool.and_eq_true, decide_eq_true_eq] at hrange
    omega

/-- Number texts are read as finite numbers. -/
theorem isFinite_of_isNumeral (h : IsNumeral text) (hx : read? text = some x) :
    x.isFinite = true := by
  obtain ⟨c, tail, rfl⟩ := List.exists_cons_of_ne_nil h.ne_nil
  obtain ⟨d, hd, hc⟩ : ∃ d, (isLatinDigit d = true ∨ d = '.') ∧
      (if c.toNat < 128 then some c else (digitValue? c).map Nat.digitChar) = some d := by
    rcases h.head with hc | rfl
    · obtain ⟨d, hlatin, hd⟩ := exists_latinDigit hc
      exact ⟨d, .inl hlatin, hd⟩
    · exact ⟨'.', .inr rfl, rfl⟩
  have hread := plainText?_eq_mapM h.plain
  rw [List.mapM_cons, hc] at hread
  cases hm : tail.mapM fun c =>
      if c.toNat < 128 then some c else (digitValue? c).map Nat.digitChar with
  | none =>
    rw [hm] at hread
    rw [read?, hread] at hx
    cases hx
  | some rest =>
    rw [hm] at hread
    rw [read?_of_plain hread (signOf_cons hd rest) hd] at hx
    obtain ⟨_, -, rfl⟩ := Option.map_eq_some_iff.mp hx
    rfl

/-- Digits of every script are read as ASCII digits, with a point behind them or without. -/
theorem exists_plainText? (h : ∀ c ∈ digits, isDecimalDigit c = true) :
    ∃ plain, plain.length = digits.length ∧ (∀ d ∈ plain, isLatinDigit d = true) ∧
      plainText? digits = some plain ∧ plainText? (digits ++ ['.']) = some (plain ++ ['.']) := by
  have hplain : ∀ c ∈ digits, isBlank c = false ∧ c ≠ '_' := fun c hc => of_isDecimalDigit (h c hc)
  have hpoint : ∀ c ∈ digits ++ ['.'], isBlank c = false ∧ c ≠ '_' :=
    List.forall_mem_append.mpr ⟨hplain, List.forall_mem_singleton.mpr (by decide)⟩
  rw [plainText?_eq_mapM hplain, plainText?_eq_mapM hpoint, List.mapM_append]
  clear hplain hpoint
  induction digits with
  | nil => exact ⟨[], rfl, List.forall_mem_nil _, rfl, rfl⟩
  | cons c digits ih =>
    obtain ⟨hc, hrest⟩ := List.forall_mem_cons.mp h
    obtain ⟨d, hlatin, hd⟩ := exists_latinDigit hc
    obtain ⟨plain, hlength, hall, hread, -⟩ := ih hrest
    refine ⟨d :: plain, congrArg (· + 1) hlength, List.forall_mem_cons.mpr ⟨hlatin, hall⟩, ?_, ?_⟩
    · rw [List.mapM_cons, hd, hread]
      rfl
    · rw [List.mapM_cons, hd, hread]
      rfl

/-- A point behind digits does not change what they are read as. -/
theorem unsignedOf?_point (h : ∀ d ∈ digits, isLatinDigit d = true) :
    unsignedOf? (digits ++ ['.']) = unsignedOf? digits := by
  have hne : ∀ sign, isLatinDigit sign = false → sign ∉ digits := by
    intro sign hs hm
    rw [h sign hm] at hs
    cases hs
  have hmark : ∀ d ∈ digits ++ ['.'], (!(decide (d = 'e') || decide (d = 'E'))) = true := by
    intro d hd
    rcases List.mem_append.mp hd with hd | hd
    · have he : d ≠ 'e' := fun heq => hne 'e' (by decide) (heq ▸ hd)
      have hE : d ≠ 'E' := fun heq => hne 'E' (by decide) (heq ▸ hd)
      simp [he, hE]
    · rw [List.mem_singleton.mp hd]
      decide
  have hcoefficient : coefficientOf? (digits ++ ['.']) = coefficientOf? digits := by
    have hp : ∀ d ∈ digits, decide (d ≠ '.') = true := by
      intro d hd
      rw [decide_eq_true_eq]
      exact fun heq => hne '.' (by decide) (heq ▸ hd)
    have hends : Ends (fun d => decide (d ≠ '.')) ['.'] := .cons (by decide)
    simp only [coefficientOf?, takeWhile_append hp hends, dropWhile_append hp hends,
      List.takeWhile_eq_self_iff.mpr hp, List.dropWhile_eq_nil_iff.mpr hp, List.drop_nil,
      List.drop_one, List.tail_cons]
  have hdigits := (List.forall_mem_append.mp hmark).1
  simp only [unsignedOf?, List.takeWhile_eq_self_iff.mpr hmark,
    List.takeWhile_eq_self_iff.mpr hdigits, List.dropWhile_eq_nil_iff.mpr hmark,
    List.dropWhile_eq_nil_iff.mpr hdigits, hcoefficient]

/-- A point behind digits does not change the number. -/
theorem read?_point (hne : digits ≠ []) (h : ∀ c ∈ digits, isDecimalDigit c = true) :
    read? (digits ++ ['.']) = read? digits := by
  obtain ⟨plain, hlength, hlatin, hdigits, hpoint⟩ := exists_plainText? h
  obtain ⟨d, tail, rfl⟩ : ∃ d tail, plain = d :: tail :=
    List.exists_cons_of_length_pos (hlength ▸ List.length_pos_iff.mpr hne)
  have hd : isLatinDigit d = true ∨ d = '.' := .inl (hlatin d List.mem_cons_self)
  rw [read?_of_plain hpoint (signOf_cons hd (tail ++ ['.'])) hd,
    read?_of_plain hdigits (signOf_cons hd tail) hd, ← List.cons_append, unsignedOf?_point hlatin]

/-- A finite number equals itself. -/
theorem isEqual_self (h : x.isFinite = true) : x.isEqual x = .ok true := by
  rw [isEqual_of_standsFor ⟨h, rfl⟩ ⟨h, rfl⟩, decide_eq_true rfl]

end Decimal

namespace Format

variable {format : Format} {a b product : Decimal}

/-- Bounding the exponent leaves a finite number or signals an overflow. -/
theorem isFinite_of_bounded {negative : Bool} {coefficient : Nat} {exponent : Int}
    (h : format.bounded negative coefficient exponent = .ok product) :
    product.isFinite = true := by
  rw [bounded] at h
  split at h
  · cases h
  · exact Except.ok.inj h ▸ rfl

/-- Rounding leaves a finite number or signals an overflow. -/
theorem isFinite_of_round {negative : Bool} {coefficient : Nat} {exponent : Int}
    (h : format.round negative coefficient exponent = .ok product) : product.isFinite = true := by
  simp only [round] at h
  split at h
  · exact Except.ok.inj h ▸ rfl
  · split at h
    · exact isFinite_of_bounded h
    · split at h
      · exact isFinite_of_bounded h
      · split at h
        · exact Except.ok.inj h ▸ rfl
        · exact isFinite_of_bounded h

/-- The product of finite numbers is finite. -/
theorem isFinite_of_multiply (ha : a.isFinite = true) (hb : b.isFinite = true)
    (h : format.multiply a b = .ok product) : product.isFinite = true := by
  obtain ⟨s₁, c₁, e₁, rfl, -⟩ := Decimal.StandsFor.exists_eq ⟨ha, rfl⟩
  obtain ⟨s₂, c₂, e₂, rfl, -⟩ := Decimal.StandsFor.exists_eq ⟨hb, rfl⟩
  rw [multiply_finite] at h
  exact isFinite_of_round h

end Format

namespace Quantity

variable {catalogue : Catalogue} {known : List String} {t blanks u : String}

/-- Trimming leaves a point where it starts a text. -/
theorem toList_trimString_point (rest : String) :
    (trimString ("." ++ rest)).toList = '.' :: rest.toList.rdropWhile isBlank := by
  rw [trimString, String.toList_ofList, String.toList_append, trim]
  exact strip_append_cons (by decide) [] rest.toList

/-- No unit has a symbol that starts with a point. -/
theorem unitOf_point (rest : String) : unitOf (trimString ("." ++ rest)) =
    .error (.of (.unknownUnit (trimString ("." ++ rest)))) := by
  have htrim : trimString (trimString ("." ++ rest)) = trimString ("." ++ rest) := by
    rw [trimString, trimString, String.toList_ofList, trim, trim, strip_strip]
  have hnone : Units.resolve? (trimString ("." ++ rest)) = none := by
    refine Option.eq_none_iff_forall_not_mem.mpr fun unit hunit => ?_
    have hpoint := Units.startsWord_of_resolve? hunit '.'
      (toList_trimString_point rest ▸ List.mem_cons_self)
    exact absurd hpoint (by decide)
  rw [unitOf, htrim, hnone]

/-- A number text that ends in its point is split in front of the point, and no unit is found. -/
theorem ofLiteral_point {digits : List Char} {rest : String} {x : Decimal} (hne : digits ≠ [])
    (h : ∀ c ∈ digits, isDecimalDigit c = true) (hr : ∀ c ∈ rest.toList, isDigitSign c = false)
    (hx : numberOf (digits ++ ['.']) = .ok x) :
    ofLiteral (String.ofList (digits ++ ['.']) ++ rest) =
      .error (.of (.unknownUnit (trimString ("." ++ rest)))) := by
  have htext : String.ofList (digits ++ ['.']) ++ rest = String.ofList digits ++ ("." ++ rest) := by
    rw [String.ofList_append, String.append_assoc]
  obtain ⟨c, hc, hd⟩ := exists_last_digit [] hne h
  have hlast : (String.ofList digits).toList.getLast? = some c := by rwa [String.toList_ofList]
  have hsign : ∀ c ∈ ("." ++ rest).toList, isDigitSign c = false := by
    rw [String.toList_append]
    exact List.forall_mem_append.mpr ⟨List.forall_mem_singleton.mpr (by decide), hr⟩
  have hvalue : numberOf (trim (String.ofList digits).toList) = .ok x := by
    rw [numberOf_eq_ok_iff, Decimal.read?_trim, String.toList_ofList,
      ← Decimal.read?_point hne h]
    exact numberOf_eq_ok_iff.mp hx
  have hempty : (trimString ("." ++ rest)).isEmpty = false := by
    rw [String.isEmpty_eq_false_iff]
    intro he
    have hpoint := toList_trimString_point rest
    rw [he] at hpoint
    cases hpoint
  rw [htext, ofLiteral_digits hlast hd hsign, hvalue]
  simp only [hempty, unitOf_point, Bool.false_eq_true, if_false]
  rfl

/-- Both readers find the same product of a number, the text of which ends in a digit, and a unit. -/
theorem agree_ofLiteral_unit {unit : Quantity} {c : Char} (bindings : Bindings)
    (ht : IsNumeral t.toList) (hb : ∀ c ∈ blanks.toList, isBlank c = true)
    (hu : Units.resolve? u = some unit) (hc : t.toList.getLast? = some c)
    (hd : isDecimalDigit c = true) :
    Agree Equals (do
      let e ← Equation.compile catalogue known (t ++ blanks ++ u)
      e.evaluate bindings) (ofLiteral (t ++ blanks ++ u)) := by
  rw [Equation.evaluate_number_unit bindings ht hb hu, String.append_assoc,
    ofLiteral_amount hc hd hb hu, ht.trim_eq]
  cases hx : numberOf t.toList with
  | error failure => exact .error _ _
  | ok x =>
    have hfinite := Decimal.isFinite_of_isNumeral ht (numberOf_eq_ok_iff.mp hx)
    have hsize := (Units.isSize_of_resolve? hu).standsFor.finite
    cases hm : working.multiply x unit.value with
    | error signal =>
      obtain ⟨failure, hf⟩ := exists_of_within Decimal "multiplication" signal
      obtain ⟨other, ho⟩ := exists_of_within Decimal "unit conversion" signal
      simp only [multiply, number, hm, hf, ho, bind, Except.bind]
      exact .error _ _
    | ok value =>
      simp only [multiply, number, hm, within, bind, Except.bind]
      refine .ok ⟨Decimal.isEqual_self (Format.isFinite_of_multiply hfinite hsize hm), ?_⟩
      exact Dimension.one_add unit.dimension

/-- Both readers find the same number, if its text ends in a digit. -/
theorem agree_ofLiteral_number {c : Char} (bindings : Bindings) (ht : IsNumeral t.toList)
    (hb : ∀ c ∈ blanks.toList, isBlank c = true) (hc : t.toList.getLast? = some c)
    (hd : isDecimalDigit c = true) :
    Agree Equals (do
      let e ← Equation.compile catalogue known (t ++ blanks)
      e.evaluate bindings) (ofLiteral (t ++ blanks)) := by
  have hnone : trimString blanks = "" := by
    have h := strip_append hb (List.forall_mem_nil _) (List.forall_mem_nil _)
    rw [List.append_nil, List.append_nil] at h
    rw [trimString, trim, h]
  rw [Equation.evaluate_number bindings ht hb,
    ofLiteral_digits hc hd fun d hm => isDigitSign_of_isBlank (hb d hm), ht.trim_eq, hnone]
  cases hx : numberOf t.toList with
  | error failure => exact .error _ _
  | ok x =>
    have hfinite := Decimal.isFinite_of_isNumeral ht (numberOf_eq_ok_iff.mp hx)
    exact .ok ⟨Decimal.isEqual_self hfinite, rfl⟩

/-- An amount that has a value as an expression has a number. -/
theorem exists_numberOf {bindings : Bindings} {q : Quantity} (ht : IsNumeral t.toList)
    (hb : ∀ c ∈ blanks.toList, isBlank c = true)
    (hu : u = "" ∨ ∃ unit, Units.resolve? u = some unit)
    (hq : (do
      let e ← Equation.compile catalogue known (t ++ blanks ++ u)
      e.evaluate bindings) = .ok q) : ∃ x, numberOf t.toList = .ok x := by
  rcases hu with rfl | ⟨unit, hu⟩
  · rw [String.append_empty, Equation.evaluate_number bindings ht hb] at hq
    obtain ⟨x, hx, -⟩ := bind_eq_ok_iff.mp hq
    exact ⟨x, hx⟩
  · rw [Equation.evaluate_number_unit bindings ht hb hu] at hq
    obtain ⟨x, hx, -⟩ := bind_eq_ok_iff.mp hq
    exact ⟨x, hx⟩

/-- The literal and the expression of an amount agree if its number text does not end in the point:
both fail, or both are equal quantities. If it does and the expression has a value, the literal
fails for the text from the point on, which no unit has as its symbol. -/
theorem ofLiteral_amount_spec (catalogue : Catalogue) (known : List String) (bindings : Bindings)
    (ht : IsNumeral t.toList) (hb : ∀ c ∈ blanks.toList, isBlank c = true)
    (hu : u = "" ∨ ∃ unit, Units.resolve? u = some unit) :
    let value := do
      let e ← Equation.compile catalogue known (t ++ blanks ++ u)
      e.evaluate bindings
    (t.toList.getLast? ≠ some '.' → Agree Equals value (ofLiteral (t ++ blanks ++ u))) ∧
      (t.toList.getLast? = some '.' → ∀ q, value = .ok q →
        ofLiteral (t ++ blanks ++ u) =
          .error (.of (.unknownUnit (trimString ("." ++ blanks ++ u))))) := by
  intro value
  rcases ht.last with ⟨c, hc, hd⟩ | ⟨digits, hne, hdigits, htext⟩
  · refine ⟨fun _ => ?_, fun hpoint => ?_⟩
    · rcases hu with rfl | ⟨unit, hu⟩
      · simp only [value, String.append_empty]
        exact agree_ofLiteral_number bindings ht hb hc hd
      · exact agree_ofLiteral_unit bindings ht hb hu hc hd
    · obtain rfl := Option.some.inj (hc.symm.trans hpoint)
      exact absurd hd (by decide)
  · refine ⟨fun hpoint => absurd ?_ hpoint, fun _ q hq => ?_⟩
    · rw [htext, List.getLast?_concat]
    · obtain ⟨x, hx⟩ := exists_numberOf ht hb hu hq
      have hword : ∀ c ∈ u.toList, startsWord c = true := by
        rcases hu with rfl | ⟨unit, hu⟩
        · exact List.forall_mem_nil _
        · exact Units.startsWord_of_resolve? hu
      have hfails := ofLiteral_point hne hdigits (isDigitSign_of_mem_append hb hword) (htext ▸ hx)
      rw [← htext, String.ofList_toList] at hfails
      rw [String.append_assoc, String.append_assoc, hfails]

/-- Two and a half kilometres with a blank in front of the unit. -/
theorem ofLiteral_amount_spec_kilometre :
    let text := "2.5" ++ " " ++ "km"
    (IsNumeral "2.5".toList ∧ (∀ c ∈ " ".toList, isBlank c = true) ∧
      ∃ unit, Units.resolve? "km" = some unit) ∧
    ∃ p q, (do
        let e ← Equation.compile .standard [] text
        e.evaluate fun _ => none) = .ok p ∧ ofLiteral text = .ok q ∧ p.Equals q ∧
      q.dimension = { Dimension.one with length := 1 } := by
  intro text
  have ht : IsNumeral "2.5".toList :=
    ⟨"2.5".toList, [], ⟨['2'], List.forall_mem_singleton.mpr (by decide),
      .inr ⟨['5'], List.forall_mem_singleton.mpr (by decide), .inl (by decide), rfl⟩⟩, .inl rfl, rfl⟩
  have hb : ∀ c ∈ " ".toList, isBlank c = true := List.forall_mem_singleton.mpr (by decide)
  have hu : Units.resolve? "km" =
      some (of (.finite false 1 3) { Dimension.one with length := 1 }) := by decide +kernel
  have hq : ofLiteral text = .ok ⟨.finite false 25 2, { Dimension.one with length := 1 },
      some ⟨"km", .finite false 1 3⟩⟩ := by decide +kernel
  have hagree := (ofLiteral_amount_spec .standard [] (fun _ => none) ht hb (.inr ⟨_, hu⟩)).1
    (by decide)
  refine ⟨⟨ht, hb, _, hu⟩, ?_⟩
  rw [hq] at hagree
  generalize (do
    let e ← Equation.compile .standard [] text
    e.evaluate fun _ => none) = value at hagree ⊢
  cases hagree with
  | ok h => exact ⟨_, _, rfl, hq, h, rfl⟩

/-- Five metres, entered with a point behind the five, are an expression and no literal. -/
theorem ofLiteral_point_metre :
    IsNumeral "5.".toList ∧
    Units.resolve? "m" = some (of (.ofNat 1) { Dimension.one with length := 1 }) ∧
    (do
      let e ← Equation.compile .standard [] ("5." ++ "" ++ "m")
      e.evaluate fun _ => none) = .ok (of (.ofNat 5) { Dimension.one with length := 1 }) ∧
    ofLiteral ("5." ++ "" ++ "m") = .error (.of (.unknownUnit ".m")) := by
  have ht : IsNumeral "5.".toList :=
    ⟨"5.".toList, [], ⟨['5'], List.forall_mem_singleton.mpr (by decide),
      .inr ⟨[], List.forall_mem_nil _, .inl (by decide), rfl⟩⟩, .inl rfl, rfl⟩
  have hb : ∀ c ∈ "".toList, isBlank c = true := List.forall_mem_nil _
  have hu : Units.resolve? "m" = some (of (.ofNat 1) { Dimension.one with length := 1 }) := by
    decide +kernel
  refine ⟨ht, hu, ?_, by decide +kernel⟩
  rw [Equation.evaluate_number_unit _ ht hb hu]
  decide +kernel

end Quantity

end UnitCalculator
