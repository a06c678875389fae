import UnitCalculator.Proofs.Decimal.Shown
import UnitCalculator.Proofs.Expression.Reading
import UnitCalculator.Proofs.Expression.Rereading
import UnitCalculator.Proofs.Quantity.Power

/-!
# Texts that denote a quantity

Numbers, units, their powers and products of them are read as trees that have the same value
whatever the variables are. Each is scanned up to a space or the end of the text.
-/

namespace UnitCalculator

open Grammar

/-- Tokens spell, at a strength, a tree that has a value whatever the variables are. -/
def Denotes (strength : Nat) (q : Quantity) (tokens : List Token) : Prop :=
  ∃ tree, Spells strength tokens tree ∧ ∀ bindings, tree.evaluate bindings = .ok q

section

variable {strength weaker : Nat} {a b q : Quantity} {left right tokens : List Token}

/-- What is denoted at a strength is denoted at every weaker one. -/
theorem Denotes.mono (h : Denotes strength q tokens) (hw : weaker ≤ strength) :
    Denotes weaker q tokens := by
  obtain ⟨tree, hs, hv⟩ := h
  exact ⟨tree, hs.mono hw, hv⟩

/-- A single operand denotes its value. -/
theorem denotes_single {lexeme : Lexeme} (h : lexeme.isSingle = true)
    (hv : ∀ bindings, lexeme.evaluate bindings = .ok q) (strength p : Nat) :
    Denotes strength q [⟨lexeme, p⟩] :=
  ⟨.leaf ⟨lexeme, p⟩, .leaf h, hv⟩

/-- An operation denotes its result. -/
theorem Denotes.operation (op : Operator) (hop : op ≠ .assign) (hl : Denotes op.precedence a left)
    (hr : Denotes (op.precedence + 1) b right) (hq : op.apply a b = .ok q) (p : Nat) :
    Denotes op.precedence q (left ++ ⟨.operator op, p⟩ :: right) := by
  obtain ⟨l, hls, hlv⟩ := hl
  obtain ⟨r, hrs, hrv⟩ := hr
  refine ⟨.binary op p l r, .binary p le_rfl hls hrs, fun bindings => ?_⟩
  rw [Tree.evaluate, if_neg hop, hlv, hrv]
  exact hq

end

namespace Decimal.Written

open Scanner Text

variable {catalogue : Catalogue} {known : List String} {source : String} {rest : List Char}
variable {w : Written}

/-- A number text without sign as a lexeme. -/
def lexeme (w : Written) : Lexeme :=
  .number (String.ofList w.text) (.number (.finite false w.coefficient w.exponent))

/-- A number text with its sign as lexemes. -/
def lexemes (w : Written) (negative : Bool) : List Lexeme :=
  (if negative then [.operator .subtract] else []) ++ [w.lexeme]

/-- A number text has a lexeme. -/
theorem exists_head_lexemes (w : Written) (negative : Bool) :
    ∃ head, head ∈ (w.lexemes negative).head? := by
  cases negative with
  | false => exact ⟨_, rfl⟩
  | true => exact ⟨_, rfl⟩

/-- A number text is scanned as a number. -/
theorem isNumeral (w : Written) : IsNumeral w.text := by
  have hdigit : ∀ c, isLatinDigit c = true → isDecimalDigit c = true := by
    intro c hc
    rw [isDecimalDigit, digitValue?_of_isLatinDigit hc]
    rfl
  have hwhole : ∀ c ∈ w.whole, isDecimalDigit c = true := fun c hc =>
    hdigit c (w.digits c (List.mem_append_left _ hc))
  have hfraction : ∀ c ∈ w.fraction, isDecimalDigit c = true := fun c hc =>
    hdigit c (w.digits c (List.mem_append_right _ hc))
  refine ⟨w.decimalText, powerText w.power, ⟨w.whole, hwhole, ?_⟩, ?_, rfl⟩
  · rw [decimalText]
    split
    · exact .inl ⟨w.whole_ne_nil, rfl⟩
    · exact .inr ⟨w.fraction, hfraction, .inl w.whole_ne_nil, rfl⟩
  · cases w.power with
    | none => exact .inl rfl
    | some power =>
      refine .inr ⟨'E', [if power < 0 then '-' else '+'], Nat.toDigits 10 power.natAbs, .inr rfl,
        ?_, Nat.toDigits_ne_nil, fun c hc => hdigit c (isLatinDigit_of_mem_toDigits hc), rfl⟩
      split
      · exact .inr (.inr rfl)
      · exact .inr (.inl rfl)

/-- A number text that fits is native. -/
theorem native (h : Fits w.coefficient w.exponent) : w.lexeme.Native catalogue known := by
  have hread := w.read?_text false h.storage.1 h.storage.2
  refine .number w.isNumeral ?_
  rw [numberOf]
  rw [if_neg Bool.false_ne_true, List.nil_append] at hread
  rw [hread]

/-- A number text with its sign is scanned to its lexemes. -/
theorem passes (h : Fits w.coefficient w.exponent) (negative : Bool) (hr : EndsNumeral rest) :
    Passes catalogue known source ((if negative then ['-'] else []) ++ w.text) rest
      (w.lexemes negative) := by
  have hnumber : Passes catalogue known source w.text rest [w.lexeme] := by
    have hnative : Passes catalogue known source w.lexeme.text.toList rest [w.lexeme] :=
      .native (native h) hr
    rwa [lexeme, Lexeme.text, String.toList_ofList] at hnative
  cases negative with
  | false => exact Passes.append .nil hnumber
  | true =>
    have hsign : Operator.ofSign? '-' = some .subtract := rfl
    exact (Tree.passes_sign hsign).append hnumber

/-- A number text with its sign is completed to the number with its sign. -/
theorem completesTo (h : Fits w.coefficient w.exponent) {negative : Bool}
    (hn : negative = true → w.coefficient ≠ 0) (leaf : Bool) (strength : Nat) :
    CompletesTo leaf false (w.lexemes negative)
      (Denotes strength (.number (.finite negative w.coefficient w.exponent))) := by
  intro raw hraw
  cases negative with
  | false =>
    obtain ⟨p, nothing, rfl, hnothing⟩ := Token.exists_of_map_cons hraw
    rw [List.map_eq_nil_iff.mp hnothing]
    exact ⟨_, _, _, completes_single rfl leaf, rfl, denotes_single rfl (fun _ => rfl) _ _⟩
  | true =>
    obtain ⟨p, rest, rfl, hrest⟩ := Token.exists_of_map_cons hraw
    obtain ⟨q, nothing, rfl, hnothing⟩ := Token.exists_of_map_cons hrest
    rw [List.map_eq_nil_iff.mp hnothing]
    have hnegated : w.lexeme.negated? =
        some (.ok (.number (Lexeme.negationText ++ String.ofList w.text)
          (.number (.finite true w.coefficient w.exponent)))) := by
      have hvalue : (Quantity.number (.finite false w.coefficient w.exponent)).negate =
          .ok (.number (.finite true w.coefficient w.exponent)) := by
        rw [Quantity.negate, Quantity.number, h.negate (hn rfl)]
        rfl
      rw [lexeme, Lexeme.negated?, hvalue]
      rfl
    exact ⟨_, _, _, completes_signed p q hnegated leaf, rfl,
      denotes_single rfl (fun _ => rfl) _ _⟩

end Decimal.Written

/-- A text is scanned, up to a space or the end, to lexemes that denote a quantity, and assigns
nothing. -/
structure Shows (catalogue : Catalogue) (known : List String) (source : String) (strength : Nat)
    (q : Quantity) (text : List Char) (lexemes : List Lexeme) : Prop where
  passes : ∀ rest : List Char, (∀ c ∈ rest.head?, c = ' ') →
    Scanner.Passes catalogue known source text rest lexemes
  completes : ∃ leaf unit, CompletesTo leaf unit lexemes (Denotes strength q)
  expression : '=' ∉ text

namespace Shows

open Scanner Decimal

variable {catalogue : Catalogue} {known : List String} {source : String}
variable {strength weaker : Nat} {a b q : Quantity} {first second : List Char}
variable {before behind lexemes : List Lexeme} {text : List Char}

/-- A text that is shown at a strength is shown at every weaker one. -/
theorem mono (h : Shows catalogue known source strength q text lexemes) (hw : weaker ≤ strength) :
    Shows catalogue known source weaker q text lexemes := by
  obtain ⟨leaf, unit, hc⟩ := h.completes
  exact ⟨h.passes, ⟨leaf, unit, hc.imp fun _ hd => hd.mono hw⟩, h.expression⟩

/-- Neither a number nor a word goes on before a space and at the end. -/
theorem follows {rest : List Char} (h : ∀ c ∈ rest.head?, c = ' ') :
    EndsNumeral rest ∧ Text.Ends continuesWord rest := by
  have hfollows : Tree.Follows (.leaf ⟨.closeBracket, 0⟩) rest := by
    cases rest with
    | nil => exact Tree.follows_nil _
    | cons c rest =>
      obtain rfl : c = ' ' := h c rfl
      exact Tree.follows_separator _ (by decide)
  exact ⟨hfollows.numeral, hfollows.word rfl⟩

/-- A number is shown by its text. -/
theorem number {w : Written} (h : Fits w.coefficient w.exponent) {negative : Bool}
    (hn : negative = true → w.coefficient ≠ 0) :
    Shows catalogue known source strength (.number (.finite negative w.coefficient w.exponent))
      ((if negative then ['-'] else []) ++ w.text) (w.lexemes negative) := by
  refine ⟨fun rest hr => Written.passes h negative (follows hr).1,
    ⟨false, false, Written.completesTo h hn false strength⟩, fun hc => ?_⟩
  rcases List.mem_append.mp hc with hc | hc
  · cases negative with
    | false => cases hc
    | true => exact absurd hc (by decide)
  · exact absurd (Written.mem_text hc) (by decide)

/-- Texts side by side that are scanned one after the other are shown as the product. -/
theorem juxtaposed (hp : ∀ rest, Passes catalogue known source first (second ++ rest) before)
    (hc : ∃ leaf unit, CompletesTo leaf unit before (Denotes 3 a)) (he : '=' ∉ first)
    (hr : Shows catalogue known source 4 b second behind)
    (hs : behind.head? ≠ some (.operator .subtract)) (hq : a.multiply b = .ok q) :
    Shows catalogue known source 3 q (first ++ second) (before ++ behind) := by
  obtain ⟨_, _, hleft⟩ := hc
  obtain ⟨_, unit, hright⟩ := hr.completes
  refine ⟨fun rest h => (hp rest).append (hr.passes rest h),
    ⟨false, unit, (hleft.product hright hs).imp ?_⟩, ?_⟩
  · rintro _ ⟨left, p, right, hl, hr, rfl⟩
    exact Denotes.operation .impliedMultiply (by decide) hl hr hq p
  · rw [List.mem_append, not_or]
    exact ⟨he, hr.expression⟩

/-- Texts with a space between them are shown as the product. -/
theorem product (hl : Shows catalogue known source 3 a first before)
    (hr : Shows catalogue known source 4 b second behind)
    (hs : behind.head? ≠ some (.operator .subtract)) (hq : a.multiply b = .ok q) :
    Shows catalogue known source 3 q (first ++ ' ' :: second) (before ++ behind) := by
  have hp : ∀ rest, Passes catalogue known source (first ++ [' ']) (second ++ rest) before := by
    intro rest
    have hfirst := hl.passes ([' '] ++ (second ++ rest)) (by simp)
    have hspace := hfirst.append .space
    rwa [List.append_nil] at hspace
  have he : '=' ∉ first ++ [' '] := by
    rw [List.mem_append, not_or]
    exact ⟨hl.expression, by decide⟩
  have hwhole := juxtaposed hp hl.completes he hr hs hq
  rwa [List.append_assoc] at hwhole

/-- The symbol of a unit is native. -/
theorem native_unit {symbol : String} {value : Quantity} (h : Units.resolve? symbol = some value)
    (hne : symbol.toList ≠ []) : (Lexeme.unit symbol value).Native catalogue known := by
  obtain ⟨c, tail, ht⟩ := List.exists_cons_of_ne_nil hne
  have hchars := Units.startsWord_of_resolve? h
  rw [ht] at hchars
  obtain ⟨hc, htail⟩ := List.forall_mem_cons.mp hchars
  refine .word ht hc (fun d hd => ?_) (wordAt?_unit known h hne)
  exact (of_startsWord (htail d hd)).2.2.2.1

section

variable {symbol : String} {d : Dimension}

/-- A symbol denotes the unit of a dimension in which values are kept. -/
structure IsBase (symbol : String) (d : Dimension) : Prop where
  resolve : Units.resolve? symbol = some (.of (.ofNat 1) d)
  symbol : symbol.toList ≠ []
  dimension : d.isOne = false

/-- The unit as a lexeme. -/
def unitLexeme (symbol : String) (d : Dimension) : Lexeme := .unit symbol (.of (.ofNat 1) d)

/-- A unit is shown by its symbol. -/
theorem unit (h : IsBase symbol d) :
    Shows catalogue known source strength (.of (.ofNat 1) d) symbol.toList
      [unitLexeme symbol d] := by
  refine ⟨fun rest hr => .native (native_unit h.resolve h.symbol) (follows hr).2,
    ⟨false, true, ?_⟩, fun hc => ?_⟩
  · intro raw hraw
    obtain ⟨p, nothing, rfl, hnothing⟩ := Token.exists_of_map_cons hraw
    rw [List.map_eq_nil_iff.mp hnothing]
    exact ⟨_, _, _, completes_single rfl false, rfl, denotes_single rfl (fun _ => rfl) _ _⟩
  · exact absurd (Units.startsWord_of_resolve? h.resolve '=' hc) (by decide)

/-- The text of an integer is its sign and its digits. -/
theorem toList_intText (n : Int) :
    (intText n).toList =
      (if decide (n < 0) then ['-'] else []) ++ (Written.ofNat n.natAbs).text := by
  rw [intText, Written.text_ofNat]
  by_cases hneg : n < 0
  · rw [if_pos hneg, decide_eq_true hneg, String.toList_append, Nat.toList_repr]
    rfl
  · rw [if_neg hneg, decide_eq_false hneg, Nat.toList_repr]
    rfl

/-- A power of a unit is shown with its exponent behind the sign. -/
theorem power (h : IsBase symbol d) {n : Int} (hn : n.natAbs < pow10 100) :
    Shows catalogue known source 4 (.of (.ofNat 1) (d.multiply n))
      (symbol.toList ++ '^' :: (intText n).toList)
      (unitLexeme symbol d :: .operator .power ::
        (Written.ofNat n.natAbs).lexemes (decide (n < 0))) := by
  have hfits := Written.fits_ofNat hn
  have hnegative : decide (n < 0) = true → (Written.ofNat n.natAbs).coefficient ≠ 0 := by
    rw [Written.coefficient_ofNat, decide_eq_true_eq]
    omega
  obtain ⟨_, _, hunit⟩ := (unit h : Shows catalogue known source 4 _ _ _).completes
  have hnumber := Written.completesTo hfits hnegative true 5
  obtain ⟨head, hhead⟩ := (Written.ofNat n.natAbs).exists_head_lexemes (decide (n < 0))
  rw [toList_intText]
  refine ⟨fun rest hr => ?_, ⟨false, false, ?_⟩, ?_⟩
  · have hsign : Operator.ofSign? '^' = some .power := rfl
    have hbase : Passes catalogue known source symbol.toList
        ('^' :: ((if decide (n < 0) then ['-'] else []) ++ (Written.ofNat n.natAbs).text ++ rest))
        [unitLexeme symbol d] := .native (native_unit h.resolve h.symbol) (.cons (by decide))
    exact hbase.append ((Tree.passes_sign hsign).append
      (Written.passes hfits (decide (n < 0)) (follows hr).1))
  · refine (hunit.operation .power hnumber hhead (fun _ _ => rfl) rfl).imp ?_
    rintro _ ⟨left, p, right, hl, hr, rfl⟩
    refine Denotes.operation .power (by decide) hl hr ?_ p
    have hdigits : (Quantity.number (.finite (decide (n < 0)) (Written.ofNat n.natAbs).coefficient
        (Written.ofNat n.natAbs).exponent)) = .number (.ofInt n) := by
      rw [Written.coefficient_ofNat, Written.exponent_ofNat]
      rfl
    rw [hdigits]
    exact Quantity.pow_ofInt h.dimension hn
  · intro hc
    rcases List.mem_append.mp hc with hc | hc
    · exact (unit h : Shows catalogue known source 4 _ _ _).expression hc
    · rcases List.mem_cons.mp hc with hc | hc
      · exact absurd hc (by decide)
      · exact (number hfits hnegative : Shows catalogue known source 4 _ _ _).expression hc

end

end Shows

end UnitCalculator
