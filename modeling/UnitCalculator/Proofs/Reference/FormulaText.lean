import UnitCalculator.Catalogue
import UnitCalculator.Proofs.Decimal.Display
import UnitCalculator.Proofs.Decimal.Written
import UnitCalculator.Proofs.Expression.Word
import UnitCalculator.Proofs.Reference.Multiplicity

/-!
# Reading the text of a formula

The text of a formula has no blanks, no counts of one and only round brackets. Where every symbol is
a capital letter with small letters behind it, a symbol ends where the next one starts, so that the
text is split into the same symbols and numbers. Read from right to left they give the formula
again, however the text was written that it came from.
-/

namespace UnitCalculator

namespace Text

/-- A letter `A` to `Z`. -/
def isCapitalLetter (c : Char) : Bool := 'A' ≤ c && c ≤ 'Z'

/-- A letter `a` to `z`. -/
def isSmallLetter (c : Char) : Bool := 'a' ≤ c && c ≤ 'z'

/-- A capital letter with small letters behind it. -/
def isCapitalised : List Char → Bool
  | [] => false
  | first :: rest => isCapitalLetter first && rest.all isSmallLetter

/-- A character that goes on with a symbol or with a number. -/
def continues (c : Char) : Bool := isSmallLetter c || isDecimalDigit c

/-- Code points of capital letters. -/
theorem toNat_of_isCapitalLetter {c : Char} (h : isCapitalLetter c = true) :
    65 ≤ c.toNat ∧ c.toNat ≤ 90 := by
  simp only [isCapitalLetter, Bool.and_eq_true, decide_eq_true_eq] at h
  exact h

/-- A character in front of the small letters is none of them. -/
theorem isSmallLetter_of_lt {c : Char} (h : c.toNat < 97) : isSmallLetter c = false := by
  refine Bool.eq_false_iff.mpr fun hs => ?_
  simp only [isSmallLetter, Bool.and_eq_true, decide_eq_true_eq] at hs
  have hl : 97 ≤ c.toNat := hs.1
  omega

/-- A capitalised name starts with a capital letter and goes on with small ones. -/
theorem exists_of_isCapitalised {name : List Char} (h : isCapitalised name = true) :
    ∃ first small, name = first :: small ∧ isCapitalLetter first = true ∧
      ∀ c ∈ small, isSmallLetter c = true := by
  cases name with
  | nil => cases h
  | cons first small =>
    rw [isCapitalised, Bool.and_eq_true, List.all_eq_true] at h
    exact ⟨first, small, rfl, h⟩

/-- A capital letter is neither a blank nor a decimal digit, nor does it go on with anything. -/
theorem of_isCapitalLetter {c : Char} (h : isCapitalLetter c = true) :
    isBlank c = false ∧ isDecimalDigit c = false ∧ continues c = false := by
  obtain ⟨hl, hu⟩ := toNat_of_isCapitalLetter h
  have hword : Scanner.continuesWord c = true := by
    have hletter : ('A' ≤ c && c ≤ 'Z') = true := h
    simp [Scanner.continuesWord, Scanner.startsWord, isLatinLetter, hletter]
  have hdigit : isDecimalDigit c = false := by
    refine Bool.eq_false_iff.mpr fun hd => ?_
    have := Scanner.toNat_of_isDecimalDigit hd
    omega
  have hcontinues : continues c = false := by
    rw [continues, isSmallLetter_of_lt (by omega), hdigit]
    rfl
  exact ⟨Scanner.isBlank_of_continuesWord hword, hdigit, hcontinues⟩

/-- What goes on with neither ends runs of small letters and of digits. -/
theorem Ends.of_continues {rest : List Char} (h : Ends continues rest) :
    Ends isSmallLetter rest ∧ Ends isDecimalDigit rest := by
  refine ⟨fun c hc => ?_, fun c hc => ?_⟩
  · exact (Bool.or_eq_false_iff.mp (h c hc)).1
  · exact (Bool.or_eq_false_iff.mp (h c hc)).2

/-- A run of digits behind a number spells less than the next number with as many zeros. -/
theorem digits_lt {digits : List Char} {before value : Nat}
    (h : digits.foldl (fun value c => value.bind fun v => (digitValue? c).map (10 * v + ·))
      (some before) = some value) : value < (before + 1) * pow10 digits.length := by
  induction digits generalizing before with
  | nil =>
    obtain rfl := Option.some.inj h
    exact (Nat.mul_one _).symm ▸ Nat.lt_succ_self _
  | cons c digits ih =>
    rw [List.foldl_cons, Option.bind_some] at h
    cases hc : digitValue? c with
    | none =>
      have hnone : ∀ digits : List Char, digits.foldl (fun value c => value.bind fun v =>
          (digitValue? c).map (10 * v + ·)) none = none := fun digits => by
        induction digits with
        | nil => rfl
        | cons c digits ih => exact ih
      rw [hc, Option.map_none, hnone] at h
      cases h
    | some digit =>
      have hdigit : digit ≤ 9 := by
        obtain ⟨first, hf, rfl⟩ := Option.map_eq_some_iff.mp hc
        have hrange := List.find?_some hf
        simp only [Bool.and_eq_true, decide_eq_true_eq] at hrange
        omega
      rw [hc, Option.map_some] at h
      refine (ih h).trans_le ?_
      rw [List.length_cons, pow10_succ, ← Nat.mul_assoc]
      exact Nat.mul_le_mul_right _ (by omega)

end Text

namespace Reference

open Text

/-- The symbols of a table. -/
def ElementTable.symbols (table : ElementTable) : List String := table.elements.map (·.symbol)

/-- Every symbol is a capital letter with small letters behind it. -/
def ElementTable.IsCapitalised (table : ElementTable) : Prop :=
  ∀ symbol ∈ table.symbols, isCapitalised symbol.toList = true

/-- The symbols of the named elements are capitalised. -/
theorem isCapitalised_standard : Catalogue.standard.elements.IsCapitalised := by
  have hall : Catalogue.standard.elements.symbols.all (isCapitalised ·.toList) = true := by
    decide +kernel
  exact List.all_eq_true.mp hall

namespace FormulaToken

variable {table : ElementTable} {rest : List Char} {tokens : List FormulaToken}

/-- A symbol is found where no small letter goes on with it. -/
theorem symbolAt?_append (hc : table.IsCapitalised) {symbol : String} (hs : symbol ∈ table.symbols)
    (he : Ends isSmallLetter rest) : table.symbolAt? (symbol.toList ++ rest) = some symbol := by
  refine longestAt?_eq_some_iff.mpr ⟨hs, startsWith_iff.mpr (List.prefix_append _ _), ?_⟩
  intro other ho hstart
  obtain ⟨first, small, hl, -, -⟩ := exists_of_isCapitalised (hc symbol hs)
  obtain ⟨start, further, hm, -, hfurther⟩ := exists_of_isCapitalised (hc other ho)
  have hprefix := startsWith_iff.mp hstart
  rw [hl, hm, List.cons_append, List.cons_prefix_cons] at hprefix
  -- a longer symbol would take its small letters from behind the shorter one
  have hlength := (prefix_of_prefix_append hfurther he hprefix.2).length_le
  rw [← String.length_toList, ← String.length_toList, hl, hm]
  exact Nat.succ_le_succ hlength

/-- A symbol is scanned where no small letter goes on with it. -/
theorem scan_symbol (hc : table.IsCapitalised) {symbol : String} (hs : symbol ∈ table.symbols)
    (he : Ends isSmallLetter rest) (h : scan table rest = .ok tokens) :
    scan table (symbol.toList ++ rest) = .ok (.element symbol :: tokens) := by
  have hat := symbolAt?_append hc hs he
  obtain ⟨first, small, hl, hfirst, -⟩ := exists_of_isCapitalised (hc symbol hs)
  obtain ⟨hblank, hdigit, -⟩ := of_isCapitalLetter hfirst
  have hbracket : ∀ sign, isCapitalLetter sign = false → first ≠ sign := by
    rintro sign hsign rfl
    rw [hfirst] at hsign
    cases hsign
  have hlength : symbol.length = small.length + 1 := by
    rw [← String.length_toList, hl]
    rfl
  have hne : symbol.isEmpty = false := by
    refine Bool.eq_false_iff.mpr fun he => ?_
    rw [String.isEmpty_iff.mp he] at hl
    cases hl
  rw [hl, List.cons_append] at hat ⊢
  rw [scan]
  simp only [hblank, hdigit, hat, hne, hlength, Nat.add_sub_cancel, List.drop_left, h,
    hbracket '(' (by decide), hbracket '[' (by decide), hbracket ')' (by decide),
    hbracket ']' (by decide)]
  rfl

/-- Digits are scanned where no digit goes on with them. -/
theorem scan_digits {digits : List Char} (hne : digits ≠ [])
    (hd : ∀ c ∈ digits, isDecimalDigit c = true) (he : Ends isDecimalDigit rest)
    (h : scan table rest = .ok tokens) :
    scan table (digits ++ rest) = .ok (.number (String.ofList digits) :: tokens) := by
  cases digits with
  | nil => exact absurd rfl hne
  | cons c more =>
    obtain ⟨hfirst, hmore⟩ := List.forall_mem_cons.mp hd
    have hblank := Scanner.isBlank_of_isDecimalDigit hfirst
    rw [List.cons_append, scan]
    simp only [hblank, hfirst, takeWhile_append hmore he, List.drop_left, h]
    rfl

/-- An opening bracket is scanned wherever it stands. -/
theorem scan_openBracket (h : scan table rest = .ok tokens) :
    scan table ('(' :: rest) = .ok (.openBracket '(' :: tokens) := by
  have hblank : isBlank '(' = false := by decide
  have hdigit : isDecimalDigit '(' = false := by decide
  rw [scan]
  simp only [hblank, hdigit, h]
  rfl

/-- A closing bracket is scanned wherever it stands. -/
theorem scan_closeBracket (h : scan table rest = .ok tokens) :
    scan table (')' :: rest) = .ok (.closeBracket ')' :: tokens) := by
  have hblank : isBlank ')' = false := by decide
  have hdigit : isDecimalDigit ')' = false := by decide
  rw [scan]
  simp only [hblank, hdigit, h]
  rfl

/-- Scanned symbols are those of the table. -/
theorem symbol_of_scan (table : ElementTable) (text : List Char) :
    ∀ tokens, scan table text = .ok tokens →
      ∀ symbol, .element symbol ∈ tokens → symbol ∈ table.symbols := by
  have hnext : ∀ (token : FormulaToken) (x : Outcome (List FormulaToken)),
      (∀ symbol, .element symbol = token → symbol ∈ table.symbols) →
      (∀ tokens, x = .ok tokens → ∀ symbol, .element symbol ∈ tokens → symbol ∈ table.symbols) →
      ∀ tokens, (do return token :: (← x)) = .ok tokens →
        ∀ symbol, .element symbol ∈ tokens → symbol ∈ table.symbols := by
    intro token x htoken hx tokens h symbol hs
    obtain ⟨behind, hb, h⟩ := bind_eq_ok_iff.mp h
    obtain rfl := pure_eq_ok_iff.mp h
    rcases List.mem_cons.mp hs with he | hs
    · exact htoken symbol he
    · exact hx behind hb symbol hs
  fun_induction scan table text with
  | case1 =>
    rintro tokens ⟨⟩
    exact nofun
  | case2 c rest hb ih => exact ih
  | case3 c rest hb hd more ih => exact hnext _ _ (fun _ hs => nomatch hs) ih
  | case4 c rest hb hd ho ih => exact hnext _ _ (fun _ hs => nomatch hs) ih
  | case5 c rest hb hd ho hc ih => exact hnext _ _ (fun _ hs => nomatch hs) ih
  | case6 => exact nofun
  | case7 => exact nofun
  | case8 c rest hb hd ho hc symbol hat he ih =>
    refine hnext _ _ (fun other hs => ?_) ih
    obtain rfl := FormulaToken.element.inj hs
    exact (longestAt?_eq_some_iff.mp hat).1

end FormulaToken

namespace Formula

open FormulaToken (scan)

/-- A count that is short enough for a number text. -/
def IsShort (count : Nat) : Prop := digitCount count ≤ numeralDigits

/-- A count is no longer than the number text that spells it. -/
theorem isShort_of_countOf {digits : String} {count : Nat} (h : countOf digits = .ok count) :
    IsShort count := by
  obtain ⟨hl, rfl⟩ := countOf_eq_ok_iff.mp h
  have hpos : 0 < numeralDigits := by decide
  refine (digitCount_le_iff hpos).mpr ?_
  rw [countValue]
  cases hv : digitsValue? digits.toList with
  | none => exact pow10_pos _
  | some value =>
    have hlt := digits_lt hv
    rw [String.length_toList, Nat.zero_add, Nat.one_mul] at hlt
    exact hlt.trans_le (pow10_le_pow10 hl)

/-- A short count is read from its own text. -/
theorem countOf_repr {count : Nat} (h : IsShort count) : countOf count.repr = .ok count := by
  have hdigits : count.repr.toList = Nat.toDigits 10 count := String.toList_ofList
  refine countOf_eq_ok_iff.mpr ⟨?_, ?_⟩
  · rw [← String.length_toList, hdigits]
    exact h
  · have hlatin : ∀ c ∈ Nat.toDigits 10 count, isLatinDigit c = true := fun c hc =>
      isLatinDigit_of_mem_toDigits hc
    rw [countValue, hdigits, digitsValue?_of_isLatinDigit hlatin, Option.getD_some,
      Nat.ofDigitChars_ten_toDigits]

mutual

/-- A component whose symbols are those of a table and whose counts are short. -/
def IsLegible (table : ElementTable) : Formula → Prop
  | .element symbol count => symbol ∈ table.symbols ∧ IsShort count
  | .group components count => AreLegible table components ∧ IsShort count

/-- Components whose symbols are those of a table and whose counts are short. -/
def AreLegible (table : ElementTable) : List Formula → Prop
  | [] => True
  | component :: components => component.IsLegible table ∧ AreLegible table components

end

/-- The token of a count, left out if it is one. -/
def countTokens (count : Nat) : List FormulaToken := if count = 1 then [] else [.number count.repr]

mutual

/-- Tokens of a component. -/
def componentTokens : Formula → List FormulaToken
  | .element symbol count => .element symbol :: countTokens count
  | .group components count =>
    .openBracket '(' :: (componentsTokens components ++ .closeBracket ')' :: countTokens count)

/-- Tokens of components side by side. -/
def componentsTokens : List Formula → List FormulaToken
  | [] => []
  | component :: components => componentTokens component ++ componentsTokens components

end

section

variable {table : ElementTable} {rest : List Char} {tokens : List FormulaToken}

/-- The text of a number is a run of ASCII digits. -/
theorem repr_toList (count : Nat) :
    count.repr.toList ≠ [] ∧ ∀ c ∈ count.repr.toList, isLatinDigit c = true := by
  have hdigits : count.repr.toList = Nat.toDigits 10 count := String.toList_ofList
  rw [hdigits]
  exact ⟨Nat.toDigits_ne_nil, fun c hc => isLatinDigit_of_mem_toDigits hc⟩

/-- A count is scanned where no digit goes on with it. -/
theorem scan_countText (count : Nat) (he : Ends isDecimalDigit rest)
    (h : scan table rest = .ok tokens) :
    scan table ((countText count).toList ++ rest) = .ok (countTokens count ++ tokens) := by
  rw [countText, countTokens]
  split
  · exact h
  · obtain ⟨hne, hd⟩ := repr_toList count
    have hs := FormulaToken.scan_digits hne (fun c hc => by
      rw [isDecimalDigit, digitValue?_of_isLatinDigit (hd c hc)]
      rfl) he h
    rw [String.ofList_toList] at hs
    exact hs

/-- No count goes on with a symbol in front of it. -/
theorem ends_countText (count : Nat) (he : Ends isSmallLetter rest) :
    Ends isSmallLetter ((countText count).toList ++ rest) := by
  rw [countText]
  split
  · exact he
  · obtain ⟨hne, hd⟩ := repr_toList count
    cases hr : count.repr.toList with
    | nil => exact absurd hr hne
    | cons c more =>
      obtain ⟨-, hu⟩ := toNat_of_isLatinDigit (hd c (hr ▸ List.mem_cons_self))
      exact .cons (isSmallLetter_of_lt (by omega))

/-- No component goes on with a symbol or a number in front of it. -/
theorem ends_componentsText (hc : table.IsCapitalised) {components : List Formula}
    (hl : AreLegible table components) (he : Ends continues rest) :
    Ends continues ((componentsText components).toList ++ rest) := by
  cases components with
  | nil => exact he
  | cons component components =>
    cases component with
    | group members count =>
      have hopen : continues '(' = false := by decide
      simpa [componentsText, componentText] using Ends.cons hopen
    | element symbol count =>
      obtain ⟨first, small, hs, hfirst, -⟩ := exists_of_isCapitalised (hc symbol hl.1.1)
      simpa [componentsText, componentText, hs] using Ends.cons (of_isCapitalLetter hfirst).2.2

mutual

/-- The text of a component is scanned where nothing goes on with it. -/
theorem scan_componentText (hc : table.IsCapitalised) {rest : List Char}
    {tokens : List FormulaToken} (he : Ends continues rest) (h : scan table rest = .ok tokens) :
    (component : Formula) → component.IsLegible table →
      scan table (component.componentText.toList ++ rest) =
        .ok (component.componentTokens ++ tokens)
  | .element symbol count, hl => by
    have hends := ends_countText count he.of_continues.1
    have hs := FormulaToken.scan_symbol hc hl.1 hends (scan_countText count he.of_continues.2 h)
    rw [componentText, String.toList_append, List.append_assoc, hs]
    rfl
  | .group components count, hl => by
    have hclose : continues ')' = false := by decide
    have hbehind :=
      FormulaToken.scan_closeBracket (scan_countText count he.of_continues.2 h)
    have hs := FormulaToken.scan_openBracket
      (scan_componentsText hc (.cons hclose) hbehind components hl.1)
    rw [componentText, componentTokens]
    simpa using hs

/-- The text of components is scanned where nothing goes on with it. -/
theorem scan_componentsText (hc : table.IsCapitalised) {rest : List Char}
    {tokens : List FormulaToken} (he : Ends continues rest) (h : scan table rest = .ok tokens) :
    (components : List Formula) → AreLegible table components →
      scan table ((componentsText components).toList ++ rest) =
        .ok (componentsTokens components ++ tokens)
  | [], _ => h
  | component :: components, hl => by
    have hs := scan_componentText hc (ends_componentsText hc hl.2 he)
      (scan_componentsText hc he h components hl.2) component hl.1
    rw [componentsText, componentsTokens, String.toList_append, List.append_assoc,
      List.append_assoc]
    exact hs

end

end

namespace Progress

/-- The token of a count makes it the number that is kept. -/
theorem run_countTokens {count : Nat} (hs : IsShort count) (components : List Formula)
    (groups : List OpenGroup) :
    run ⟨components, groups, 1⟩ (countTokens count).reverse = .ok ⟨components, groups, count⟩ := by
  rw [countTokens]
  split
  · next h =>
    subst h
    rfl
  · rw [List.reverse_singleton, run, step, countOf_repr hs]
    rfl

mutual

/-- The tokens of a component are read back into it. -/
theorem run_componentTokens {table : ElementTable} (components : List Formula)
    (groups : List OpenGroup) : (component : Formula) → component.IsLegible table →
      run ⟨components, groups, 1⟩ component.componentTokens.reverse =
        .ok ⟨component :: components, groups, 1⟩
  | .element symbol count, hl => by
    rw [componentTokens, List.reverse_cons]
    exact run_append_eq_ok_iff.mpr ⟨_, run_countTokens hl.2 components groups, rfl⟩
  | .group members count, hl => by
    rw [componentTokens, List.reverse_cons, List.reverse_append, List.reverse_cons,
      List.append_assoc, List.append_assoc]
    refine run_append_eq_ok_iff.mpr ⟨_, run_countTokens hl.2 components groups, ?_⟩
    refine run_append_eq_ok_iff.mpr ⟨_, rfl, ?_⟩
    refine run_append_eq_ok_iff.mpr
      ⟨_, run_componentsTokens [] (⟨count, components⟩ :: groups) members hl.1, ?_⟩
    rw [List.append_nil]
    rfl

/-- The tokens of components are read back into them. -/
theorem run_componentsTokens {table : ElementTable} (components : List Formula)
    (groups : List OpenGroup) : (more : List Formula) → AreLegible table more →
      run ⟨components, groups, 1⟩ (componentsTokens more).reverse =
        .ok ⟨more ++ components, groups, 1⟩
  | [], _ => rfl
  | component :: more, hl => by
    rw [componentsTokens, List.reverse_append]
    exact run_append_eq_ok_iff.mpr ⟨_, run_componentsTokens components groups more hl.2,
      run_componentTokens (more ++ components) groups component hl.1⟩

end

/-- What has been read is legible, and the counts of open groups and the number kept are short. -/
structure IsLegible (table : ElementTable) (state : Progress) : Prop where
  components : AreLegible table state.components
  groups : ∀ inner ∈ state.groups, AreLegible table inner.outer ∧ IsShort inner.count
  count : IsShort state.count

/-- One is short. -/
theorem isShort_one : IsShort 1 := by
  rw [IsShort, digitCount]
  decide

/-- Reading a token leaves what has been read legible. -/
theorem IsLegible.step {table : ElementTable} {state next : Progress} (hl : state.IsLegible table)
    {token : FormulaToken} (ht : ∀ symbol, .element symbol = token → symbol ∈ table.symbols)
    (h : state.step token = .ok next) : next.IsLegible table := by
  obtain ⟨components, groups, count⟩ := state
  obtain ⟨hcomponents, hgroups, hcount⟩ := hl
  cases token with
  | number digits =>
    obtain ⟨value, hv, h⟩ := bind_eq_ok_iff.mp h
    obtain rfl := pure_eq_ok_iff.mp h
    exact ⟨hcomponents, hgroups, isShort_of_countOf hv⟩
  | element symbol =>
    obtain rfl := Except.ok.inj h
    exact ⟨⟨⟨ht symbol rfl, hcount⟩, hcomponents⟩, hgroups, isShort_one⟩
  | closeBracket sign =>
    obtain rfl := Except.ok.inj h
    exact ⟨trivial, List.forall_mem_cons.mpr ⟨⟨hcomponents, hcount⟩, hgroups⟩, isShort_one⟩
  | openBracket sign =>
    cases groups with
    | nil => cases h
    | cons inner groups =>
      obtain rfl := Except.ok.inj h
      obtain ⟨⟨houter, hinner⟩, hgroups⟩ := List.forall_mem_cons.mp hgroups
      exact ⟨⟨⟨hcomponents, hinner⟩, houter⟩, hgroups, hcount⟩

/-- Reading tokens leaves what has been read legible. -/
theorem IsLegible.run {table : ElementTable} {state final : Progress} (hl : state.IsLegible table)
    {left : List FormulaToken} (ht : ∀ symbol, .element symbol ∈ left → symbol ∈ table.symbols)
    (h : state.run left = .ok final) : final.IsLegible table := by
  induction left generalizing state with
  | nil =>
    obtain rfl := Except.ok.inj h
    exact hl
  | cons token left ih =>
    obtain ⟨next, hs, h⟩ := bind_eq_ok_iff.mp h
    refine ih (hl.step (fun symbol he => ?_) hs) (fun symbol hm => ?_) h
    · exact ht symbol (he ▸ List.mem_cons_self)
    · exact ht symbol (List.mem_cons_of_mem _ hm)

end Progress

/-- A formula that a text spells is a group of legible components with a short count. -/
theorem legible_of_ofText {table : ElementTable} {text : String} {formula : Formula}
    (h : ofText table text = .ok formula) : ∃ components count,
      formula = .group components count ∧ AreLegible table components ∧ IsShort count := by
  obtain ⟨tokens, hscan, h⟩ := bind_eq_ok_iff.mp h
  obtain ⟨final, hrun, h⟩ := bind_eq_ok_iff.mp h
  have hstart : Progress.IsLegible table ⟨[], [], 1⟩ := ⟨trivial, nofun, Progress.isShort_one⟩
  have hsymbols := FormulaToken.symbol_of_scan table _ tokens hscan
  have hl := hstart.run (fun symbol hm => hsymbols symbol (List.mem_reverse.mp hm)) hrun
  split at h
  · obtain rfl := Except.ok.inj h
    exact ⟨_, _, rfl, hl.components, hl.count⟩
  · cases h

/-- Where all symbols are capitalised, the text of legible components with a short count spells
them. -/
theorem ofText_text {table : ElementTable} (hc : table.IsCapitalised) {components : List Formula}
    {count : Nat} (hl : AreLegible table components) (hs : IsShort count) :
    ofText table (text (.group components count)) = .ok (.group components count) := by
  have hbehind : scan table ((componentsText components).toList ++ []) =
      .ok (componentsTokens components ++ []) := scan_componentsText hc .nil (by rw [scan]) _ hl
  rw [List.append_nil, List.append_nil] at hbehind
  have hends : Ends isDecimalDigit (componentsText components).toList := by
    have h := (ends_componentsText hc hl .nil).of_continues.2
    rwa [List.append_nil] at h
  have hscan : scan table (text (.group components count)).toList =
      .ok (countTokens count ++ componentsTokens components) := by
    rw [text, String.toList_append]
    exact scan_countText count hends hbehind
  have hrun : Progress.run ⟨[], [], 1⟩ (countTokens count ++ componentsTokens components).reverse =
      .ok ⟨components, [], count⟩ := by
    have hr := Progress.run_componentsTokens [] [] components hl
    rw [List.append_nil] at hr
    rw [List.reverse_append]
    exact Progress.run_append_eq_ok_iff.mpr ⟨_, hr, Progress.run_countTokens hs components []⟩
  exact bind_eq_ok_iff.mpr ⟨_, hscan, bind_eq_ok_iff.mpr ⟨_, hrun, rfl⟩⟩

/-- The text of a formula that a text spells, with the elements that come with the library, spells
the same formula, which has the same molar mass. -/
theorem ofText_text_spec {text : String} {formula : Formula}
    (h : ofText Catalogue.standard.elements text = .ok formula) :
    ofText Catalogue.standard.elements formula.text = .ok formula ∧
    (ofText Catalogue.standard.elements formula.text >>= molarMass Catalogue.standard.elements) =
      formula.molarMass Catalogue.standard.elements := by
  obtain ⟨components, count, rfl, hl, hs⟩ := legible_of_ofText h
  have ht := ofText_text isCapitalised_standard hl hs
  rw [ht]
  exact ⟨rfl, rfl⟩

/-- A formula is spelled by its text without blanks, square brackets and leading zeros. -/
theorem ofText_text_spec_respelled :
    ∃ formula,
      ofText Catalogue.standard.elements "2 Al002[S O4]3 (CN)01" = .ok formula ∧
      formula.text = "2Al2(SO4)3(CN)" ∧
      ofText Catalogue.standard.elements "2Al2(SO4)3(CN)" = .ok formula := by
  have hscan : scan Catalogue.standard.elements "2 Al002[S O4]3 (CN)01".toList =
      .ok [.number "2", .element "Al", .number "002", .openBracket '[', .element "S",
        .element "O", .number "4", .closeBracket ']', .number "3", .openBracket '(',
        .element "C", .element "N", .closeBracket ')', .number "01"] := by
    decide +kernel
  have h : ofText Catalogue.standard.elements "2 Al002[S O4]3 (CN)01" = .ok (.group
      [.element "Al" 2, .group [.element "S" 1, .element "O" 4] 3,
        .group [.element "C" 1, .element "N" 1] 1] 2) :=
    bind_eq_ok_iff.mpr ⟨_, hscan, rfl⟩
  exact ⟨_, h, by decide +kernel, (ofText_text_spec h).1⟩

end Formula

end Reference

end UnitCalculator
