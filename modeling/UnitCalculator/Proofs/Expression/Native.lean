import UnitCalculator.Proofs.Expression.Bracket
import UnitCalculator.Proofs.Expression.Grammar
import UnitCalculator.Proofs.Expression.Legibility
import UnitCalculator.Proofs.Expression.Word

/-!
# Lexemes that are scanned again

A lexeme is native if it is what its own text spells. The text of a native lexeme is scanned to the
same lexeme wherever what follows neither continues it nor turns a name into a call.
-/

namespace UnitCalculator

namespace Lexeme

open Scanner

/-- What is scanned from its own text. -/
inductive Native (catalogue : Catalogue) (known : List String) : Lexeme → Prop where
  /-- A number with its value. -/
  | number {digits : List Char} {value : Decimal} (hd : IsNumeral digits)
    (hv : numberOf digits = .ok value) :
    Native catalogue known (.number (String.ofList digits) (.number value))
  /-- A lookup with what it finds. -/
  | lookup {name : String} {argument : List Char} {value : Quantity}
    (hn : name ∈ Catalogue.lookupNames) (hd : depthAfter? 0 argument = some 0)
    (ht : Text.trim argument = argument)
    (hv : catalogue.lookup name (String.ofList argument) = .ok value) :
    Native catalogue known (.lookup (name ++ "(" ++ String.ofList argument ++ ")") value)
  /-- A unit or a known variable. -/
  | word {lexeme : Lexeme} {c : Char} {tail : List Char} (ht : lexeme.text.toList = c :: tail)
    (hc : startsWord c = true) (hr : ∀ d ∈ tail, continuesWord d = true)
    (hw : wordAt? known lexeme.text.toList = some lexeme) : Native catalogue known lexeme
  /-- A function. -/
  | function {name : String} (hn : name ∈ Function.names) :
    Native catalogue known (.function name)
  /-- An opening bracket. -/
  | openBracket : Native catalogue known .openBracket
  /-- A closing bracket. -/
  | closeBracket : Native catalogue known .closeBracket
  /-- An operator that is written. -/
  | operator {op : Operator} {c : Char} (h : Operator.ofSign? c = some op) :
    Native catalogue known (.operator op)

/-- A text can follow a lexeme without changing how it is scanned. -/
def CanPrecede (lexeme : Lexeme) (rest : List Char) : Prop :=
  match lexeme with
  | .number .. => EndsNumeral rest
  | .unit .. => Text.Ends continuesWord rest
  | .reference name =>
    Text.Ends continuesWord rest ∧
      ((Lexeme.reference name).isCallable = true → opensBracket rest = false)
  | .function _ => rest.head? = some '('
  | _ => True

end Lexeme

namespace Scanner

open Text

/-- The names of lookups and functions are made of word characters. -/
theorem continuesWord_of_callable {name : String}
    (h : name ∈ Function.names ++ Catalogue.lookupNames) :
    ∀ c ∈ name.toList, continuesWord c = true := by
  have hall : ∀ name ∈ Function.names ++ Catalogue.lookupNames,
      name.toList.all continuesWord = true := by decide
  exact List.all_eq_true.mp (hall name h)

variable {catalogue : Catalogue} {known : List String} {source : String} {position : Nat}
variable {lexeme : Lexeme} {c : Char} {tail rest : List Char}

/-- A text that starts with neither a number nor a call starts with a bracket, an operator or a
word. -/
theorem pieceAt_of_no_call (hb : isBlank c = false) (hd : isDecimalDigit c = false) (hp : c ≠ '.')
    (hl : callAt? Catalogue.lookupNames (c :: tail) = none)
    (hf : callAt? Function.names (c :: tail) = none) :
    pieceAt catalogue known source position c tail =
      if c = '(' then .ok ⟨some .openBracket, 1⟩
      else if c = ')' then .ok ⟨some .closeBracket, 1⟩
      else match Operator.ofSign? c with
      | some op => .ok ⟨some (.operator op), 1⟩
      | none =>
        if startsWord c then
          match wordAt? known (c :: tail.takeWhile continuesWord) with
          | some lexeme => .ok ⟨some lexeme, lexeme.text.length⟩
          | none => .error (.of (.unrecognizedInput
              (String.ofList (c :: tail.takeWhile continuesWord)) position))
        else .error (.of (.unrecognizedInput
            (String.ofList (c :: tail.takeWhile (!isBlank ·))) position)) := by
  have hn : numberLength (c :: tail) = 0 := numberLength_eq_zero hd hp tail
  have hpiece := pieceAt.eq_def catalogue known source position c tail
  simp only [hn, hb, hl, hf, Bool.false_eq_true, if_false, ne_eq, not_true_eq_false] at hpiece
  exact hpiece

/-- No name is called where no word stands. -/
theorem callAt?_of_not_word {names : List String}
    (hn : ∀ name ∈ names, name ∈ Function.names ++ Catalogue.lookupNames)
    (hc : continuesWord c = false) (tail : List Char) : callAt? names (c :: tail) = none := by
  have hword : ∀ name ∈ names, ∀ d ∈ name.toList, continuesWord d = true :=
    fun name hname => continuesWord_of_callable (hn name hname)
  have hnil : ∀ d ∈ ([] : List Char), continuesWord d = true := by simp
  rw [← List.nil_append (c :: tail), callAt?_append hword hnil (.cons hc)]
  split
  · rw [List.find?_eq_none]
    intro name hname he
    have hempty : ∀ name ∈ Function.names ++ Catalogue.lookupNames, name ≠ String.ofList [] := by
      decide
    exact hempty name (hn name hname) (by simpa using he)
  · rfl

/-- A character that is neither blank nor part of a number or a word is a bracket or the sign of an
operator. -/
theorem pieceAt_of_not_word (hb : isBlank c = false) (hd : isDecimalDigit c = false)
    (hp : c ≠ '.') (hw : continuesWord c = false) :
    pieceAt catalogue known source position c tail =
      if c = '(' then .ok ⟨some .openBracket, 1⟩
      else if c = ')' then .ok ⟨some .closeBracket, 1⟩
      else match Operator.ofSign? c with
      | some op => .ok ⟨some (.operator op), 1⟩
      | none => .error (.of (.unrecognizedInput
          (String.ofList (c :: tail.takeWhile (!isBlank ·))) position)) := by
  have hstart : startsWord c = false := by
    rw [continuesWord, Bool.or_eq_false_iff, Bool.or_eq_false_iff] at hw
    exact hw.1.1
  rw [pieceAt_of_no_call hb hd hp
    (callAt?_of_not_word (fun name hn => List.mem_append_right _ hn) hw _)
    (callAt?_of_not_word (fun name hn => List.mem_append_left _ hn) hw _)]
  simp only [hstart, Bool.false_eq_true, if_false]

/-- The sign of an operator is neither blank nor part of a number or a word, nor a bracket. -/
theorem of_ofSign? {op : Operator} (h : Operator.ofSign? c = some op) :
    op.symbol.toList = [c] ∧ isBlank c = false ∧ isDecimalDigit c = false ∧ c ≠ '.' ∧
      continuesWord c = false ∧ c ≠ '(' ∧ c ≠ ')' := by
  have hfind : Operator.all.find? (fun op => op.symbol = String.singleton c) = some op := h
  have hsymbol : op.symbol = String.singleton c := by simpa using List.find?_some hfind
  have hlist : op.symbol.toList = [c] := by rw [hsymbol]; simp
  have hsign : c = '=' ∨ c = '+' ∨ c = '-' ∨ c = '*' ∨ c = '/' ∨ c = '^' := by
    have hone : ∀ op ∈ Operator.all, op.symbol.toList.length = 1 →
        op.symbol.toList ∈ [['='], ['+'], ['-'], ['*'], ['/'], ['^']] := by decide
    have hmem := hone op (List.mem_of_find?_eq_some hfind) (by rw [hlist]; rfl)
    simpa [hlist] using hmem
  refine ⟨hlist, ?_⟩
  rcases hsign with rfl | rfl | rfl | rfl | rfl | rfl <;> decide

/-- A bracket is neither blank nor part of a number or a word. -/
theorem of_bracket (h : c = '(' ∨ c = ')') :
    isBlank c = false ∧ isDecimalDigit c = false ∧ c ≠ '.' ∧ continuesWord c = false := by
  rcases h with rfl | rfl
  · decide
  · decide

/-- A character that starts words is neither blank nor part of a number, nor a bracket or the sign
of an operator. -/
theorem of_startsWord (h : startsWord c = true) :
    isBlank c = false ∧ isDecimalDigit c = false ∧ c ≠ '.' ∧ continuesWord c = true ∧
      c ≠ '(' ∧ c ≠ ')' ∧ Operator.ofSign? c = none := by
  have hword : continuesWord c = true := by rw [continuesWord, h, Bool.true_or, Bool.true_or]
  have hn := toNat_of_startsWord h
  refine ⟨isBlank_of_continuesWord hword, ?_, ?_, hword, ?_, ?_, ?_⟩
  · cases hd : isDecimalDigit c with
    | false => rfl
    | true =>
      have hdigit := toNat_of_isDecimalDigit hd
      omega
  · rintro rfl
    exact absurd h (by decide)
  · rintro rfl
    exact absurd h (by decide)
  · rintro rfl
    exact absurd h (by decide)
  · cases ho : Operator.ofSign? c with
    | none => rfl
    | some op =>
      obtain ⟨-, -, -, -, hnot, -⟩ := of_ofSign? ho
      rw [hword] at hnot
      cases hnot

/-- A number text in front of a text that does not go on with it is the piece there, with the value
that it spells. -/
theorem pieceAt_numeral {digits : List Char} (hd : IsNumeral digits) (he : EndsNumeral rest)
    (ht : digits ++ rest = c :: tail) :
    pieceAt catalogue known source position c tail = (do
      let value ← numberOf digits
      return ⟨some (.number (String.ofList digits) (.number value)), digits.length⟩) := by
  have hlength : numberLength (c :: tail) = digits.length := by rw [← ht, numberLength_append hd he]
  have hne : digits.length ≠ 0 := fun hl => hd.ne_nil (List.length_eq_zero_iff.mp hl)
  have hhead : isDecimalDigit c = true ∨ c = '.' := by
    cases digits with
    | nil => exact absurd rfl hne
    | cons d digits =>
      obtain ⟨rfl, -⟩ := List.cons.inj ht
      exact hd.head
  have hb : isBlank c = false := by
    rcases hhead with h | rfl
    · exact isBlank_of_isDecimalDigit h
    · decide
  have htake : (c :: tail).take digits.length = digits := by rw [← ht, List.take_left]
  simp only [pieceAt, hlength, hb, htake, Bool.false_eq_true, if_false, ne_eq, hne,
    not_false_eq_true, if_true]

/-- A number is scanned again. -/
theorem pieceAt_number {digits : List Char} {value : Decimal} (hd : IsNumeral digits)
    (hv : numberOf digits = .ok value) (he : EndsNumeral rest) (ht : digits ++ rest = c :: tail) :
    pieceAt catalogue known source position c tail =
      .ok ⟨some (.number (String.ofList digits) (.number value)), digits.length⟩ := by
  rw [pieceAt_numeral hd he ht, hv]
  rfl

/-- A name before a bracket is called if it is one of the names. -/
theorem callAt?_name {names : List String} {name : String}
    (hn : ∀ name ∈ names, name ∈ Function.names ++ Catalogue.lookupNames)
    (hr : ∀ c ∈ name.toList, continuesWord c = true) (he : Ends continuesWord rest) :
    callAt? names (name.toList ++ rest) =
      if opensBracket rest && names.contains name then some name else none := by
  have hfind : names.find? (· = name) = if names.contains name then some name else none := by
    cases hf : names.find? (· = name) with
    | none =>
      have hnot : name ∉ names := fun hmem => by simpa using List.find?_eq_none.mp hf name hmem
      simp [hnot]
    | some other =>
      obtain rfl : other = name := by simpa using List.find?_some hf
      simp [List.mem_of_find?_eq_some hf]
  rw [callAt?_append (fun other ho => continuesWord_of_callable (hn other ho)) hr he,
    String.ofList_toList, hfind]
  cases opensBracket rest <;> rfl

/-- The names of lookups and functions start like words. -/
theorem startsWord_of_callable {name : String}
    (h : name ∈ Function.names ++ Catalogue.lookupNames) (ht : name.toList ++ rest = c :: tail) :
    startsWord c = true := by
  have hall : ∀ name ∈ Function.names ++ Catalogue.lookupNames,
      name.toList.head?.any startsWord = true := by decide
  have hfirst := hall name h
  cases hl : name.toList with
  | nil =>
    rw [hl] at hfirst
    cases hfirst
  | cons first behind =>
    rw [hl] at hfirst ht
    rw [← (List.cons.inj ht).1]
    exact hfirst

/-- A lookup is scanned again. -/
theorem pieceAt_lookup {name : String} {argument : List Char} {value : Quantity}
    (hn : name ∈ Catalogue.lookupNames) (hd : depthAfter? 0 argument = some 0)
    (ht : Text.trim argument = argument)
    (hv : catalogue.lookup name (String.ofList argument) = .ok value)
    (htext : name.toList ++ '(' :: (argument ++ ')' :: rest) = c :: tail) :
    pieceAt catalogue known source position c tail =
      .ok ⟨some (.lookup (name ++ "(" ++ String.ofList argument ++ ")") value),
        name.length + (argument.length + 2)⟩ := by
  have hmem : name ∈ Function.names ++ Catalogue.lookupNames := List.mem_append_right _ hn
  obtain ⟨hb, hdigit, hp, -⟩ := of_startsWord (startsWord_of_callable hmem htext)
  have hcall : callAt? Catalogue.lookupNames (c :: tail) = some name := by
    have hopen : opensBracket ('(' :: (argument ++ ')' :: rest)) = true := by
      rw [opensBracket, trimLeft, List.dropWhile_cons, if_neg (by decide)]
      rfl
    rw [← htext, callAt?_name (fun other ho => List.mem_append_right _ ho)
      (continuesWord_of_callable hmem) (.cons (by decide)), hopen]
    simp [hn]
  have hargument : argumentAt? ((c :: tail).drop name.length) =
      some (argument, argument.length + 2) := by
    rw [← htext, ← String.length_toList, List.drop_left, argumentAt?, List.takeWhile_cons,
      if_neg (by decide)]
    simp [untilClosed?_append rest hd]
  have hn0 : numberLength (c :: tail) = 0 := numberLength_eq_zero hdigit hp tail
  simp only [pieceAt, hn0, hb, hcall, hargument, hv, ht, Bool.false_eq_true, if_false, ne_eq,
    not_true_eq_false]
  rfl

/-- A function is scanned again before a bracket. -/
theorem pieceAt_function {name : String} (hn : name ∈ Function.names)
    (hr : rest.head? = some '(') (ht : name.toList ++ rest = c :: tail) :
    pieceAt catalogue known source position c tail = .ok ⟨some (.function name), name.length⟩ := by
  obtain ⟨behind, rfl⟩ : ∃ behind, rest = '(' :: behind := List.head?_eq_some_iff.mp hr
  have hmem : name ∈ Function.names ++ Catalogue.lookupNames := List.mem_append_left _ hn
  obtain ⟨hb, hdigit, hp, -⟩ := of_startsWord (startsWord_of_callable hmem ht)
  have hopen : opensBracket ('(' :: behind) = true := by
    rw [opensBracket, trimLeft, List.dropWhile_cons, if_neg (by decide)]
    rfl
  have hlookup : callAt? Catalogue.lookupNames (c :: tail) = none := by
    have hnot : ∀ name ∈ Function.names, Catalogue.lookupNames.contains name = false := by decide
    rw [← ht, callAt?_name (fun other ho => List.mem_append_right _ ho)
      (continuesWord_of_callable hmem) (.cons (by decide)), hopen, hnot name hn]
    rfl
  have hcall : callAt? Function.names (c :: tail) = some name := by
    rw [← ht, callAt?_name (fun other ho => List.mem_append_left _ ho)
      (continuesWord_of_callable hmem) (.cons (by decide)), hopen]
    simp [hn]
  have hn0 : numberLength (c :: tail) = 0 := numberLength_eq_zero hdigit hp tail
  simp only [pieceAt, hn0, hb, hlookup, hcall, Bool.false_eq_true, if_false, ne_eq,
    not_true_eq_false]

/-- A unit or a variable is scanned again, unless it becomes a call. -/
theorem pieceAt_word {behind : List Char} (htext : lexeme.text.toList = c :: behind)
    (hc : startsWord c = true) (hr : ∀ d ∈ behind, continuesWord d = true)
    (hw : wordAt? known lexeme.text.toList = some lexeme) (he : Ends continuesWord rest)
    (hcall : lexeme.text ∈ Function.names ++ Catalogue.lookupNames → opensBracket rest = false) :
    pieceAt catalogue known source position c (behind ++ rest) =
      .ok ⟨some lexeme, lexeme.text.length⟩ := by
  obtain ⟨hb, hdigit, hp, hword, ho, hclose, hop⟩ := of_startsWord hc
  have hrun : ∀ d ∈ lexeme.text.toList, continuesWord d = true := by
    rw [htext]
    exact List.forall_mem_cons.mpr ⟨hword, hr⟩
  have hnone : ∀ names : List String,
      (∀ name ∈ names, name ∈ Function.names ++ Catalogue.lookupNames) →
      callAt? names (c :: (behind ++ rest)) = none := by
    intro names hn
    rw [← List.cons_append, ← htext, callAt?_name hn hrun he]
    cases hcontains : names.contains lexeme.text with
    | false => rw [Bool.and_false, if_neg (by decide)]
    | true =>
      rw [hcall (hn _ (by simpa using hcontains)), Bool.false_and, if_neg (by decide)]
  rw [pieceAt_of_no_call hb hdigit hp (hnone _ fun name hn => List.mem_append_right _ hn)
    (hnone _ fun name hn => List.mem_append_left _ hn), if_neg ho, if_neg hclose, hop,
    takeWhile_append hr he, ← htext, hw]
  simp only [hc, if_true]

end Scanner

namespace Lexeme

open Scanner

variable {catalogue : Catalogue} {known : List String} {lexeme : Lexeme}

/-- The text of a native lexeme has a first character, which is no sign if it is an operand. -/
theorem Native.exists_head (h : lexeme.Native catalogue known) :
    ∃ c tail, lexeme.text.toList = c :: tail ∧ (lexeme.isSingle = true → c ≠ '-') := by
  have hword : ∀ {name : String} (rest : List Char),
      name ∈ Function.names ++ Catalogue.lookupNames →
      ∃ c tail, name.toList ++ rest = c :: tail ∧ c ≠ '-' := by
    intro name rest hn
    cases hl : name.toList ++ rest with
    | nil =>
      have hall : ∀ name ∈ Function.names ++ Catalogue.lookupNames, name.toList ≠ [] := by decide
      exact absurd (List.append_eq_nil_iff.mp hl).1 (hall name hn)
    | cons c tail =>
      refine ⟨c, tail, rfl, ?_⟩
      rintro rfl
      exact absurd (startsWord_of_callable hn hl) (by decide)
  cases h with
  | @number digits value hd hv =>
    cases digits with
    | nil => exact absurd rfl hd.ne_nil
    | cons c digits =>
      refine ⟨c, digits, by rw [Lexeme.text, String.toList_ofList], fun _ => ?_⟩
      rintro rfl
      rcases hd.head with hc | hc
      · exact absurd hc (by decide)
      · exact absurd hc (by decide)
  | @lookup name argument value hn =>
    obtain ⟨c, tail, ht, hc⟩ := hword ('(' :: (argument ++ [')'])) (List.mem_append_right _ hn)
    exact ⟨c, tail, by simpa [Lexeme.text, String.toList_append] using ht, fun _ => hc⟩
  | @word _ c tail ht hc =>
    refine ⟨c, tail, ht, fun _ => ?_⟩
    rintro rfl
    exact absurd hc (by decide)
  | @function name hn =>
    obtain ⟨c, tail, ht, hc⟩ := hword [] (List.mem_append_left _ hn)
    exact ⟨c, tail, by rw [← ht, List.append_nil, Lexeme.text], fun _ => hc⟩
  | openBracket => exact ⟨'(', [], rfl, fun h => by cases h⟩
  | closeBracket => exact ⟨')', [], rfl, fun h => by cases h⟩
  | @operator op c hop =>
    exact ⟨c, [], (of_ofSign? hop).1, fun h => by cases h⟩

/-- The text of a native lexeme starts with no blank, and with a bracket only if it is one. -/
theorem Native.head {c : Char} {tail : List Char} (h : lexeme.Native catalogue known)
    (ht : lexeme.text.toList = c :: tail) :
    Text.isBlank c = false ∧ (lexeme = .openBracket ∨ c ≠ '(') := by
  have hword : startsWord c = true → Text.isBlank c = false ∧ (lexeme = .openBracket ∨ c ≠ '(') :=
    fun hs => ⟨(of_startsWord hs).1, .inr (of_startsWord hs).2.2.2.2.1⟩
  cases h with
  | number hd hv =>
    rw [text, String.toList_ofList] at ht
    rw [ht] at hd
    rcases hd.head with hc | rfl
    · refine ⟨isBlank_of_isDecimalDigit hc, .inr ?_⟩
      rintro rfl
      exact absurd hc (by decide)
    · exact ⟨by decide, .inr (by decide)⟩
  | @lookup name argument value hn =>
    have htext : name.toList ++ '(' :: (argument ++ [')']) = c :: tail := by
      simpa [text, String.toList_append] using ht
    exact hword (startsWord_of_callable (List.mem_append_right _ hn) htext)
  | word htext hc =>
    rw [htext] at ht
    obtain ⟨rfl, -⟩ := List.cons.inj ht
    exact hword hc
  | @function name hn =>
    have htext : name.toList ++ [] = c :: tail := by
      rw [List.append_nil]
      exact ht
    exact hword (startsWord_of_callable (List.mem_append_left _ hn) htext)
  | openBracket =>
    have hbracket : ['('] = c :: tail := ht
    obtain ⟨rfl, -⟩ := List.cons.inj hbracket
    exact ⟨by decide, .inl rfl⟩
  | closeBracket =>
    have hbracket : [')'] = c :: tail := ht
    obtain ⟨rfl, -⟩ := List.cons.inj hbracket
    exact ⟨by decide, .inr (by decide)⟩
  | operator hop =>
    obtain ⟨htext, hb, -, -, -, ho, -⟩ := of_ofSign? hop
    rw [text, htext] at ht
    obtain ⟨rfl, -⟩ := List.cons.inj ht
    exact ⟨hb, .inr ho⟩

end Lexeme

namespace Scanner

open Text

variable {catalogue : Catalogue} {known : List String} {source : String} {position : Nat}
variable {lexeme : Lexeme} {c : Char} {tail rest : List Char}

/-- A native lexeme is the piece at the start of its text where that may go on as it does. -/
theorem pieceAt_native (h : lexeme.Native catalogue known) (hp : lexeme.CanPrecede rest)
    (ht : lexeme.text.toList ++ rest = c :: tail) :
    pieceAt catalogue known source position c tail = .ok ⟨some lexeme, lexeme.text.length⟩ := by
  cases h with
  | @number digits value hd hv =>
    rw [Lexeme.text, String.toList_ofList] at ht
    rw [pieceAt_number hd hv hp ht, Lexeme.text, ← String.length_toList, String.toList_ofList]
  | @lookup name argument value hn hd htrim hv =>
    have htext : name.toList ++ '(' :: (argument ++ ')' :: rest) = c :: tail := by
      simpa [Lexeme.text, String.toList_append] using ht
    rw [pieceAt_lookup hn hd htrim hv htext]
    have hlength : (name ++ "(" ++ String.ofList argument ++ ")").length =
        name.length + (argument.length + 2) := by
      have hopen : "(".length = 1 := rfl
      have hclose : ")".length = 1 := rfl
      simp only [String.length_append, String.length_ofList]
      omega
    rw [Lexeme.text, hlength]
  | @word _ first behind htext hc hr hw =>
    rw [htext, List.cons_append] at ht
    obtain ⟨rfl, rfl⟩ := List.cons.inj ht
    rcases (startsWord_of_wordAt? hw).sort with ⟨name, rfl⟩ | ⟨symbol, value, rfl, hresolve⟩
    · refine pieceAt_word htext hc hr hw hp.1 fun hmem => hp.2 ?_
      simpa [Lexeme.isCallable, Lexeme.text] using hmem
    · refine pieceAt_word htext hc hr hw hp fun hmem => ?_
      have hnone : Units.resolve? symbol = none := Units.resolve?_callable hmem
      rw [hnone] at hresolve
      cases hresolve
  | function hn => exact pieceAt_function hn hp ht
  | openBracket =>
    have hbracket : '(' :: rest = c :: tail := ht
    obtain ⟨rfl, rfl⟩ := List.cons.inj hbracket
    obtain ⟨hb, hd, hpoint, hword⟩ := of_bracket (.inl rfl)
    exact (pieceAt_of_not_word hb hd hpoint hword).trans (if_pos rfl)
  | closeBracket =>
    have hbracket : ')' :: rest = c :: tail := ht
    obtain ⟨rfl, rfl⟩ := List.cons.inj hbracket
    obtain ⟨hb, hd, hpoint, hword⟩ := of_bracket (.inr rfl)
    exact (pieceAt_of_not_word hb hd hpoint hword).trans rfl
  | @operator op sign hop =>
    obtain ⟨htext, hb, hd, hpoint, hword, ho, hclose⟩ := of_ofSign? hop
    rw [Lexeme.text, htext] at ht
    obtain ⟨rfl, rfl⟩ := List.cons.inj ht
    rw [pieceAt_of_not_word hb hd hpoint hword, if_neg ho, if_neg hclose, hop, Lexeme.text,
      ← String.length_toList, htext]
    rfl

/-- Scanning goes on behind the piece at the start of a text. -/
theorem scan_of_pieceAt {text : List Char} {piece : Option Lexeme}
    (h : pieceAt catalogue known source position c tail = .ok ⟨piece, text.length⟩)
    (ht : text ++ rest = c :: tail) (hne : text ≠ []) :
    scan catalogue known source position (text ++ rest) =
      (scan catalogue known source (position + text.length) rest).map
        ((piece.map (⟨·, position⟩)).toList ++ ·) := by
  have hdrop : tail.drop (text.length - 1) = rest := by
    cases text with
    | nil => exact absurd rfl hne
    | cons d behind =>
      obtain ⟨-, rfl⟩ := List.cons.inj ht
      rw [List.length_cons, Nat.add_sub_cancel, List.append_eq, List.drop_left]
  rw [ht, scan, h]
  simp only [bind, Except.bind, hdrop]
  cases scan catalogue known source (position + text.length) rest with
  | error failure => rfl
  | ok tokens => cases piece <;> rfl

/-- A native lexeme is scanned from its text where that may go on as it does. -/
theorem scan_native (h : lexeme.Native catalogue known) (hp : lexeme.CanPrecede rest) :
    scan catalogue known source position (lexeme.text.toList ++ rest) =
      (scan catalogue known source (position + lexeme.text.length) rest).map
        (⟨lexeme, position⟩ :: ·) := by
  obtain ⟨c, tail, ht, -⟩ := h.exists_head
  have hpiece : pieceAt catalogue known source position c (tail ++ rest) =
      .ok ⟨some lexeme, lexeme.text.toList.length⟩ := by
    rw [String.length_toList]
    exact pieceAt_native h hp (by rw [ht, List.cons_append])
  rw [scan_of_pieceAt hpiece (by rw [ht, List.cons_append]) (by simp [ht]), String.length_toList]
  rfl

/-- A blank is passed over. -/
theorem scan_blank (hb : isBlank c = true) :
    scan catalogue known source position (c :: rest) =
      scan catalogue known source (position + 1) rest := by
  have hpiece : pieceAt catalogue known source position c rest = .ok ⟨none, [c].length⟩ := by
    rw [pieceAt, if_pos hb, List.length_singleton]
  have hscan := scan_of_pieceAt hpiece rfl (by simp)
  rw [List.cons_append, List.nil_append] at hscan
  rw [hscan]
  cases scan catalogue known source (position + 1) rest <;> rfl

/-- A space is passed over. -/
theorem scan_space :
    scan catalogue known source position (' ' :: rest) =
      scan catalogue known source (position + 1) rest :=
  scan_blank rfl

/-- Blanks are passed over. -/
theorem scan_blanks {blanks : List Char} (hb : ∀ c ∈ blanks, isBlank c = true) :
    scan catalogue known source position (blanks ++ rest) =
      scan catalogue known source (position + blanks.length) rest := by
  induction blanks generalizing position with
  | nil => rfl
  | cons c blanks ih =>
    obtain ⟨hc, hblanks⟩ := List.forall_mem_cons.mp hb
    rw [List.cons_append, scan_blank hc, ih hblanks, List.length_cons, Nat.add_assoc,
      Nat.add_comm 1]

/-- A number text is scanned to its value in front of a text that does not go on with it. -/
theorem scan_numeral {digits : List Char} (hd : IsNumeral digits) (he : EndsNumeral rest) :
    scan catalogue known source position (digits ++ rest) = (do
      let value ← numberOf digits
      let tokens ← scan catalogue known source (position + digits.length) rest
      return ⟨.number (String.ofList digits) (.number value), position⟩ :: tokens) := by
  obtain ⟨c, tail, ht⟩ := List.exists_cons_of_ne_nil hd.ne_nil
  have htext : digits ++ rest = c :: (tail ++ rest) := by rw [ht, List.cons_append]
  cases hv : numberOf digits with
  | error failure =>
    rw [htext, scan, pieceAt_numeral hd he htext, hv]
    rfl
  | ok value =>
    rw [scan_of_pieceAt (pieceAt_number hd hv he htext) htext hd.ne_nil]
    cases scan catalogue known source (position + digits.length) rest <;> rfl

end Scanner

end UnitCalculator
