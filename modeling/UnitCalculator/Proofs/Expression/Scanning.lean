import UnitCalculator.Proofs.Expression.Native

/-!
# Scanned lexemes

Every lexeme that is scanned is native, and it is made of characters of the text. A function is
scanned only before a bracket.
-/

namespace UnitCalculator

namespace Scanner

open Text

variable {catalogue : Catalogue} {known : List String} {source : String} {position : Nat}
variable {lexeme : Lexeme} {c : Char} {tail rest : List Char}

/-- A name that is called is one of the names, stands at the start of the text and has a bracket
behind it. -/
theorem of_callAt? {names : List String} {text : List Char} {name : String}
    (h : callAt? names text = some name) :
    name ∈ names ∧ name.toList <+: text ∧ opensBracket (text.drop name.length) = true := by
  have hfind : names.find? (fun name =>
      startsWith name text && opensBracket (text.drop name.length)) = some name := h
  have hfound := List.find?_some hfind
  rw [Bool.and_eq_true] at hfound
  obtain ⟨hstart, hopen⟩ := hfound
  exact ⟨List.mem_of_find?_eq_some hfind, startsWith_iff.mp hstart, hopen⟩

/-- The argument of a lookup closes its brackets and lies in the text. -/
theorem of_argumentAt? {text argument : List Char} {length : Nat}
    (h : argumentAt? text = some (argument, length)) :
    depthAfter? 0 argument = some 0 ∧ ∀ d ∈ argument ++ [')'], d ∈ text := by
  obtain ⟨found, hf, he⟩ := Option.map_eq_some_iff.mp h
  obtain ⟨rfl, -⟩ := Prod.mk.inj he
  obtain ⟨hd, rest, hrest⟩ := of_untilClosed? hf
  refine ⟨hd, fun d hmem => List.mem_of_mem_drop (i := (text.takeWhile isBlank).length + 1) ?_⟩
  rw [hrest, List.append_cons]
  exact List.mem_append_left _ hmem

/-- A text that opens a bracket has one. -/
theorem mem_of_opensBracket {text : List Char} (h : opensBracket text = true) : '(' ∈ text := by
  have hhead : (trimLeft text).head? = some '(' := of_decide_eq_true h
  exact (List.dropWhile_suffix _).mem (List.mem_of_mem_head? hhead)

/-- A trimmed text is part of the text. -/
theorem mem_of_mem_trim {text : List Char} (h : c ∈ trim text) : c ∈ text := by
  obtain ⟨front, back, htext, -, -⟩ := exists_strip isBlank text
  rw [htext]
  exact List.mem_append_left _ (List.mem_append_right _ h)

/-- Looking up a trimmed text finds the same. -/
theorem lookup_trim (name : String) (argument : List Char) :
    catalogue.lookup name (String.ofList (trim argument)) =
      catalogue.lookup name (String.ofList argument) := by
  have htrim : trimString (String.ofList (trim argument)) =
      trimString (String.ofList argument) := by
    simp only [trimString, String.toList_ofList, trim, strip_strip]
  rw [Catalogue.lookup, Catalogue.lookup, htrim]

/-- A lookup with its argument trimmed is native and made of characters of the text. -/
theorem native_lookup {name : String} {text argument : List Char} {value : Quantity} {length : Nat}
    (hname : callAt? Catalogue.lookupNames text = some name)
    (hargument : argumentAt? (text.drop name.length) = some (argument, length))
    (hv : catalogue.lookup name (String.ofList argument) = .ok value) :
    (Lexeme.lookup (name ++ "(" ++ String.ofList (trim argument) ++ ")") value).Native
        catalogue known ∧
      ∀ d ∈ (name ++ "(" ++ String.ofList (trim argument) ++ ")").toList, d ∈ text := by
  obtain ⟨hn, hleads, hopen⟩ := of_callAt? hname
  obtain ⟨hd, hmem⟩ := of_argumentAt? hargument
  refine ⟨.lookup hn (by rw [depthAfter?_trim, hd]) (strip_strip _ _) (by rw [lookup_trim, hv]),
    fun d hd => ?_⟩
  have hparts : d ∈ name.toList ∨ d = '(' ∨ d ∈ trim argument ∨ d = ')' := by
    simpa [String.toList_append, or_assoc] using hd
  rcases hparts with hd | rfl | hd | rfl
  · exact hleads.mem hd
  · exact List.mem_of_mem_drop (mem_of_opensBracket hopen)
  · exact List.mem_of_mem_drop (hmem d (List.mem_append_left _ (mem_of_mem_trim hd)))
  · exact List.mem_of_mem_drop (hmem ')' (by simp))

/-- A unit or variable at the start of a word is native and made of characters of the word. -/
theorem native_word (hc : startsWord c = true)
    (hw : wordAt? known (c :: tail.takeWhile continuesWord) = some lexeme) :
    lexeme.Native catalogue known ∧ ∀ d ∈ lexeme.text.toList, d ∈ c :: tail := by
  have hword := startsWord_of_wordAt? hw
  cases hl : lexeme.text.toList with
  | nil => exact absurd hl hword.nonempty
  | cons first behind =>
    have hleads := hword.start
    rw [hl] at hleads
    obtain ⟨rfl, hbehind⟩ := List.cons_prefix_cons.mp hleads
    refine ⟨.word hl hc (fun d hd => List.mem_takeWhile_imp (hbehind.mem hd)) hword.alone,
      fun d hd => ?_⟩
    exact (hleads.trans (List.cons_prefix_cons.mpr ⟨rfl, List.takeWhile_prefix _⟩)).mem hd

/-- What the scanner takes at the start of a text: one of its sorts of pieces, with what it has
found there. -/
inductive Takes (catalogue : Catalogue) (known : List String) (c : Char) (tail : List Char) :
    Piece → Prop where
  | blank (hb : isBlank c = true) : Takes catalogue known c tail ⟨none, 1⟩
  | number {value : Decimal} (hd : numberLength (c :: tail) ≠ 0)
    (hv : numberOf ((c :: tail).take (numberLength (c :: tail))) = .ok value) :
    Takes catalogue known c tail
      ⟨some (.number (String.ofList ((c :: tail).take (numberLength (c :: tail))))
        (.number value)), numberLength (c :: tail)⟩
  | lookup {name : String} {argument : List Char} {length : Nat} {value : Quantity}
    (hn : callAt? Catalogue.lookupNames (c :: tail) = some name)
    (ha : argumentAt? ((c :: tail).drop name.length) = some (argument, length))
    (hv : catalogue.lookup name (String.ofList argument) = .ok value) :
    Takes catalogue known c tail
      ⟨some (.lookup (name ++ "(" ++ String.ofList (trim argument) ++ ")") value),
        name.length + length⟩
  | function {name : String} (hn : callAt? Function.names (c :: tail) = some name) :
    Takes catalogue known c tail ⟨some (.function name), name.length⟩
  | openBracket (hc : c = '(') : Takes catalogue known c tail ⟨some .openBracket, 1⟩
  | closeBracket (hc : c = ')') : Takes catalogue known c tail ⟨some .closeBracket, 1⟩
  | operator {op : Operator} (ho : Operator.ofSign? c = some op) :
    Takes catalogue known c tail ⟨some (.operator op), 1⟩
  | word {lexeme : Lexeme} (hc : startsWord c = true)
    (hw : wordAt? known (c :: tail.takeWhile continuesWord) = some lexeme) :
    Takes catalogue known c tail ⟨some lexeme, lexeme.text.length⟩

/-- A piece at the start of a text is one that the scanner takes there. -/
theorem takes_of_pieceAt {piece : Piece}
    (h : pieceAt catalogue known source position c tail = .ok piece) :
    Takes catalogue known c tail piece := by
  simp only [pieceAt] at h
  split at h
  · next hb =>
    obtain rfl := Except.ok.inj h
    exact .blank hb
  split at h
  · next hd =>
    obtain ⟨value, hv, hp⟩ := bind_eq_ok_iff.mp h
    obtain rfl := pure_eq_ok_iff.mp hp
    exact .number hd hv
  split at h
  · next name hn =>
    split at h
    · cases h
    · next argument length ha =>
      obtain ⟨value, hv, hp⟩ := bind_eq_ok_iff.mp h
      obtain rfl := pure_eq_ok_iff.mp hp
      exact .lookup hn ha hv
  split at h
  · next name hn =>
    obtain rfl := Except.ok.inj h
    exact .function hn
  split at h
  · next hc =>
    obtain rfl := Except.ok.inj h
    exact .openBracket hc
  split at h
  · next hc =>
    obtain rfl := Except.ok.inj h
    exact .closeBracket hc
  split at h
  · next op ho =>
    obtain rfl := Except.ok.inj h
    exact .operator ho
  split at h
  · next hc =>
    split at h
    · next lexeme hw =>
      obtain rfl := Except.ok.inj h
      exact .word hc hw
    · cases h
  · cases h

/-- The piece at the start of a text is native and made of characters of the text. -/
theorem native_of_pieceAt {length : Nat}
    (h : pieceAt catalogue known source position c tail = .ok ⟨some lexeme, length⟩) :
    lexeme.Native catalogue known ∧ ∀ d ∈ lexeme.text.toList, d ∈ c :: tail := by
  cases takes_of_pieceAt h with
  | number hdigits hv =>
    refine ⟨.number (isNumeral_take hdigits) hv, fun d hd => ?_⟩
    rw [Lexeme.text, String.toList_ofList] at hd
    exact List.mem_of_mem_take hd
  | lookup hname hargument hv => exact native_lookup hname hargument hv
  | function hname =>
    obtain ⟨hn, hleads, -⟩ := of_callAt? hname
    exact ⟨.function hn, fun d hd => hleads.mem hd⟩
  | openBracket hc =>
    exact ⟨.openBracket, fun d hd => by rw [hc]; exact List.mem_append_left tail hd⟩
  | closeBracket hc =>
    exact ⟨.closeBracket, fun d hd => by rw [hc]; exact List.mem_append_left tail hd⟩
  | operator hop =>
    refine ⟨.operator hop, fun d hd => ?_⟩
    rw [Lexeme.text, (of_ofSign? hop).1] at hd
    exact List.mem_append_left tail hd
  | word hstart hw => exact native_word hstart hw

/-- Behind a function that is scanned a bracket opens. -/
theorem opensBracket_of_pieceAt {name : String} {length : Nat}
    (h : pieceAt catalogue known source position c tail = .ok ⟨some (.function name), length⟩) :
    opensBracket (tail.drop (length - 1)) = true := by
  cases takes_of_pieceAt h with
  | function hfound =>
    obtain ⟨hname, -, hopen⟩ := of_callAt? hfound
    have hpositive : ∀ name ∈ Function.names, 0 < name.length := by decide
    obtain ⟨size, hsize⟩ := Nat.exists_eq_add_one.mpr (hpositive name hname)
    rw [hsize] at hopen ⊢
    exact hopen
  | word _ hw =>
    rcases (startsWord_of_wordAt? hw).sort with ⟨other, hl⟩ | ⟨symbol, value, hl, -⟩
    · cases hl
    · cases hl

/-- Every scanned lexeme is native and made of characters of the text. -/
theorem native_of_scan {text : List Char} {tokens : List Token}
    (h : scan catalogue known source position text = .ok tokens) :
    ∀ token ∈ tokens, token.lexeme.Native catalogue known ∧
      ∀ d ∈ token.lexeme.text.toList, d ∈ text := by
  fun_induction scan catalogue known source position text generalizing tokens with
  | case1 position =>
    obtain rfl := Except.ok.inj h
    simp
  | case2 position c rest ih =>
    obtain ⟨⟨piece, length⟩, hp, h⟩ := bind_eq_ok_iff.mp h
    obtain ⟨behind, hb, h⟩ := bind_eq_ok_iff.mp h
    have hbehind : ∀ token ∈ behind, token.lexeme.Native catalogue known ∧
        ∀ d ∈ token.lexeme.text.toList, d ∈ c :: rest := by
      intro token ht
      obtain ⟨hn, hd⟩ := ih _ hb token ht
      exact ⟨hn, fun d hmem => List.mem_cons_of_mem c (List.mem_of_mem_drop (hd d hmem))⟩
    cases piece with
    | none =>
      obtain rfl := pure_eq_ok_iff.mp h
      exact hbehind
    | some lexeme =>
      obtain rfl := pure_eq_ok_iff.mp h
      exact List.forall_mem_cons.mpr ⟨native_of_pieceAt hp, hbehind⟩

/-- A text that opens a bracket is scanned to tokens that start with it. -/
theorem exists_openBracket_of_scan {text : List Char} {tokens : List Token}
    (h : scan catalogue known source position text = .ok tokens)
    (ho : opensBracket text = true) : ∃ p rest, tokens = ⟨.openBracket, p⟩ :: rest := by
  fun_induction scan catalogue known source position text generalizing tokens with
  | case1 => cases ho
  | case2 position c rest ih =>
    obtain ⟨piece, hp, h⟩ := bind_eq_ok_iff.mp h
    obtain ⟨behind, hb, h⟩ := bind_eq_ok_iff.mp h
    cases hblank : isBlank c with
    | true =>
      rw [pieceAt, if_pos hblank] at hp
      obtain rfl := Except.ok.inj hp
      obtain rfl := pure_eq_ok_iff.mp h
      have htrim : trimLeft (c :: rest) = trimLeft rest := List.dropWhile_cons_of_pos hblank
      rw [opensBracket, htrim] at ho
      exact ih _ hb ho
    | false =>
      have htrim : trimLeft (c :: rest) = c :: rest :=
        List.dropWhile_cons_of_neg (by simp [hblank])
      rw [opensBracket, htrim] at ho
      obtain rfl : c = '(' := by simpa using ho
      rw [pieceAt_of_not_word rfl rfl (by decide) (by decide), if_pos rfl] at hp
      obtain rfl := Except.ok.inj hp
      obtain rfl := pure_eq_ok_iff.mp h
      exact ⟨position, behind, rfl⟩

/-- Every function that is scanned has a bracket directly behind it. -/
theorem isChain_of_scan {text : List Char} {tokens : List Token}
    (h : scan catalogue known source position text = .ok tokens) :
    tokens.IsChain fun a b => ∀ name, a.lexeme = .function name → b.lexeme = .openBracket := by
  fun_induction scan catalogue known source position text generalizing tokens with
  | case1 position =>
    obtain rfl := Except.ok.inj h
    exact .nil
  | case2 position c rest ih =>
    obtain ⟨⟨piece, length⟩, hp, h⟩ := bind_eq_ok_iff.mp h
    obtain ⟨behind, hb, h⟩ := bind_eq_ok_iff.mp h
    cases piece with
    | none =>
      obtain rfl := pure_eq_ok_iff.mp h
      exact ih _ hb
    | some lexeme =>
      obtain rfl := pure_eq_ok_iff.mp h
      refine List.isChain_cons.mpr ⟨fun next hn name hf => ?_, ih _ hb⟩
      obtain rfl : lexeme = .function name := hf
      obtain ⟨p, others, rfl⟩ := exists_openBracket_of_scan hb (opensBracket_of_pieceAt hp)
      obtain rfl := Option.some.inj hn
      rfl

end Scanner

end UnitCalculator
