import UnitCalculator.Proofs.Expression.Scanning

/-!
# The layout of scanned text

Scanned tokens tile their text. Every round of the scanner takes a blank or the characters of one
lexeme, at least one character and none beyond the end. A lexeme is written by its own text, and a
lookup by its name and one group of brackets, with blanks between them and around the argument. So
only blanks are left out, and every token stands at its position.
-/

namespace UnitCalculator

open Text

/-- The characters by which a lexeme is written. -/
inductive Lexeme.Spans : Lexeme → List Char → Prop where
  /-- Its own text, unless it was looked up. -/
  | text {lexeme : Lexeme} (h : lexeme.isLookup = false) : Spans lexeme lexeme.text.toList
  /-- The name of a lookup, blanks and an argument in brackets. -/
  | lookup {name : String} {blanks argument : List Char} (value : Quantity)
    (hn : name ∈ Catalogue.lookupNames) (hb : ∀ c ∈ blanks, isBlank c = true)
    (ha : Scanner.depthAfter? 0 argument = some 0) :
    Spans (.lookup (name ++ "(" ++ String.ofList (trim argument) ++ ")") value)
      (name.toList ++ blanks ++ '(' :: argument ++ [')'])

namespace Scanner

/-- Tokens lie in a text that starts at a position: in front of each of them, and behind the last
one, there are only blanks. -/
inductive Layout : Nat → List Char → List Token → Prop where
  | blanks {position : Nat} {gap : List Char} (hg : ∀ c ∈ gap, isBlank c = true) :
    Layout position gap []
  | token {position : Nat} {gap span rest : List Char} {lexeme : Lexeme} {tokens : List Token}
    (hg : ∀ c ∈ gap, isBlank c = true) (hs : lexeme.Spans span) (hne : span ≠ [])
    (h : Layout (position + gap.length + span.length) rest tokens) :
    Layout position (gap ++ span ++ rest) (⟨lexeme, position + gap.length⟩ :: tokens)

/-- The characters that a piece of a text takes: a blank, or those of its lexeme. -/
structure Piece.Spans (piece : Piece) (span : List Char) : Prop where
  length : span.length = piece.length
  ne_nil : span ≠ []
  blank : piece.lexeme = none → ∀ c ∈ span, isBlank c = true
  lexeme : ∀ lexeme, piece.lexeme = some lexeme → lexeme.Spans span

namespace Layout

variable {position : Nat} {text : List Char} {tokens : List Token}

/-- Blanks in front of a text belong to its first gap. -/
theorem after_blanks {blanks : List Char} (hb : ∀ c ∈ blanks, isBlank c = true)
    (h : Layout (position + blanks.length) text tokens) :
    Layout position (blanks ++ text) tokens := by
  have hgap : ∀ gap, (∀ c ∈ gap, isBlank c = true) → ∀ c ∈ blanks ++ gap, isBlank c = true :=
    fun gap hg c hc => (List.mem_append.mp hc).elim (hb c) (hg c)
  cases h with
  | blanks hg => exact .blanks (hgap _ hg)
  | @token _ gap span rest lexeme tokens hg hs hne h =>
    have hplace : position + blanks.length + gap.length = position + (blanks ++ gap).length := by
      rw [List.length_append, Nat.add_assoc]
    rw [hplace] at h ⊢
    rw [← List.append_assoc, ← List.append_assoc]
    exact .token (hgap _ hg) hs hne h

/-- A piece in front of a text comes first in its layout. -/
theorem after_piece {piece : Piece} {span : List Char} (hs : piece.Spans span)
    (h : Layout (position + piece.length) text tokens) :
    Layout position (span ++ text) (match piece.lexeme with
      | none => tokens
      | some lexeme => ⟨lexeme, position⟩ :: tokens) := by
  rw [← hs.length] at h
  cases hl : piece.lexeme with
  | none => exact after_blanks (hs.blank hl) h
  | some lexeme =>
    have htoken : Layout position ([] ++ span ++ text)
        (⟨lexeme, position + ([] : List Char).length⟩ :: tokens) :=
      .token (by simp) (hs.lexeme lexeme hl) hs.ne_nil h
    exact htoken

/-- Every token stands behind the characters of those before it. -/
theorem increasing (h : Layout position text tokens) :
    tokens.Pairwise (·.position < ·.position) ∧ ∀ token ∈ tokens, position ≤ token.position := by
  induction h with
  | blanks hg => simp
  | @token position gap span rest lexeme tokens hg hs hne h ih =>
    obtain ⟨hordered, hbehind⟩ := ih
    have hspan := List.length_pos_iff.mpr hne
    have hlater : ∀ next ∈ tokens, position + gap.length < next.position := fun next hn => by
      have := hbehind next hn
      omega
    refine ⟨List.pairwise_cons.mpr ⟨hlater, hordered⟩,
      List.forall_mem_cons.mpr ⟨Nat.le_add_right .., fun next hn => ?_⟩⟩
    exact (Nat.le_add_right ..).trans (hlater next hn).le

/-- The text of a token that was not looked up stands at its position. -/
theorem slice (h : Layout position text tokens) {token : Token} (ht : token ∈ tokens)
    (hl : token.lexeme.isLookup = false) :
    token.lexeme.text.toList <+: text.drop (token.position - position) := by
  induction h with
  | blanks hg => cases ht
  | @token position gap span rest lexeme tokens hg hs hne h ih =>
    cases ht with
    | head =>
      rw [Nat.add_sub_cancel_left, List.append_assoc, List.drop_left]
      cases hs with
      | text => exact List.prefix_append ..
      | lookup => cases hl
    | tail _ ht =>
      have hplace := h.increasing.2 token ht
      have hsame : token.position - position = (gap ++ span).length +
          (token.position - (position + gap.length + span.length)) := by
        rw [List.length_append]
        omega
      rw [hsame, ← List.drop_drop, List.drop_left]
      exact ih ht

end Layout

section

variable {catalogue : Catalogue} {known : List String} {source : String} {position : Nat}
variable {c : Char} {rest : List Char} {piece : Piece}

/-- A piece takes the text of a lexeme that is not looked up. -/
theorem spans_text {lexeme : Lexeme} {span : List Char} {length : Nat}
    (ht : lexeme.text.toList = span) (hne : span ≠ []) (hl : span.length = length)
    (hlookup : lexeme.isLookup = false) : (Piece.mk (some lexeme) length).Spans span := by
  refine ⟨hl, hne, nofun, fun other ho => ?_⟩
  obtain rfl := Option.some.inj ho
  exact ht ▸ .text hlookup

/-- The argument of a lookup stands in the brackets behind some blanks. -/
theorem exists_of_argumentAt? {text argument : List Char} {length : Nat}
    (ho : opensBracket text = true) (h : argumentAt? text = some (argument, length)) :
    ∃ blanks behind, text = blanks ++ '(' :: argument ++ [')'] ++ behind ∧
      (∀ d ∈ blanks, isBlank d = true) ∧ depthAfter? 0 argument = some 0 ∧
      length = blanks.length + argument.length + 2 := by
  obtain ⟨found, hf, he⟩ := Option.map_eq_some_iff.mp h
  obtain ⟨rfl, rfl⟩ := Prod.mk.inj he
  have hhead : (trimLeft text).head? = some '(' := of_decide_eq_true ho
  obtain ⟨after, hafter⟩ := List.head?_eq_some_iff.mp hhead
  have hsplit : text = text.takeWhile isBlank ++ '(' :: after := by
    rw [← hafter]
    exact List.takeWhile_append_dropWhile.symm
  have hdrop : text.drop ((text.takeWhile isBlank).length + 1) = after := by
    generalize text.takeWhile isBlank = blanks at hsplit
    rw [hsplit, List.drop_append, List.drop_eq_nil_of_le (by omega)]
    simp
  rw [hdrop] at hf
  obtain ⟨hd, behind, rfl⟩ := of_untilClosed? hf
  exact ⟨text.takeWhile isBlank, behind, by simpa using hsplit,
    fun d hd => List.mem_takeWhile_imp hd, hd, rfl⟩

/-- A lookup takes its name, blanks and its argument in brackets. -/
theorem exists_span_lookup {text argument : List Char} {name : String} {length : Nat}
    (hname : callAt? Catalogue.lookupNames text = some name)
    (hargument : argumentAt? (text.drop name.length) = some (argument, length))
    (value : Quantity) :
    ∃ span behind, text = span ++ behind ∧
      (Piece.mk (some (.lookup (name ++ "(" ++ String.ofList (trim argument) ++ ")") value))
        (name.length + length)).Spans span := by
  obtain ⟨hn, ⟨after, rfl⟩, hopen⟩ := of_callAt? hname
  rw [← String.length_toList, List.drop_left] at hopen hargument
  obtain ⟨blanks, behind, rfl, hb, hd, rfl⟩ := exists_of_argumentAt? hopen hargument
  refine ⟨name.toList ++ blanks ++ '(' :: argument ++ [')'], behind, by simp, ?_, by simp,
    nofun, fun lexeme hl => ?_⟩
  · simp only [List.length_append, List.length_cons, List.length_nil, String.length_toList]
    omega
  · obtain rfl := Option.some.inj hl
    exact .lookup value hn hb hd

/-- The piece at the start of a text takes characters of the text, at least one. -/
theorem exists_span (h : pieceAt catalogue known source position c rest = .ok piece) :
    ∃ span behind, c :: rest = span ++ behind ∧ piece.Spans span := by
  cases takes_of_pieceAt h with
  | blank hblank =>
    exact ⟨[c], rest, rfl, rfl, by simp, fun _ d hd => List.mem_singleton.mp hd ▸ hblank,
      fun lexeme hl => by cases hl⟩
  | number hdigits =>
    exact ⟨_, _, (List.take_append_drop (numberLength (c :: rest)) (c :: rest)).symm,
      spans_text (String.toList_ofList ..) (isNumeral_take hdigits).ne_nil
        (List.length_take_of_le (numberLength_le _)) rfl⟩
  | @lookup name argument length value hname hargument =>
    exact exists_span_lookup hname hargument value
  | @function name hname =>
    obtain ⟨hn, ⟨behind, hbehind⟩, -⟩ := of_callAt? hname
    have hpositive : ∀ name ∈ Function.names, name.toList ≠ [] := by decide
    exact ⟨name.toList, behind, hbehind.symm,
      spans_text rfl (hpositive name hn) (String.length_toList ..) rfl⟩
  | openBracket hc => exact ⟨[c], rest, rfl, spans_text (by rw [hc]; rfl) (by simp) rfl rfl⟩
  | closeBracket hc => exact ⟨[c], rest, rfl, spans_text (by rw [hc]; rfl) (by simp) rfl rfl⟩
  | operator hop =>
    exact ⟨[c], rest, rfl, spans_text (by rw [Lexeme.text, (of_ofSign? hop).1]) (by simp)
      rfl rfl⟩
  | @word lexeme _ hw =>
    have hword := startsWord_of_wordAt? hw
    obtain ⟨behind, hbehind⟩ := hword.start.trans
      (List.cons_prefix_cons.mpr ⟨rfl, List.takeWhile_prefix continuesWord (l := rest)⟩)
    have hlookup : lexeme.isLookup = false := by
      rcases hword.sort with ⟨name, rfl⟩ | ⟨symbol, value, rfl, -⟩
      · rfl
      · rfl
    exact ⟨lexeme.text.toList, behind, hbehind.symm,
      spans_text rfl hword.nonempty (String.length_toList ..) hlookup⟩

/-- A round of the scanner takes at least one character and none beyond the end of the text. -/
theorem pieceAt_length (h : pieceAt catalogue known source position c rest = .ok piece) :
    0 < piece.length ∧ piece.length ≤ (c :: rest).length := by
  obtain ⟨span, behind, hspan, hs⟩ := exists_span h
  rw [hspan, List.length_append, ← hs.length]
  exact ⟨List.length_pos_iff.mpr hs.ne_nil, Nat.le_add_right ..⟩

/-- Behind the characters of a piece the text goes on. -/
theorem Piece.Spans.drop_eq {span behind : List Char} (hs : piece.Spans span)
    (h : c :: rest = span ++ behind) : rest.drop (piece.length - 1) = behind := by
  obtain ⟨first, span, rfl⟩ := List.exists_cons_of_ne_nil hs.ne_nil
  rw [(List.cons.inj h).2, ← hs.length, List.length_cons, Nat.add_sub_cancel]
  exact List.drop_left

/-- Scanned tokens lie in their text. -/
theorem layout_of_scan {text : List Char} {tokens : List Token}
    (h : scan catalogue known source position text = .ok tokens) :
    Layout position text tokens := by
  fun_induction scan catalogue known source position text generalizing tokens with
  | case1 position =>
    obtain rfl := Except.ok.inj h
    exact .blanks (by simp)
  | case2 position c rest ih =>
    obtain ⟨piece, hp, h⟩ := bind_eq_ok_iff.mp h
    obtain ⟨behind, hb, h⟩ := bind_eq_ok_iff.mp h
    obtain ⟨span, after, hspan, hs⟩ := exists_span hp
    have hlayout := ih piece hb
    rw [hs.drop_eq hspan] at hlayout
    have htokens : tokens = match piece.lexeme with
        | none => behind
        | some lexeme => ⟨lexeme, position⟩ :: behind := by
      cases hl : piece.lexeme with
      | none =>
        rw [hl] at h
        exact (pure_eq_ok_iff.mp h).symm
      | some lexeme =>
        rw [hl] at h
        exact (pure_eq_ok_iff.mp h).symm
    rw [hspan, htokens]
    exact .after_piece hs hlayout

end

end Scanner

end UnitCalculator
