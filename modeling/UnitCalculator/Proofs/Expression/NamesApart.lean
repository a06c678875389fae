import UnitCalculator.Proofs.Expression.Marking
import UnitCalculator.Proofs.Expression.Reading
import UnitCalculator.Proofs.Expression.Rendering

/-!
# Names that stand apart

A variable that is written like a function is read as a call if a bracket follows. The text of a
tree in which this happens is never read as a tree alike, since trees that are alike call the same
functions and read the same variables.
-/

namespace UnitCalculator

/-- Marks what is called, and variables with the opposite. -/
def Lexeme.called? : Lexeme → Option Bool
  | .reference _ => some false
  | .function _ | .lookup .. => some true
  | _ => none

/-- Changing the sign of a number calls nothing else. -/
theorem Lexeme.called?_of_negated? {number negated : Lexeme}
    (h : number.negated? = some (.ok negated)) : negated.called? = number.called? := by
  cases number with
  | number text value =>
    obtain ⟨opposite, -, hl⟩ := bind_eq_ok_iff.mp (Option.some.inj h)
    obtain rfl := pure_eq_ok_iff.mp hl
    rfl
  | lookup text value =>
    obtain ⟨opposite, -, hl⟩ := bind_eq_ok_iff.mp (Option.some.inj h)
    obtain rfl := pure_eq_ok_iff.mp hl
    rfl
  | _ => cases h

/-- Folding signs calls nothing else. -/
theorem Folds.marks_called {previous : Option Lexeme} {raw folded : List Token}
    (h : Folds previous raw folded) :
    Token.marks Lexeme.called? folded = Token.marks Lexeme.called? raw := by
  have hsign : Lexeme.called? (.operator .subtract) = none := rfl
  have hfactor : Lexeme.called? .negation = none := rfl
  have hopen : Lexeme.called? .openBracket = none := rfl
  have hclose : Lexeme.called? .closeBracket = none := rfl
  induction h with
  | nil previous => rfl
  | keep hs h ih => simp [ih]
  | number p hs hn h ih => simp [ih, hsign, Lexeme.called?_of_negated? hn]
  | factor p hs hp ho h ih => simpa [hsign, hfactor] using ih
  | @group operand rest first second folded behind p ho hs h hb ih ihb =>
    have happend := Token.splitOperand_append (operand :: rest)
    rw [hs] at happend
    simp only [Token.marks_cons, Token.marks_append, List.cons_append, hsign, hfactor, hopen,
      hclose, Option.toList_none, List.nil_append, ih, ihb]
    rw [← Token.marks_append, happend, Token.marks_cons]

namespace Tree

/-- Trees that are alike call the same functions and read the same variables. -/
theorem Alike.marks_called {tree other : Tree} (h : tree.Alike other) :
    other.marks Lexeme.called? = tree.marks Lexeme.called? := by
  have hfactor : Lexeme.called? .negation = none := rfl
  have hoperator : ∀ op, Lexeme.called? (.operator op) = none := fun op => rfl
  induction h with
  | leaf lexeme p q => simp [marks, tokens]
  | sign p q r s h =>
    simp [marks, tokens, hfactor, hoperator, Lexeme.called?_of_negated? h]
  | call name p q h ih => simp_all [marks, tokens]
  | binary p q hop hl hr ihl ihr => simp_all [marks, tokens]
  | quotient p q hl hr ihl ihr => simp_all [marks, tokens]
  | assignment name p q p' q' h ih => simp_all [marks, tokens]

variable {catalogue : Catalogue} {known : List String} {source : String} {native : Lexeme → Prop}
variable {rest : List Char} {lexemes : List Lexeme} {tree : Tree}

/-- Brackets call nothing. -/
theorem called_bracketedLexemes (needed : Bool) (lexemes : List Lexeme) :
    (bracketedLexemes needed lexemes).filterMap Lexeme.called? =
      lexemes.filterMap Lexeme.called? := by
  cases needed with
  | false => rfl
  | true => simp [bracketedLexemes, Lexeme.called?, List.filterMap_cons]

/-- A tree calls what its lexemes call. -/
theorem WrittenAs.marks_called (h : tree.WrittenAs native lexemes) :
    tree.marks Lexeme.called? = lexemes.filterMap Lexeme.called? := by
  have hfactor : Lexeme.called? .negation = none := rfl
  have hoperator : ∀ op, Lexeme.called? (.operator op) = none := fun op => rfl
  induction h with
  | leaf p hs h => simp [marks, tokens, Token.marks]
  | signed p h hneg =>
    simp [marks, tokens, Token.marks, List.filterMap_cons, hoperator,
      Lexeme.called?_of_negated? hneg]
  | call p hn h ih =>
    simp_all [marks, tokens, Token.marks, List.filterMap_cons, Lexeme.called?]
  | negation p q h ih =>
    simp_all [marks, tokens, called_bracketedLexemes]
  | @binary op left right first second p hop hl hr hu ihl ihr =>
    have hwritten : op.written.filterMap Lexeme.called? = [] := by cases op <;> rfl
    simp_all [marks, tokens, called_bracketedLexemes]

end Tree

namespace Scanner

open Text

variable {catalogue : Catalogue} {known : List String} {source : String} {position : Nat}
variable {text rest first second tail : List Char} {before behind lexemes : List Lexeme} {c : Char}

/-- A text is scanned, if at all, to lexemes with a call in place of a variable among the given
ones, and with the same calls and variables before it. -/
def Strays (catalogue : Catalogue) (known : List String) (source : String) (text rest : List Char)
    (lexemes : List Lexeme) : Prop :=
  ∀ position all, Scans catalogue known source position (text ++ rest) all →
    ∃ before behind others, lexemes.filterMap Lexeme.called? = before ++ false :: behind ∧
      all.filterMap Lexeme.called? = before ++ true :: others

/-- A text with a call in place of a variable is not scanned to the lexemes with the variable. -/
theorem Strays.ne {all : List Lexeme} (h : Strays catalogue known source text [] lexemes)
    (hs : Scans catalogue known source position text all) :
    all.filterMap Lexeme.called? ≠ lexemes.filterMap Lexeme.called? := by
  rw [← List.append_nil text] at hs
  obtain ⟨before, behind, others, hl, ha⟩ := h position all hs
  rw [hl, ha]
  intro he
  cases (List.cons.inj (List.append_cancel_left he)).1

/-- A call in place of a variable in the first of two texts. -/
theorem Strays.append_right (h : Strays catalogue known source first (second ++ rest) before)
    (behind : List Lexeme) :
    Strays catalogue known source (first ++ second) rest (before ++ behind) := by
  intro position all hs
  rw [List.append_assoc] at hs
  obtain ⟨start, more, others, hl, ha⟩ := h position all hs
  exact ⟨start, more ++ behind.filterMap Lexeme.called?, others,
    by rw [List.filterMap_append, hl, List.append_assoc, List.cons_append], ha⟩

/-- A call in place of a variable in the second of two texts. -/
theorem Strays.append_left (hf : Passes catalogue known source first (second ++ rest) before)
    (h : Strays catalogue known source second rest behind) :
    Strays catalogue known source (first ++ second) rest (before ++ behind) := by
  intro position all hs
  obtain ⟨next, hnext⟩ := hf position
  rw [List.append_assoc] at hs
  obtain ⟨found, rfl, hfound⟩ := (hnext all).mp hs
  obtain ⟨start, more, others, hl, ha⟩ := h next found hfound
  exact ⟨before.filterMap Lexeme.called? ++ start, more, others,
    by rw [List.filterMap_append, hl, List.append_assoc],
    by rw [List.filterMap_append, ha, List.append_assoc]⟩

/-- A variable that is written like a function or a lookup is called before a bracket. -/
theorem called?_of_pieceAt {name : String} {piece : Piece}
    (hn : (Lexeme.reference name).isCallable = true) (hr : Ends continuesWord rest)
    (ho : opensBracket rest = true) (ht : name.toList ++ rest = c :: tail)
    (h : pieceAt catalogue known source position c tail = .ok piece) :
    ∃ lexeme, piece.lexeme = some lexeme ∧ lexeme.called? = some true := by
  have hnames : Function.names.contains name = true ∨ Catalogue.lookupNames.contains name = true :=
    (Bool.or_eq_true _ _).mp hn
  have hmem : name ∈ Function.names ++ Catalogue.lookupNames := by
    simpa using hnames
  obtain ⟨hb, hdigit, hp, -⟩ := of_startsWord (startsWord_of_callable hmem ht)
  have hn0 : numberLength (c :: tail) = 0 := numberLength_eq_zero hdigit hp tail
  have hword := continuesWord_of_callable hmem
  have hlookup : callAt? Catalogue.lookupNames (name.toList ++ rest) =
      if opensBracket rest && Catalogue.lookupNames.contains name then some name else none :=
    callAt?_name (fun other ho => List.mem_append_right _ ho) hword hr
  have hfunction : callAt? Function.names (name.toList ++ rest) =
      if opensBracket rest && Function.names.contains name then some name else none :=
    callAt?_name (fun other ho => List.mem_append_left _ ho) hword hr
  rw [ht, ho, Bool.true_and] at hlookup hfunction
  cases hcall : callAt? Catalogue.lookupNames (c :: tail) with
  | some other =>
    cases hargument : argumentAt? ((c :: tail).drop other.length) with
    | none =>
      simp only [pieceAt, hn0, hb, hcall, hargument, Bool.false_eq_true, if_false, ne_eq,
        not_true_eq_false] at h
      cases h
    | some found =>
      simp only [pieceAt, hn0, hb, hcall, hargument, Bool.false_eq_true, if_false, ne_eq,
        not_true_eq_false] at h
      obtain ⟨value, -, hpiece⟩ := bind_eq_ok_iff.mp h
      obtain rfl := pure_eq_ok_iff.mp hpiece
      exact ⟨_, rfl, rfl⟩
  | none =>
    have hnot : Catalogue.lookupNames.contains name = false := by
      rw [hcall] at hlookup
      by_contra hcontains
      rw [Bool.not_eq_false] at hcontains
      rw [hcontains] at hlookup
      cases hlookup
    rw [hnot] at hnames
    rw [hnames.resolve_right (by decide)] at hfunction
    simp only [pieceAt, hn0, hb, hcall, hfunction, Bool.false_eq_true, if_false, ne_eq,
      not_true_eq_false] at h
    obtain rfl := Except.ok.inj h
    exact ⟨_, rfl, rfl⟩

/-- A variable that is written like a function or a lookup strays before a bracket. -/
theorem Strays.reference {name : String} (hn : (Lexeme.reference name).isCallable = true)
    (hr : Ends continuesWord rest) (ho : opensBracket rest = true) :
    Strays catalogue known source name.toList rest [.reference name] := by
  rintro position _ ⟨tokens, hs, rfl⟩
  cases ht : name.toList ++ rest with
  | nil =>
    obtain ⟨-, rfl⟩ := List.append_eq_nil_iff.mp ht
    cases ho
  | cons c tail =>
    rw [ht, scan] at hs
    obtain ⟨piece, hpiece, hs⟩ := bind_eq_ok_iff.mp hs
    obtain ⟨others, -, hs⟩ := bind_eq_ok_iff.mp hs
    obtain ⟨lexeme, hl, hcalled⟩ := called?_of_pieceAt hn hr ho ht hpiece
    rw [hl] at hs
    obtain rfl := pure_eq_ok_iff.mp hs
    exact ⟨[], [], _, rfl, by rw [List.map_cons, List.filterMap_cons, hcalled]; rfl⟩

end Scanner

namespace Tree

open Scanner Text

variable {catalogue : Catalogue} {known : List String} {source : String} {native : Lexeme → Prop}
variable {rest : List Char} {lexemes : List Lexeme} {tree left right : Tree} {op : Operator}

/-- What strays in brackets strays with them. -/
theorem strays_bracketed {needed : Bool} {text : String}
    (hf : needed = false → Strays catalogue known source text.toList rest lexemes)
    (ht : needed = true → Strays catalogue known source text.toList (')' :: rest) lexemes) :
    Strays catalogue known source (bracketed needed text).toList rest
      (bracketedLexemes needed lexemes) := by
  cases needed with
  | false => exact hf rfl
  | true =>
    have hopen : Passes catalogue known source ['('] (text.toList ++ [')'] ++ rest)
        [.openBracket] := .native .openBracket trivial
    have hinner : Strays catalogue known source (text.toList ++ [')']) rest
        (lexemes ++ [.closeBracket]) := (ht rfl).append_right _
    have hwhole := hinner.append_left hopen
    simpa [bracketed, bracketedLexemes, String.toList_append] using hwhole

/-- The characters of a text in brackets. -/
theorem toList_bracketed (text : String) :
    (bracketed true text).toList = '(' :: (text.toList ++ [')']) := by
  simp [bracketed, String.toList_append]

/-- An operand strays if its names do not stand apart, or if a bracket follows a name that no
bracket closes. -/
theorem strays_operand {needed : Bool}
    (h : ∀ rest, tree.Follows rest → (tree.every namesApart = false ∨
      (tree.last.isCallable = true ∧ opensBracket rest = true)) →
        Strays catalogue known source tree.text.toList rest lexemes)
    (hr : needed = false → tree.Follows rest)
    (hc : tree.every namesApart = false ∨
      ((if needed then .closeBracket else tree.last : Lexeme).isCallable = true ∧
        opensBracket rest = true)) :
    Strays catalogue known source (bracketed needed tree.text).toList rest
      (bracketedLexemes needed lexemes) := by
  refine strays_bracketed (fun hn => h rest (hr hn) ?_) fun hn =>
    h _ (follows_separator tree (by decide)) (.inl ?_)
  · rwa [hn, if_neg (by decide)] at hc
  · rcases hc with hc | ⟨hc, -⟩
    · exact hc
    · rw [hn] at hc
      cases hc

/-- The text of a tree starts with a bracket if its first lexeme is one. -/
theorem WrittenAs.exists_bracket (h : tree.WrittenAs native lexemes)
    (hn : ∀ lexeme, native lexeme → lexeme.Native catalogue known)
    (hf : tree.first = .openBracket) : ∃ tail, tree.text.toList = '(' :: tail := by
  induction h with
  | @leaf lexeme p hs h =>
    obtain rfl : lexeme = .openBracket := hf
    cases hs
  | @signed number negated p h hneg =>
    obtain rfl : negated = .openBracket := hf
    cases (Lexeme.text_of_negated? hneg).2
  | call p h hw ih => cases hf
  | negation p q h ih => cases hf
  | @binary op left right first second p hop hl hr hu ihl ihr =>
    rw [text_binary hop (hl.isNegation hn), String.append_assoc, String.toList_append]
    cases hb : leftNeedsBrackets op left with
    | true => exact ⟨_, by rw [toList_bracketed, List.cons_append]⟩
    | false =>
      rw [Tree.first, hb, if_neg (by decide)] at hf
      obtain ⟨tail, ht⟩ := ihl hf
      exact ⟨_, by rw [bracketed, if_neg (by decide), ht, List.cons_append]⟩

/-- A bracket follows a variable of a product where names do not stand apart. -/
theorem opensBracket_of_namesApart (hr : right.WrittenAs native lexemes)
    (hn : ∀ lexeme, native lexeme → lexeme.Native catalogue known)
    (ha : namesApart op left right = false) (rest : List Char) :
    leftNeedsBrackets op left = false ∧ left.last.isCallable = true ∧
      opensBracket ((joint op left right).toList ++
        ((bracketed (rightNeedsBrackets op right) right.text).toList ++ rest)) = true := by
  obtain ⟨⟨hop, hc⟩, ho⟩ : (op = .impliedMultiply ∧ (leftLast op left).isCallable = true) ∧
      rightFirst op right = .openBracket := by
    simpa [namesApart] using ha
  subst hop
  have hneeds : leftNeedsBrackets .impliedMultiply left = false := by
    by_contra hneeds
    rw [Bool.not_eq_false] at hneeds
    rw [leftLast, hneeds] at hc
    cases hc
  rw [leftLast, hneeds, if_neg (by decide)] at hc
  refine ⟨hneeds, hc, ?_⟩
  have hnumber : left.isNumber = false := by
    cases left with
    | leaf token =>
      rcases token with ⟨lexeme, p⟩
      cases lexeme <;> first | rfl | cases hc
    | _ => rfl
  have hopen : ∃ tail, (bracketed (rightNeedsBrackets .impliedMultiply right) right.text).toList =
      '(' :: tail := by
    cases hb : rightNeedsBrackets .impliedMultiply right with
    | true => exact ⟨_, toList_bracketed right.text⟩
    | false =>
      rw [rightFirst, hb, if_neg (by decide)] at ho
      exact hr.exists_bracket hn ho
  obtain ⟨tail, ht⟩ := hopen
  rw [joint, hnumber, Bool.false_and, if_neg (by decide), ht]
  rfl

/-- What is written strays where names do not stand apart, or where a bracket follows a name. -/
theorem WrittenAs.strays (h : tree.WrittenAs native lexemes)
    (hn : ∀ lexeme, native lexeme → lexeme.Native catalogue known) (hr : tree.Follows rest)
    (hc : tree.every namesApart = false ∨
      (tree.last.isCallable = true ∧ opensBracket rest = true)) :
    Strays catalogue known source tree.text.toList rest lexemes := by
  induction h generalizing rest with
  | @leaf lexeme p hs h =>
    rcases hc with hc | ⟨hc, ho⟩
    · cases hc
    · cases lexeme with
      | reference name => exact .reference hc (hr.word rfl) ho
      | _ => cases hc
  | @signed number negated p h hneg =>
    have hnumber := (Lexeme.text_of_negated? hneg).2
    rcases hc with hc | ⟨hc, ho⟩
    · cases hc
    · cases negated with
      | reference name => cases hnumber
      | _ => cases hc
  | @call name operand lexemes p h hw ih =>
    have hfalse : operand.every namesApart = false := by
      rcases hc with hc | ⟨hc, ho⟩
      · exact hc
      · cases hc
    have hgroup : Strays catalogue known source (bracketed true operand.text).toList rest
        (bracketedLexemes true lexemes) :=
      strays_bracketed (fun he => by cases he) fun _ =>
        ih (follows_separator operand (by decide)) (.inl hfalse)
    have hname : Passes catalogue known source name.toList
        ((bracketed true operand.text).toList ++ rest) [.function name] :=
      .native (hn _ h) (by simp [Lexeme.CanPrecede, bracketed, String.toList_append])
    have hwhole := hgroup.append_left hname
    simpa [text, bracketed, bracketedLexemes, String.toList_append] using hwhole
  | @negation right lexemes p q h ih =>
    have hsign : Operator.ofSign? '-' = some .subtract := rfl
    have hfactor : namesApart .impliedMultiply (.leaf ⟨.negation, q⟩) right = true := rfl
    have hinner : right.every namesApart = false ∨
        ((Tree.binary .impliedMultiply p (.leaf ⟨.negation, q⟩) right).last.isCallable = true ∧
          opensBracket rest = true) := by
      simpa [every, hfactor] using hc
    have hright : Strays catalogue known source
        (bracketed (rightNeedsBrackets .impliedMultiply right) right.text).toList rest
        (bracketedLexemes (rightNeedsBrackets .impliedMultiply right) lexemes) :=
      strays_operand (fun _ hf hb => ih hf hb) (fun _ => ⟨hr.numeral, fun _ => hr.word rfl⟩) hinner
    rw [text_negation, String.toList_append]
    exact hright.append_left (passes_sign hsign)
  | @binary op left right first second p hop hleft hright hu ihl ihr =>
    have hfollows : left.Follows ((joint op left right).toList ++
        ((bracketed (rightNeedsBrackets op right) right.text).toList ++ rest)) :=
      follows_joint hright hn rest
    rw [text_binary hop (hleft.isNegation hn), String.toList_append, String.toList_append]
    by_cases hstray : left.every namesApart = false ∨ ((leftLast op left).isCallable = true ∧
        opensBracket ((joint op left right).toList ++
          ((bracketed (rightNeedsBrackets op right) right.text).toList ++ rest)) = true)
    · have hfirst : Strays catalogue known source
          (bracketed (leftNeedsBrackets op left) left.text).toList _
          (bracketedLexemes (leftNeedsBrackets op left) first) :=
        strays_operand (fun _ hf hb => ihl hf hb) (fun _ => hfollows) hstray
      exact (hfirst.append_right _).append_right _
    · obtain ⟨hevery, hopen⟩ := not_or.mp hstray
      rw [Bool.not_eq_false] at hevery
      have hapart : namesApart op left right = true := by
        by_contra hapart
        rw [Bool.not_eq_true] at hapart
        obtain ⟨hneeds, hcall, hopens⟩ := opensBracket_of_namesApart hright hn hapart rest
        refine hopen ⟨?_, hopens⟩
        rw [leftLast, hneeds]
        exact hcall
      have hfirst : Passes catalogue known source
          (bracketed (leftNeedsBrackets op left) left.text).toList _
          (bracketedLexemes (leftNeedsBrackets op left) first) :=
        passes_operand (fun _ hf hb => hleft.passes hn hevery hf hb) (fun _ => hfollows)
          fun hneeds hcall => opensBracket_joint hright hn hop hneeds hcall hapart rest
      have hinner : right.every namesApart = false ∨
          ((Tree.binary op p left right).last.isCallable = true ∧ opensBracket rest = true) := by
        simpa [every, hevery, hapart] using hc
      have hsecond : Strays catalogue known source
          (bracketed (rightNeedsBrackets op right) right.text).toList rest
          (bracketedLexemes (rightNeedsBrackets op right) second) :=
        strays_operand (fun _ hf hb => ihr hf hb) (fun _ => ⟨hr.numeral, fun _ => hr.word rfl⟩)
          hinner
      exact hsecond.append_left (hfirst.append (passes_joint hop left right))

/-- Names stand apart if the text of a tree is read as a tree alike. -/
theorem WrittenAs.namesApart_of_reads {other : Tree} {position : Nat} {previous : Option Lexeme}
    (h : tree.WrittenAs native lexemes)
    (hn : ∀ lexeme, native lexeme → lexeme.Native catalogue known)
    (hr : other.Reads catalogue known source position previous tree.text.toList)
    (ha : tree.Alike other) : tree.every namesApart = true := by
  by_contra hapart
  rw [Bool.not_eq_true] at hapart
  obtain ⟨raw, folded, hs, hf, hspells⟩ := hr
  have hstrays : Strays catalogue known source tree.text.toList [] lexemes :=
    h.strays hn (follows_nil tree) (.inl hapart)
  refine hstrays.ne ⟨raw, hs, rfl⟩ ?_
  calc (raw.map (·.lexeme)).filterMap Lexeme.called?
      = Token.marks Lexeme.called? folded := hf.marks_called.symm
    _ = Token.marks Lexeme.called? (insertImplied previous folded) :=
        (marks_insertImplied rfl rfl previous folded).symm
    _ = other.marks Lexeme.called? := (hspells.marks_eq rfl rfl).symm
    _ = tree.marks Lexeme.called? := ha.marks_called
    _ = lexemes.filterMap Lexeme.called? := h.marks_called

end Tree

end UnitCalculator
