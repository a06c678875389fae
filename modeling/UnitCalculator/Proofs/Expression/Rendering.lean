import UnitCalculator.Proofs.Expression.Writing

/-!
# Scanning the text of a tree

The text of a tree is scanned to the lexemes it is written with, in front of everything that neither
continues its last lexeme nor turns a name into a call.
-/

namespace UnitCalculator

namespace Scanner

open Text

variable {catalogue : Catalogue} {known : List String} {source : String} {position : Nat}
variable {text rest first second : List Char} {lexemes before behind : List Lexeme}

/-- A text is scanned to tokens with some lexemes. -/
def Scans (catalogue : Catalogue) (known : List String) (source : String) (position : Nat)
    (text : List Char) (lexemes : List Lexeme) : Prop :=
  ∃ tokens, scan catalogue known source position text = .ok tokens ∧
    tokens.map (·.lexeme) = lexemes

/-- A text is scanned to some lexemes in front of another text, which is scanned as if it stood
alone. -/
def Passes (catalogue : Catalogue) (known : List String) (source : String) (text rest : List Char)
    (lexemes : List Lexeme) : Prop :=
  ∀ position, ∃ next, ∀ all, Scans catalogue known source position (text ++ rest) all ↔
    ∃ behind, all = lexemes ++ behind ∧ Scans catalogue known source next rest behind

/-- An empty text has no lexemes. -/
theorem Passes.nil : Passes catalogue known source [] rest [] := fun position =>
  ⟨position, fun all => by simp⟩

/-- Texts are scanned one after the other. -/
theorem Passes.append (hf : Passes catalogue known source first (second ++ rest) before)
    (hs : Passes catalogue known source second rest behind) :
    Passes catalogue known source (first ++ second) rest (before ++ behind) := by
  intro position
  obtain ⟨middle, hmiddle⟩ := hf position
  obtain ⟨next, hnext⟩ := hs middle
  refine ⟨next, fun all => ?_⟩
  rw [List.append_assoc, hmiddle]
  constructor
  · rintro ⟨more, rfl, hm⟩
    obtain ⟨others, rfl, ho⟩ := (hnext more).mp hm
    exact ⟨others, by rw [List.append_assoc], ho⟩
  · rintro ⟨others, rfl, ho⟩
    exact ⟨behind ++ others, by rw [List.append_assoc], (hnext _).mpr ⟨others, rfl, ho⟩⟩

/-- A space is passed over. -/
theorem Passes.space : Passes catalogue known source [' '] rest [] := fun position =>
  ⟨position + 1, fun all => by simp [Scans, scan_space]⟩

/-- A native lexeme is scanned from its text where that may go on as it does. -/
theorem Passes.native {lexeme : Lexeme} (h : lexeme.Native catalogue known)
    (hp : lexeme.CanPrecede rest) :
    Passes catalogue known source lexeme.text.toList rest [lexeme] := by
  intro position
  refine ⟨position + lexeme.text.length, fun all => ?_⟩
  simp only [Scans, scan_native h hp]
  constructor
  · rintro ⟨tokens, ht, rfl⟩
    obtain ⟨behind, hb, rfl⟩ := map_eq_ok_iff.mp ht
    exact ⟨behind.map (·.lexeme), rfl, behind, hb, rfl⟩
  · rintro ⟨_, rfl, behind, hb, rfl⟩
    exact ⟨_, map_eq_ok_iff.mpr ⟨behind, hb, rfl⟩, rfl⟩

/-- A text without anything behind it is scanned to its lexemes and nothing else. -/
theorem Passes.scans (h : Passes catalogue known source text [] lexemes) (position : Nat)
    (all : List Lexeme) : Scans catalogue known source position text all ↔ all = lexemes := by
  obtain ⟨next, hnext⟩ := h position
  have hempty : ∀ behind, Scans catalogue known source next [] behind ↔ behind = [] := by
    intro behind
    simp [Scans, scan, eq_comm]
  have hall := hnext all
  rw [List.append_nil] at hall
  rw [hall]
  constructor
  · rintro ⟨behind, rfl, hb⟩
    rw [(hempty behind).mp hb, List.append_nil]
  · rintro rfl
    exact ⟨[], by rw [List.append_nil], (hempty []).mpr rfl⟩

end Scanner

namespace Tree

open Scanner Text

variable {catalogue : Catalogue} {known : List String} {source : String} {native : Lexeme → Prop}
variable {rest : List Char} {lexemes : List Lexeme} {tree left right : Tree} {op : Operator}

/-- What stands between the texts of two operands, the first of which is no factor that stands for
a sign. -/
def joint (op : Operator) (left right : Tree) : String :=
  match op with
  | .impliedMultiply => if left.isNumber && right.isUnit then "" else " "
  | .impliedDivide => "/"
  | .power => "^"
  | op => " " ++ op.symbol ++ " "

/-- The text of an operation is that of its operands with the joint between them. -/
theorem text_binary (hop : op ≠ .assign) (hl : left.isNegation = false) (p : Nat) :
    (Tree.binary op p left right).text =
      bracketed (leftNeedsBrackets op left) left.text ++ joint op left right ++
        bracketed (rightNeedsBrackets op right) right.text := by
  have hassign : decide (op ≠ .assign) = true := decide_eq_true hop
  rw [text, hassign, Bool.true_and, Bool.true_and]
  cases op with
  | assign => exact absurd rfl hop
  | impliedMultiply =>
    simp only [joinText, joint, hl, Bool.false_eq_true, if_false]
    split
    · rw [String.append_empty]
    · rfl
  | _ => simp only [joinText, joint, String.append_assoc]

/-- The text of a sign in front of an operand. -/
theorem text_negation (p q : Nat) :
    (Tree.binary .impliedMultiply p (.leaf ⟨.negation, q⟩) right).text =
      "-" ++ bracketed (rightNeedsBrackets .impliedMultiply right) right.text := rfl

/-- A text that can follow the text of a tree, calls aside. -/
structure Follows (tree : Tree) (rest : List Char) : Prop where
  /-- It continues no number. -/
  numeral : EndsNumeral rest
  /-- It continues no word. -/
  word : tree.isNumber = false → Ends continuesWord rest

/-- Characters that stand behind the text of a tree. -/
def isSeparator (c : Char) : Bool := c = ' ' || c = ')' || c = '/' || c = '^'

/-- A separator can follow every tree. -/
theorem follows_separator (tree : Tree) {c : Char} (hc : isSeparator c = true) :
    Follows tree (c :: rest) := by
  have hall : c = ' ' ∨ c = ')' ∨ c = '/' ∨ c = '^' := by
    simpa [isSeparator, or_assoc] using hc
  have hclass : isDecimalDigit c = false ∧ c ≠ '.' ∧ c ≠ 'e' ∧ c ≠ 'E' ∧
      continuesWord c = false := by
    rcases hall with rfl | rfl | rfl | rfl <;> decide
  obtain ⟨hd, hp, he, hE, hw⟩ := hclass
  refine ⟨⟨.cons hd, .cons (by simpa using hp), ?_⟩, fun _ => .cons hw⟩
  simp [powerLength, he, hE]

/-- Nothing can follow every tree. -/
theorem follows_nil (tree : Tree) : Follows tree [] := ⟨⟨.nil, .nil, rfl⟩, fun _ => .nil⟩

/-- A tree with lexemes is not the factor that stands for a sign. -/
theorem WrittenAs.isNegation (h : tree.WrittenAs native lexemes)
    (hn : ∀ lexeme, native lexeme → lexeme.Native catalogue known) : tree.isNegation = false := by
  have htext : ∀ {number : Lexeme} {text : String}, number.Native catalogue known →
      number.text = text → (number.isSingle = true → text ≠ "-") ∧ "-" ++ text ≠ "-" := by
    rintro number _ hnumber rfl
    obtain ⟨c, tail, ht, hc⟩ := hnumber.exists_head
    refine ⟨fun hs he => ?_, fun he => ?_⟩
    · rw [he] at ht
      exact hc hs (List.cons.inj ht).1.symm
    · have hlist := congrArg String.toList he
      rw [String.toList_append, ht] at hlist
      cases (List.cons.inj hlist).2
  cases h with
  | leaf p hs h => exact decide_eq_false ((htext (hn _ h) rfl).1 hs)
  | signed p h hneg =>
    obtain ⟨ht, -⟩ := Lexeme.text_of_negated? hneg
    rw [Tree.isNegation, ht]
    exact decide_eq_false (htext (hn _ h) rfl).2
  | _ => rfl

/-- A text that starts with the symbol of a unit continues no number. -/
theorem endsNumeral_unit {symbol : String} {value : Quantity}
    (h : (Lexeme.unit symbol value).Native catalogue known) (rest : List Char) :
    EndsNumeral (symbol.toList ++ rest) := by
  obtain ⟨hresolve, hne⟩ : Units.resolve? symbol = some value ∧ symbol.toList ≠ [] := by
    cases h with
    | word ht hc hr hw =>
      have hword := startsWord_of_wordAt? hw
      rcases hword.sort with ⟨name, he⟩ | ⟨_, _, he, hresolve⟩
      · cases he
      · obtain ⟨rfl, rfl⟩ := Lexeme.unit.inj he
        exact ⟨hresolve, hword.nonempty⟩
  have hchars := Units.startsWord_of_resolve? hresolve
  obtain ⟨c, tail, hl⟩ := List.exists_cons_of_ne_nil hne
  rw [hl] at hchars ⊢
  obtain ⟨hc, htail⟩ := List.forall_mem_cons.mp hchars
  obtain ⟨-, hd, hp, -⟩ := of_startsWord hc
  refine ⟨.cons hd, .cons (by simpa using hp), ?_⟩
  by_cases hmark : c = 'e' ∨ c = 'E'
  · cases tail with
    | nil =>
      have hnone : Units.resolve? (String.ofList [c]) = none := by
        rcases hmark with rfl | rfl
        · decide +kernel
        · decide +kernel
      rw [← String.ofList_toList (s := symbol), hl, hnone] at hresolve
      cases hresolve
    | cons d tail =>
      have hs := htail d (by simp)
      obtain ⟨-, hdigit, -⟩ := of_startsWord hs
      have hplus : d ≠ '+' := by
        rintro rfl
        exact absurd hs (by decide)
      have hminus : d ≠ '-' := by
        rintro rfl
        exact absurd hs (by decide)
      have hpower := powerLength_cons [] (d :: (tail ++ rest)) hmark
        (.inr (.inr ⟨rfl, .cons (by simpa using hplus), .cons (by simpa using hminus)⟩))
      simpa only [List.nil_append, List.cons_append, List.takeWhile_cons, hdigit,
        Bool.false_eq_true, if_false, List.length_nil, if_true] using hpower
  · simp [powerLength, hmark]

/-- The lexemes of a text in brackets are those of the text in brackets. -/
theorem passes_bracketed {needed : Bool} {text : String}
    (hf : needed = false → Passes catalogue known source text.toList rest lexemes)
    (ht : needed = true → Passes catalogue known source text.toList (')' :: rest) lexemes) :
    Passes catalogue known source (bracketed needed text).toList rest
      (bracketedLexemes needed lexemes) := by
  cases needed with
  | false => exact hf rfl
  | true =>
    have hopen : Passes catalogue known source ['('] (text.toList ++ [')'] ++ rest)
        [.openBracket] := .native .openBracket trivial
    have hclose : Passes catalogue known source [')'] rest [.closeBracket] :=
      .native .closeBracket trivial
    have hwhole := hopen.append ((ht rfl).append hclose)
    simpa [bracketed, bracketedLexemes, String.toList_append] using hwhole

/-- The text of a tree that starts with no bracket starts with another character and no blank. -/
theorem WrittenAs.head (h : tree.WrittenAs native lexemes)
    (hn : ∀ lexeme, native lexeme → lexeme.Native catalogue known)
    (hf : tree.first ≠ .openBracket) :
    ∃ c tail, tree.text.toList = c :: tail ∧ c ≠ '(' ∧ isBlank c = false := by
  have hnative : ∀ {lexeme : Lexeme} (text : String), lexeme.Native catalogue known →
      lexeme ≠ .openBracket →
      ∃ c tail, (lexeme.text ++ text).toList = c :: tail ∧ c ≠ '(' ∧ isBlank c = false := by
    intro lexeme text hl hne
    obtain ⟨c, tail, ht, -⟩ := hl.exists_head
    obtain ⟨hb, ho | ho⟩ := hl.head ht
    · exact absurd ho hne
    · exact ⟨c, tail ++ text.toList, by rw [String.toList_append, ht, List.cons_append], ho, hb⟩
  have hsign : ∀ text : String,
      ∃ c tail, ("-" ++ text).toList = c :: tail ∧ c ≠ '(' ∧ isBlank c = false := fun text =>
    ⟨'-', text.toList, by rw [String.toList_append]; rfl, by decide, by decide⟩
  induction h with
  | @leaf lexeme p hs h =>
    have hleaf := hnative "" (hn _ h) hf
    rwa [String.append_empty] at hleaf
  | signed p h hneg =>
    rw [text, (Lexeme.text_of_negated? hneg).1]
    exact hsign _
  | @call name operand lexemes p h hw ih =>
    have hcall := hnative ("(" ++ (operand.text ++ ")")) (hn _ h) hf
    rwa [text, String.append_assoc, String.append_assoc]
  | negation p q h ih =>
    rw [text_negation]
    exact hsign _
  | @binary op left right first second p hop hl hr hu ihl ihr =>
    cases hb : leftNeedsBrackets op left with
    | true =>
      rw [Tree.first, hb, if_pos rfl] at hf
      exact absurd rfl hf
    | false =>
      rw [Tree.first, hb, if_neg (by decide)] at hf
      obtain ⟨c, tail, ht, hc⟩ := ihl hf
      rw [text_binary hop (hl.isNegation hn), hb, String.append_assoc, String.toList_append]
      exact ⟨c, tail ++ _, by rw [bracketed, if_neg (by decide), ht, List.cons_append], hc⟩

/-- Nothing is called before a separator other than a space. -/
theorem opensBracket_separator {c : Char} (h : c = ')' ∨ c = '/' ∨ c = '^') (rest : List Char) :
    opensBracket (c :: rest) = false := by
  rcases h with rfl | rfl | rfl
  · rfl
  · rfl
  · rfl

/-- Nothing is called before a space and a text that starts with no bracket. -/
theorem opensBracket_space {c : Char} (hc : c ≠ '(') (hb : isBlank c = false) (rest : List Char) :
    opensBracket (' ' :: c :: rest) = false := by
  have htrim : trimLeft (' ' :: c :: rest) = c :: rest := by
    rw [trimLeft, List.dropWhile_cons, if_pos (by decide), List.dropWhile_cons, hb,
      if_neg (by decide)]
  rw [opensBracket, htrim, List.head?_cons]
  exact decide_eq_false (by simpa using hc)

/-- The sign of an operator is scanned to the operator. -/
theorem passes_sign {sign : Char} (h : Operator.ofSign? sign = some op) :
    Passes catalogue known source op.symbol.toList rest [.operator op] := by
  have htext : op.symbol = (Lexeme.operator op).text := rfl
  rw [htext]
  exact .native (.operator h) trivial

/-- What stands between two operands is scanned to the lexemes that the operator is written with. -/
theorem passes_joint (hop : op ≠ .assign) (left right : Tree) :
    Passes catalogue known source (joint op left right).toList rest op.written := by
  have hspaced : ∀ (sign : Char) (op : Operator), Operator.ofSign? sign = some op →
      Passes catalogue known source (" " ++ op.symbol ++ " ").toList rest [.operator op] := by
    intro sign op hsign
    rw [String.toList_append, String.toList_append, List.append_assoc]
    exact Passes.space.append ((passes_sign hsign).append .space)
  cases op with
  | assign => exact absurd rfl hop
  | add => exact hspaced '+' .add rfl
  | subtract => exact hspaced '-' .subtract rfl
  | multiply => exact hspaced '*' .multiply rfl
  | divide => exact hspaced '/' .divide rfl
  | impliedMultiply =>
    rw [joint]
    split
    · exact .nil
    · exact .space
  | impliedDivide =>
    have hsign : Operator.ofSign? '/' = some .divide := rfl
    have hjoint : joint .impliedDivide left right = Operator.symbol .divide := rfl
    rw [hjoint]
    exact passes_sign hsign
  | power =>
    have hsign : Operator.ofSign? '^' = some .power := rfl
    have hjoint : joint .power left right = Operator.symbol .power := rfl
    rw [hjoint]
    exact passes_sign hsign

/-- A number without its sign is followed by what continues no number. -/
theorem canPrecede_of_negated? {number : Lexeme} {negated : Outcome Lexeme}
    (h : number.negated? = some negated) (hr : EndsNumeral rest) : number.CanPrecede rest := by
  cases number with
  | number text value => exact hr
  | lookup text value => exact trivial
  | _ => cases h

/-- The lexemes of an operand are those of its text, in brackets where they are needed. -/
theorem passes_operand {needed : Bool}
    (h : ∀ rest, tree.Follows rest → (tree.last.isCallable = true → opensBracket rest = false) →
      Passes catalogue known source tree.text.toList rest lexemes)
    (hr : needed = false → tree.Follows rest)
    (hc : needed = false → tree.last.isCallable = true → opensBracket rest = false) :
    Passes catalogue known source (bracketed needed tree.text).toList rest
      (bracketedLexemes needed lexemes) :=
  passes_bracketed (fun hn => h rest (hr hn) (hc hn)) fun _ =>
    h _ (follows_separator tree (by decide)) fun _ => opensBracket_separator (.inl rfl) rest

/-- What stands behind a left operand can follow it. -/
theorem follows_joint (hr : right.WrittenAs native lexemes)
    (hn : ∀ lexeme, native lexeme → lexeme.Native catalogue known) (rest : List Char) :
    left.Follows ((joint op left right).toList ++
      ((bracketed (rightNeedsBrackets op right) right.text).toList ++ rest)) := by
  have hspace : ∀ (text : String) (rest : List Char),
      left.Follows ((" " ++ text).toList ++ rest) := by
    intro text rest
    rw [String.toList_append]
    exact follows_separator left (by decide)
  cases op with
  | impliedMultiply =>
    simp only [joint]
    split
    · next hboth =>
      obtain ⟨hnumber, hunit⟩ := (Bool.and_eq_true _ _).mp hboth
      cases hr with
      | @leaf lexeme p hs h =>
        cases lexeme with
        | unit symbol value =>
          exact ⟨endsNumeral_unit (hn _ h) rest, fun hnot => by rw [hnumber] at hnot; cases hnot⟩
        | _ => cases hunit
      | @signed number negated p h hneg =>
        have hnegated := (Lexeme.text_of_negated? hneg).2
        cases negated with
        | unit symbol value => cases hnegated
        | _ => cases hunit
      | _ => cases hunit
    · exact hspace "" _
  | impliedDivide =>
    have hjoint : (joint .impliedDivide left right).toList = ['/'] := by simp [joint]
    rw [hjoint]
    exact follows_separator left (by decide)
  | power =>
    have hjoint : (joint .power left right).toList = ['^'] := by simp [joint]
    rw [hjoint]
    exact follows_separator left (by decide)
  | _ =>
    simp only [joint, String.append_assoc]
    exact hspace _ _

/-- No variable before what stands behind a left operand is called. -/
theorem opensBracket_joint (hr : right.WrittenAs native lexemes)
    (hn : ∀ lexeme, native lexeme → lexeme.Native catalogue known) (hop : op ≠ .assign)
    (hl : leftNeedsBrackets op left = false) (hc : left.last.isCallable = true)
    (ha : namesApart op left right = true) (rest : List Char) :
    opensBracket ((joint op left right).toList ++
      ((bracketed (rightNeedsBrackets op right) right.text).toList ++ rest)) = false := by
  have hsign : ∀ (c : Char) (op : Operator) (rest : List Char), Operator.ofSign? c = some op →
      opensBracket ((" " ++ op.symbol ++ " ").toList ++ rest) = false := by
    intro c op rest hsign
    obtain ⟨hs, hb, -, -, -, ho, -⟩ := of_ofSign? hsign
    rw [String.toList_append, String.toList_append, hs]
    exact opensBracket_space ho hb _
  cases op with
  | assign => exact absurd rfl hop
  | add => exact hsign '+' .add _ rfl
  | subtract => exact hsign '-' .subtract _ rfl
  | multiply => exact hsign '*' .multiply _ rfl
  | divide => exact hsign '/' .divide _ rfl
  | impliedDivide =>
    have hjoint : (joint .impliedDivide left right).toList = ['/'] := by simp [joint]
    rw [hjoint]
    exact opensBracket_separator (.inr (.inl rfl)) _
  | power =>
    have hjoint : (joint .power left right).toList = ['^'] := by simp [joint]
    rw [hjoint]
    exact opensBracket_separator (.inr (.inr rfl)) _
  | impliedMultiply =>
    have hnumber : left.isNumber = false := by
      cases left with
      | leaf token =>
        rcases token with ⟨lexeme, p⟩
        cases lexeme <;> first | rfl | cases hc
      | _ => rfl
    have hopen : rightFirst .impliedMultiply right ≠ .openBracket := by
      intro ho
      rw [namesApart, leftLast, hl, if_neg (by decide), hc, ho] at ha
      cases ha
    cases hneeds : rightNeedsBrackets .impliedMultiply right with
    | true =>
      rw [rightFirst, hneeds] at hopen
      exact absurd rfl hopen
    | false =>
      rw [rightFirst, hneeds, if_neg (by decide)] at hopen
      obtain ⟨c, tail, ht, ho, hb⟩ := hr.head hn hopen
      rw [joint, hnumber, Bool.false_and, if_neg (by decide), bracketed, if_neg (by decide), ht]
      exact opensBracket_space ho hb _

/-- The lexemes of a tree are those of its text, in front of what can follow it. -/
theorem WrittenAs.passes (h : tree.WrittenAs native lexemes)
    (hn : ∀ lexeme, native lexeme → lexeme.Native catalogue known)
    (hl : tree.every namesApart = true) (hr : tree.Follows rest)
    (hc : tree.last.isCallable = true → opensBracket rest = false) :
    Passes catalogue known source tree.text.toList rest lexemes := by
  induction h generalizing rest with
  | @leaf lexeme p hs h =>
    rw [text]
    refine .native (hn _ h) ?_
    cases lexeme with
    | number text value => exact hr.numeral
    | lookup text value => exact trivial
    | unit symbol value => exact hr.word rfl
    | reference name => exact ⟨hr.word rfl, hc⟩
    | _ => cases hs
  | @signed number negated p h hneg =>
    have hsign : Operator.ofSign? '-' = some .subtract := rfl
    rw [text, (Lexeme.text_of_negated? hneg).1, String.toList_append]
    exact (passes_sign hsign).append (.native (hn _ h) (canPrecede_of_negated? hneg hr.numeral))
  | @call name operand lexemes p h hw ih =>
    have hgroup : Passes catalogue known source (bracketed true operand.text).toList rest
        (bracketedLexemes true lexemes) :=
      passes_operand (fun _ hf hb => ih hl hf hb) (fun he => by cases he) (fun he => by cases he)
    have hname : Passes catalogue known source name.toList
        ((bracketed true operand.text).toList ++ rest) [.function name] :=
      .native (hn _ h) (by simp [Lexeme.CanPrecede, bracketed, String.toList_append])
    have hwhole := hname.append hgroup
    simpa [text, bracketed, bracketedLexemes, String.toList_append] using hwhole
  | @negation right lexemes p q h ih =>
    have hsign : Operator.ofSign? '-' = some .subtract := rfl
    simp only [every, Bool.and_eq_true] at hl
    have hright : Passes catalogue known source
        (bracketed (rightNeedsBrackets .impliedMultiply right) right.text).toList rest
        (bracketedLexemes (rightNeedsBrackets .impliedMultiply right) lexemes) := by
      refine passes_operand (fun _ hf hb => ih hl.1.2 hf hb) (fun _ => ⟨hr.numeral, fun _ =>
        hr.word rfl⟩) fun hneeds hcall => hc ?_
      rw [last, hneeds]
      exact hcall
    rw [text_negation, String.toList_append]
    exact (passes_sign hsign).append hright
  | @binary op left right first second p hop hleft hright hu ihl ihr =>
    simp only [every, Bool.and_eq_true] at hl
    obtain ⟨⟨hl, hr'⟩, hapart⟩ := hl
    have hsecond : Passes catalogue known source
        (bracketed (rightNeedsBrackets op right) right.text).toList rest
        (bracketedLexemes (rightNeedsBrackets op right) second) := by
      refine passes_operand (fun _ hf hb => ihr hr' hf hb) (fun _ => ⟨hr.numeral, fun _ =>
        hr.word rfl⟩) fun hneeds hcall => hc ?_
      rw [last, hneeds]
      exact hcall
    have hfirst : Passes catalogue known source
        (bracketed (leftNeedsBrackets op left) left.text).toList
        ((joint op left right).toList ++
          ((bracketed (rightNeedsBrackets op right) right.text).toList ++ rest))
        (bracketedLexemes (leftNeedsBrackets op left) first) := by
      refine passes_operand (fun _ hf hb => ihl hl hf hb) (fun hneeds => ?_) fun hneeds hcall => ?_
      · exact follows_joint hright hn rest
      · exact opensBracket_joint hright hn hop hneeds hcall hapart rest
    rw [text_binary hop (hleft.isNegation hn), String.toList_append, String.toList_append]
    exact (hfirst.append (passes_joint hop left right)).append hsecond

end Tree

end UnitCalculator
