import UnitCalculator.Proofs.Expression.Scanning

/-!
# Folding signs

A minus sign that stands where an operand is expected is folded into what follows it. Folding is
described step by step as a relation between the tokens before and after it.
-/

namespace UnitCalculator

/-- A minus sign stays an operator: it stands behind an operand or in front of none. -/
def StaysOperator (previous : Option Lexeme) (rest : List Token) : Prop :=
  Lexeme.allowsSign previous = true → ∀ next ∈ rest.head?,
    next.lexeme.negated? = none ∧ next.lexeme.takesSign = false

/-- Tokens with their signs folded, behind a given lexeme. -/
inductive Folds : Option Lexeme → List Token → List Token → Prop where
  /-- Nothing is left. -/
  | nil (previous : Option Lexeme) : Folds previous [] []
  /-- A token that is no sign is kept. -/
  | keep {previous : Option Lexeme} {token : Token} {rest folded : List Token}
    (hs : token.lexeme = .operator .subtract → StaysOperator previous rest)
    (h : Folds (some token.lexeme) rest folded) :
    Folds previous (token :: rest) (token :: folded)
  /-- The sign of a number becomes part of it. -/
  | number {previous : Option Lexeme} {operand : Token} {rest folded : List Token}
    {negated : Lexeme} (p : Nat) (hs : Lexeme.allowsSign previous = true)
    (hn : operand.lexeme.negated? = some (.ok negated)) (h : Folds (some negated) rest folded) :
    Folds previous (⟨.operator .subtract, p⟩ :: operand :: rest) (⟨negated, p⟩ :: folded)
  /-- The sign of another operand becomes a factor. -/
  | factor {previous : Option Lexeme} {operand : Token} {rest folded : List Token} (p : Nat)
    (hs : Lexeme.allowsSign previous = true) (hp : previous ≠ some (.operator .power))
    (ho : operand.lexeme.takesSign = true)
    (h : Folds (some .negation) (operand :: rest) folded) :
    Folds previous (⟨.operator .subtract, p⟩ :: operand :: rest) (⟨.negation, p⟩ :: folded)
  /-- Behind a power sign the factor and its operand stand in brackets. -/
  | group {operand : Token} {rest first second folded behind : List Token} (p : Nat)
    (ho : operand.lexeme.takesSign = true)
    (hs : Token.splitOperand (operand :: rest) = (first, second))
    (h : Folds (some .negation) first folded) (hb : Folds (some .closeBracket) second behind) :
    Folds (some (.operator .power)) (⟨.operator .subtract, p⟩ :: operand :: rest)
      (⟨.openBracket, p⟩ :: ⟨.negation, p⟩ :: folded ++
        ⟨.closeBracket, (folded.getLast?.map (·.position)).getD p⟩ :: behind)

/-- A lexeme that takes a sign as a factor takes none as part of it. -/
theorem Lexeme.negated?_of_takesSign {lexeme : Lexeme} (h : lexeme.takesSign = true) :
    lexeme.negated? = none := by
  cases lexeme <;> first | rfl | cases h

/-- What a sign is read into is a number. -/
theorem Lexeme.isNumber_of_negated? {number : Lexeme} {negated : Outcome Lexeme}
    (h : number.negated? = some negated) : number.isNumber = true := by
  cases number <;> first | rfl | cases h

/-- Splitting behind an operand leaves its first token in front. -/
theorem Token.exists_splitOperand (operand : Token) (rest : List Token) :
    ∃ first behind, splitOperand (operand :: rest) = (operand :: first, behind) ∧
      first ++ behind = rest := by
  have hhead : ∃ first behind, splitOperand (operand :: rest) = (operand :: first, behind) := by
    simp only [splitOperand]
    split
    · next ho =>
      simp only [splitGroup, ho, joinFirst]
      exact ⟨_, _, rfl⟩
    · split
      · exact ⟨_, _, rfl⟩
      · split
        · exact ⟨_, _, rfl⟩
        · exact ⟨_, _, rfl⟩
    · exact ⟨_, _, rfl⟩
  obtain ⟨first, behind, hs⟩ := hhead
  have happend := splitOperand_append (operand :: rest)
  rw [hs, List.cons_append] at happend
  exact ⟨first, behind, hs, (List.cons.inj happend).2⟩

/-- A token that is a given operator. -/
theorem Token.eq_of_isOperator {op : Operator} {token : Token}
    (h : token.isOperator op = true) : token = ⟨.operator op, token.position⟩ := by
  rcases token with ⟨lexeme, p⟩
  obtain rfl : lexeme = .operator op := of_decide_eq_true h
  rfl

/-- Folded tokens are related to the tokens before folding. -/
theorem folds_of_foldNegation {previous : Option Lexeme} {tokens folded : List Token}
    (h : foldNegation previous tokens = .ok folded) : Folds previous tokens folded := by
  fun_induction foldNegation previous tokens generalizing folded with
  | case1 previous =>
    obtain rfl := Except.ok.inj h
    exact .nil previous
  | case2 previous token hs =>
    obtain rfl := Except.ok.inj h
    exact .keep (fun _ _ next hnext => by cases hnext) (.nil _)
  | case3 previous token hs operand rest negated hn ih =>
    rw [Bool.and_eq_true] at hs
    obtain ⟨lexeme, hl, h⟩ := bind_eq_ok_iff.mp h
    obtain ⟨behind, hb, h⟩ := bind_eq_ok_iff.mp h
    obtain rfl := pure_eq_ok_iff.mp h
    rw [Token.eq_of_isOperator hs.1]
    exact .number token.position hs.2 (hl ▸ hn) (ih lexeme hb)
  | case4 token operand rest hn ho parts hs ih =>
    rename_i ihb
    rw [Bool.and_eq_true] at hs
    obtain ⟨inner, hi, h⟩ := bind_eq_ok_iff.mp h
    obtain ⟨behind, hb, h⟩ := bind_eq_ok_iff.mp h
    obtain rfl := pure_eq_ok_iff.mp h
    rw [Token.eq_of_isOperator hs.1]
    exact .group token.position ho rfl (ih hi) (ihb hb)
  | case5 previous token hs operand rest hn ho hp ih =>
    rw [Bool.and_eq_true] at hs
    obtain ⟨behind, hb, h⟩ := bind_eq_ok_iff.mp h
    obtain rfl := pure_eq_ok_iff.mp h
    rw [Token.eq_of_isOperator hs.1]
    exact .factor token.position hs.2 hp ho (ih hb)
  | case6 previous token hs operand rest hn ho ih =>
    obtain ⟨behind, hb, h⟩ := bind_eq_ok_iff.mp h
    obtain rfl := pure_eq_ok_iff.mp h
    refine .keep (fun _ _ next hnext => ?_) (ih hb)
    obtain rfl := Option.some.inj hnext
    exact ⟨hn, by simpa using ho⟩
  | case7 previous token rest hs ih =>
    obtain ⟨behind, hb, h⟩ := bind_eq_ok_iff.mp h
    obtain rfl := pure_eq_ok_iff.mp h
    refine .keep (fun hsign hallows => ?_) (ih hb)
    rw [Token.isOperator, hsign, hallows] at hs
    exact absurd rfl hs

/-- A token that is no sign is kept. -/
theorem foldNegation_keep {previous : Option Lexeme} {token : Token}
    (h : (token.isOperator .subtract && Lexeme.allowsSign previous) = false) (rest : List Token) :
    foldNegation previous (token :: rest) =
      (foldNegation (some token.lexeme) rest).map (token :: ·) := by
  rw [foldNegation.eq_def]
  simp only [h, Bool.false_eq_true, if_false]
  cases foldNegation (some token.lexeme) rest <;> rfl

/-- Behind lexemes that allow no sign the same is folded. -/
theorem foldNegation_congr {previous other : Option Lexeme}
    (hp : Lexeme.allowsSign previous = false) (ho : Lexeme.allowsSign other = false)
    (tokens : List Token) : foldNegation previous tokens = foldNegation other tokens := by
  cases tokens with
  | nil => rw [foldNegation, foldNegation]
  | cons token rest =>
    rw [foldNegation_keep (by rw [hp, Bool.and_false]),
      foldNegation_keep (by rw [ho, Bool.and_false])]

section

variable {previous : Option Lexeme} {operand : Token} {first second : List Token}
variable (p : Nat) (rest : List Token)

/-- The sign of a number becomes part of it. -/
theorem foldNegation_number {negated : Outcome Lexeme} (hs : Lexeme.allowsSign previous = true)
    (hn : operand.lexeme.negated? = some negated) :
    foldNegation previous (⟨.operator .subtract, p⟩ :: operand :: rest) =
      negated.bind fun lexeme => (foldNegation (some lexeme) rest).map (⟨lexeme, p⟩ :: ·) := by
  rw [foldNegation]
  simp only [Token.isOperator, hs, hn, decide_true, Bool.and_true, if_true]
  cases negated with
  | error failure => rfl
  | ok lexeme =>
    simp only [bind, Except.bind]
    cases foldNegation (some lexeme) rest <;> rfl

/-- The sign of another operand becomes a factor. -/
theorem foldNegation_factor (hs : Lexeme.allowsSign previous = true)
    (hp : previous ≠ some (.operator .power)) (ho : operand.lexeme.takesSign = true) :
    foldNegation previous (⟨.operator .subtract, p⟩ :: operand :: rest) =
      (foldNegation (some .negation) (operand :: rest)).map (⟨.negation, p⟩ :: ·) := by
  rw [foldNegation]
  simp only [Token.isOperator, hs, hp, ho, Lexeme.negated?_of_takesSign ho, decide_true,
    Bool.and_true, if_true, if_false]
  cases foldNegation (some .negation) (operand :: rest) <;> rfl

/-- Behind a power sign the factor and its operand stand in brackets. -/
theorem foldNegation_group (ho : operand.lexeme.takesSign = true)
    (hs : Token.splitOperand (operand :: rest) = (first, second)) :
    foldNegation (some (.operator .power)) (⟨.operator .subtract, p⟩ :: operand :: rest) =
      (foldNegation (some .negation) first).bind fun folded =>
        (foldNegation (some .closeBracket) second).map fun behind =>
          ⟨.openBracket, p⟩ :: ⟨.negation, p⟩ :: folded ++
            ⟨.closeBracket, (folded.getLast?.map (·.position)).getD p⟩ :: behind := by
  rw [foldNegation]
  simp only [Token.isOperator, Lexeme.allowsSign, ho, hs, Lexeme.negated?_of_takesSign ho,
    decide_true, Bool.and_true, if_true, bind, Except.bind]
  cases foldNegation (some .negation) first with
  | error failure => rfl
  | ok folded => cases foldNegation (some .closeBracket) second <;> rfl

/-- A token is kept that is no sign, or a sign that stays an operator. -/
theorem foldNegation_of_stays {token : Token} {rest : List Token}
    (hs : token.lexeme = .operator .subtract → StaysOperator previous rest) :
    foldNegation previous (token :: rest) =
      (foldNegation (some token.lexeme) rest).map (token :: ·) := by
  cases hcond : token.isOperator .subtract && Lexeme.allowsSign previous with
  | false => exact foldNegation_keep hcond rest
  | true =>
    obtain ⟨htoken, hallows⟩ := (Bool.and_eq_true _ _).mp hcond
    have hstays := hs (congrArg Token.lexeme (Token.eq_of_isOperator htoken)) hallows
    cases rest with
    | nil =>
      rw [foldNegation, foldNegation, if_pos hcond]
      rfl
    | cons next rest =>
      obtain ⟨hn, ho⟩ := hstays next rfl
      rw [foldNegation]
      simp only [hcond, if_true, hn, ho, Bool.false_eq_true, if_false]
      cases foldNegation (some token.lexeme) (next :: rest) <;> rfl

end

/-- Tokens are folded as the relation says. -/
theorem foldNegation_of_folds {previous : Option Lexeme} {tokens folded : List Token}
    (h : Folds previous tokens folded) : foldNegation previous tokens = .ok folded := by
  induction h with
  | nil previous => rw [foldNegation]
  | keep hs _ ih =>
    rw [foldNegation_of_stays hs, ih]
    rfl
  | number p hs hn _ ih =>
    rw [foldNegation_number p _ hs hn, Except.bind, ih]
    rfl
  | factor p hs hp ho _ ih =>
    rw [foldNegation_factor p _ hs hp ho, ih]
    rfl
  | group p ho hs _ _ ih ihb =>
    rw [foldNegation_group p _ ho hs, ih, Except.bind, ihb]
    rfl

variable {catalogue : Catalogue} {known : List String} {native : Lexeme → Prop}

/-- Lexemes of a text with signs folded. -/
inductive Lexeme.Folded (native : Lexeme → Prop) : Lexeme → Prop where
  /-- A lexeme of the text. -/
  | native {lexeme : Lexeme} (h : native lexeme) : Folded native lexeme
  /-- A number with a sign. -/
  | negated {number lexeme : Lexeme} (h : native number)
    (hn : number.negated? = some (.ok lexeme)) : Folded native lexeme
  /-- The factor that stands for a sign. -/
  | negation : Folded native .negation
  /-- A bracket around such a factor and its operand. -/
  | bracket {lexeme : Lexeme} (h : lexeme = .openBracket ∨ lexeme = .closeBracket) :
    Folded native lexeme

/-- A factor that stands for a sign can stand behind a bracket or an operator that binds less tight
than the product. -/
def Lexeme.precedesFactor (lexeme : Lexeme) : Prop :=
  lexeme = .openBracket ∨ ∃ op, lexeme = .operator op ∧ op.precedence ≤ 2

/-- A written operator is a power sign or binds no tighter than a quotient. -/
theorem Operator.precedence_of_native {op : Operator}
    (h : (Lexeme.operator op).Native catalogue known) : op.precedence ≤ 2 ∨ op = .power := by
  cases h with
  | word ht hc hr hw =>
    rcases (Scanner.startsWord_of_wordAt? hw).sort with ⟨name, hl⟩ | ⟨symbol, value, hl, -⟩
    · cases hl
    · cases hl
  | operator hop =>
    have hlength : op.symbol.toList.length = 1 := by rw [(Scanner.of_ofSign? hop).1]; rfl
    cases op with
    | impliedMultiply => exact absurd hlength (by decide)
    | impliedDivide => exact absurd hlength (by decide)
    | power => exact .inr rfl
    | _ => exact .inl (by decide)

/-- The factor that stands for a sign is not written. -/
theorem Lexeme.Native.ne_negation {lexeme : Lexeme} (h : lexeme.Native catalogue known) :
    lexeme ≠ .negation := by
  rintro rfl
  obtain ⟨c, tail, ht, hc⟩ := h.exists_head
  have hsign : ['-'] = c :: tail := ht
  exact hc rfl (List.cons.inj hsign).1.symm

/-- A number with a sign is a number, with the sign in front of its text. -/
theorem Lexeme.text_of_negated? {number negated : Lexeme}
    (h : number.negated? = some (.ok negated)) :
    negated.text = "-" ++ number.text ∧ negated.isNumber = true := by
  cases number with
  | number text value =>
    obtain ⟨opposite, -, hl⟩ := bind_eq_ok_iff.mp (Option.some.inj h)
    obtain rfl := pure_eq_ok_iff.mp hl
    exact ⟨rfl, rfl⟩
  | lookup text value =>
    obtain ⟨opposite, -, hl⟩ := bind_eq_ok_iff.mp (Option.some.inj h)
    obtain rfl := pure_eq_ok_iff.mp hl
    exact ⟨rfl, rfl⟩
  | _ => cases h

/-- A number with a sign is written with it. -/
theorem Lexeme.isSigned_of_negated? {number negated : Lexeme}
    (h : number.negated? = some (.ok negated)) : negated.isSigned = true := by
  obtain ⟨ht, hn⟩ := text_of_negated? h
  simp [isSigned, hn, ht]

/-- A number with a sign is not the factor that stands for one. -/
theorem Lexeme.Native.negated_ne_negation {number negated : Lexeme}
    (h : number.Native catalogue known) (hn : number.negated? = some (.ok negated)) :
    negated ≠ .negation := by
  rintro rfl
  obtain ⟨c, tail, ht, -⟩ := h.exists_head
  have hlist := congrArg String.toList (Lexeme.text_of_negated? hn).1
  rw [String.toList_append, ht] at hlist
  cases (List.cons.inj hlist).2

/-- Splitting behind an operand keeps what holds of all tokens. -/
theorem Token.forall_of_splitOperand {p : Token → Prop} {tokens first second : List Token}
    (hs : splitOperand tokens = (first, second)) (h : ∀ token ∈ tokens, p token) :
    (∀ token ∈ first, p token) ∧ ∀ token ∈ second, p token := by
  have happend := splitOperand_append tokens
  rw [hs] at happend
  rw [← happend] at h
  exact ⟨fun token ht => h token (List.mem_append_left _ ht),
    fun token ht => h token (List.mem_append_right _ ht)⟩

/-- Folded tokens come from the text or from a sign. -/
theorem folded_of_folds {previous : Option Lexeme} {tokens folded : List Token}
    (h : Folds previous tokens folded) (hn : ∀ token ∈ tokens, native token.lexeme) :
    ∀ token ∈ folded, token.lexeme.Folded native := by
  induction h with
  | nil previous => simp
  | keep hs h ih =>
    obtain ⟨ht, hrest⟩ := List.forall_mem_cons.mp hn
    exact List.forall_mem_cons.mpr ⟨.native ht, ih hrest⟩
  | number p hs hneg h ih =>
    obtain ⟨-, hrest⟩ := List.forall_mem_cons.mp hn
    obtain ⟨ho, hrest⟩ := List.forall_mem_cons.mp hrest
    exact List.forall_mem_cons.mpr ⟨.negated ho hneg, ih hrest⟩
  | factor p hs hp ho h ih =>
    exact List.forall_mem_cons.mpr ⟨.negation, ih (List.forall_mem_cons.mp hn).2⟩
  | group p ho hs h hb ih ihb =>
    obtain ⟨hfirst, hsecond⟩ :=
      Token.forall_of_splitOperand hs (List.forall_mem_cons.mp hn).2
    intro token ht
    rcases List.mem_append.mp ht with ht | ht
    · rcases List.mem_cons.mp ht with rfl | ht
      · exact .bracket (.inl rfl)
      · rcases List.mem_cons.mp ht with rfl | ht
        · exact .negation
        · exact ih hfirst token ht
    · rcases List.mem_cons.mp ht with rfl | ht
      · exact .bracket (.inr rfl)
      · exact ihb hsecond token ht

/-- The lexemes of tokens in front of a closing bracket. -/
def Token.enclosed (tokens : List Token) : List Lexeme := tokens.map (·.lexeme) ++ [.closeBracket]

/-- What may stand side by side once signs are folded: the factor that stands for a sign stands
where an operand is expected, and its operand stands behind it. -/
structure Lexeme.FoldMeets (a b : Lexeme) : Prop where
  /-- The operand of the factor follows. -/
  operand : a = .negation → b.takesSign = true
  /-- An operand is expected before the factor. -/
  sign : b = .negation → a.precedesFactor

/-- The lexeme of the first token comes first. -/
@[simp] theorem Token.enclosed_cons (token : Token) (rest : List Token) :
    enclosed (token :: rest) = token.lexeme :: enclosed rest := rfl

/-- Some lexeme comes first, the bracket at the latest. -/
theorem Token.exists_head_enclosed (tokens : List Token) :
    ∃ lexeme, (enclosed tokens).head? = some lexeme := by
  cases tokens with
  | nil => exact ⟨_, rfl⟩
  | cons token rest => exact ⟨_, rfl⟩

/-- The lexemes of the first tokens come first. -/
theorem Token.enclosed_append (first second : List Token) :
    enclosed (first ++ second) = first.map (·.lexeme) ++ enclosed second := by
  rw [enclosed, enclosed, List.map_append, List.append_assoc]

/-- Folded tokens meet as they may, behind the lexeme before them and in front of a bracket. -/
theorem isChain_of_folds {previous : Option Lexeme} {tokens folded : List Token}
    (h : Folds previous tokens folded)
    (hn : ∀ token ∈ tokens, token.lexeme.Native catalogue known)
    (hp : ∀ op, previous = some (.operator op) → op.precedence ≤ 2 ∨ op = .power)
    (hf : previous = some .negation → ∃ first ∈ tokens.head?, first.lexeme.takesSign = true) :
    (previous.getD .openBracket :: Token.enclosed folded).IsChain Lexeme.FoldMeets := by
  have hnegation : ∀ previous : Option Lexeme,
      previous.getD .openBracket = .negation → previous = some .negation := by
    intro previous hneg
    cases previous with
    | none => cases hneg
    | some lexeme => exact congrArg some hneg
  induction h with
  | nil previous =>
    refine List.isChain_pair.mpr ⟨fun hneg => ?_, fun hneg => by cases hneg⟩
    obtain ⟨first, hmem, -⟩ := hf (hnegation previous hneg)
    cases hmem
  | @keep previous token rest folded hs h ih =>
    obtain ⟨ht, hrest⟩ := List.forall_mem_cons.mp hn
    have hfirst : (previous.getD .openBracket).FoldMeets token.lexeme := by
      refine ⟨fun hneg => ?_, fun hneg => absurd hneg ht.ne_negation⟩
      obtain ⟨first, hmem, htakes⟩ := hf (hnegation previous hneg)
      obtain rfl := Option.some.inj hmem
      exact htakes
    refine List.isChain_cons_cons.mpr ⟨hfirst, ih hrest (fun op hop => ?_) fun hneg => ?_⟩
    · rw [Option.some.inj hop] at ht
      exact Operator.precedence_of_native ht
    · exact absurd (Option.some.inj hneg) ht.ne_negation
  | @number previous operand rest folded negated p hs hneg h ih =>
    obtain ⟨-, hrest⟩ := List.forall_mem_cons.mp hn
    obtain ⟨ho, hrest⟩ := List.forall_mem_cons.mp hrest
    have hne := ho.negated_ne_negation hneg
    have hfirst : (previous.getD .openBracket).FoldMeets negated := by
      refine ⟨fun hprevious => ?_, fun he => absurd he hne⟩
      rw [hnegation previous hprevious] at hs
      cases hs
    refine List.isChain_cons_cons.mpr ⟨hfirst, ih hrest (fun op hop => ?_) fun he => ?_⟩
    · rw [Option.some.inj hop] at hneg
      cases Lexeme.isSigned_of_negated? hneg
    · exact absurd (Option.some.inj he) hne
  | @factor previous operand rest folded p hs hpower ho h ih =>
    have hfirst : (previous.getD .openBracket).FoldMeets .negation := by
      refine ⟨fun hprevious => ?_, fun _ => ?_⟩
      · rw [hnegation previous hprevious] at hs
        cases hs
      · cases previous with
        | none => exact .inl rfl
        | some lexeme =>
          cases lexeme with
          | openBracket => exact .inl rfl
          | operator op =>
            rcases hp op rfl with hop | rfl
            · exact .inr ⟨op, rfl, hop⟩
            · exact absurd rfl hpower
          | _ => cases hs
    exact List.isChain_cons_cons.mpr ⟨hfirst, ih (List.forall_mem_cons.mp hn).2
      (fun op hop => by cases hop) fun _ => ⟨operand, rfl, ho⟩⟩
  | @group operand rest first second folded behind p ho hs h hb ih ihb =>
    obtain ⟨hfirst, hsecond⟩ :=
      Token.forall_of_splitOperand hs (List.forall_mem_cons.mp hn).2
    obtain ⟨inner, after, hsplit, -⟩ := Token.exists_splitOperand operand rest
    have hinner := ih hfirst (fun op hop => by cases hop) fun _ => by
      rw [hs] at hsplit
      rw [(Prod.mk.inj hsplit).1]
      exact ⟨operand, rfl, ho⟩
    have hbehind := ihb hsecond (fun op hop => by cases hop) fun he => by cases he
    simp only [Token.enclosed, Option.getD_some, List.map_cons, List.map_append, List.cons_append,
      List.append_assoc]
    refine List.isChain_cons_cons.mpr ⟨⟨fun he => (by cases he), fun he => by cases he⟩, ?_⟩
    refine List.isChain_cons_cons.mpr ⟨⟨fun he => (by cases he), fun _ => .inl rfl⟩, ?_⟩
    exact List.isChain_cons_split.mpr ⟨hinner, hbehind⟩

end UnitCalculator
