import UnitCalculator.Proofs.Expression.Factor
import UnitCalculator.Proofs.Expression.Reading
import UnitCalculator.Proofs.Reference.Argument

/-!
# Bases of powers

In LaTeX the base of a power has brackets if it is an operation or a function, or if its text
starts with a minus sign. Any other base is a single factor without sign, unless it is a number
shown with a power of ten or a lookup with a sign.
-/

namespace UnitCalculator

namespace Tree

/-- The powers in a tree, each with its base and its exponent. -/
def powers : Tree → List (Tree × Tree)
  | .leaf _ => []
  | .call _ _ operand => operand.powers
  | .binary op _ left right =>
    left.powers ++ right.powers ++ if op = .power then [(left, right)] else []

/-- The tree is a single operand whose text shows a sign. -/
def IsExposed (figures : Int) : Tree → Prop
  | .leaf token => token.lexeme.IsExposed figures
  | _ => False

/-- The text of a power. -/
def powerLatex (shown exponent : String) : String := braced shown ++ "^" ++ braced exponent

variable {catalogue : Catalogue} {known : List String} {native : Lexeme → Prop} {figures : Int}
variable {lexeme number negated : Lexeme} {text part first second : String}

/-- What stands in a text stands in a longer one. -/
theorem infix_append (h : part.toList <:+: text.toList) (first second : String) :
    part.toList <:+: (first ++ text ++ second).toList := by
  rw [String.toList_append, String.toList_append]
  exact h.trans (List.infix_append _ _ _)

/-- What stands in a text stands in it with something in front. -/
theorem infix_append_right (h : part.toList <:+: text.toList) (first : String) :
    part.toList <:+: (first ++ text).toList := by
  rw [String.toList_append]
  exact h.trans (List.suffix_append _ _).isInfix

/-- What stands in a text stands in it with something behind. -/
theorem infix_append_left (h : part.toList <:+: text.toList) (second : String) :
    part.toList <:+: (text ++ second).toList := by
  rw [String.toList_append]
  exact h.trans (List.prefix_append _ _).isInfix

/-- What stands in a text stands in it with brackets. -/
theorem infix_latexBracketed (h : part.toList <:+: text.toList) (needed : Bool) :
    part.toList <:+: (latexBracketed needed text).toList := by
  cases needed with
  | false => exact h
  | true => exact infix_append h _ _

/-- The text of the right operand stands in that of an operation. -/
theorem infix_right (op : Operator) (left right : Tree) (h : part.toList <:+: second.toList) :
    part.toList <:+: (joinLatex op left right first second).toList := by
  have hbraced : part.toList <:+: (braced second).toList := infix_append h _ _
  cases op with
  | assign => exact infix_append_right h _
  | divide => exact infix_append_right hbraced _
  | impliedDivide => exact infix_append_right hbraced _
  | power => exact infix_append_right hbraced _
  | add => exact infix_append_right (infix_latexBracketed h _) _
  | subtract => exact infix_append_right (infix_latexBracketed h _) _
  | multiply => exact infix_append_right (infix_latexBracketed h _) _
  | impliedMultiply =>
    rw [joinLatex, productLatex]
    split
    · exact infix_append_right (infix_latexBracketed h _) _
    · dsimp only
      split
      · exact infix_append_right h _
      · split
        · exact infix_append_right (infix_append h _ _) _
        · exact infix_append_right h _

/-- The text of the left operand stands in that of an operation, unless it stands for a sign. -/
theorem infix_left (op : Operator) {left : Tree} (right : Tree) (hl : left.isNegation = false)
    (h : part.toList <:+: first.toList) :
    part.toList <:+: (joinLatex op left right first second).toList := by
  have hbraced : part.toList <:+: (braced first).toList := infix_append h _ _
  cases op with
  | assign => exact infix_append_left (infix_append_left h _) _
  | divide => exact infix_append_left (infix_append_right hbraced _) _
  | impliedDivide => exact infix_append_left (infix_append_right hbraced _) _
  | power =>
    have hbase : part.toList <:+:
        (braced (latexBracketed (baseNeedsBrackets left first) first)).toList :=
      infix_append (infix_latexBracketed h _) _ _
    exact infix_append_left (infix_append_left hbase _) _
  | add => exact infix_append_left (infix_append_left (infix_latexBracketed h _) _) _
  | subtract => exact infix_append_left (infix_append_left (infix_latexBracketed h _) _) _
  | multiply => exact infix_append_left (infix_append_left (infix_latexBracketed h _) _) _
  | impliedMultiply =>
    have hfactor := infix_latexBracketed h (leftNeedsBrackets .impliedMultiply left)
    rw [joinLatex, productLatex, hl, if_neg Bool.false_ne_true]
    dsimp only
    split
    · exact infix_append_left (infix_append_left hfactor _) _
    · split
      · exact infix_append_left hfactor _
      · exact infix_append_left (infix_append_left hfactor _) _

/-- What stands for a sign has no powers. -/
theorem powers_of_isNegation {tree : Tree} (h : tree.isNegation = true) : tree.powers = [] := by
  cases tree with
  | leaf token => rfl
  | call function position operand => cases h
  | binary op position left right => cases h

/-- Every power in a tree is shown in its text: the base, in brackets if it needs them, and the
exponent raised. -/
theorem exists_infix_of_mem_powers {tree base exponent : Tree} (h : tree.latex figures = .ok text)
    (hp : (base, exponent) ∈ tree.powers) : ∃ baseText exponentText,
      base.latex figures = .ok baseText ∧ exponent.latex figures = .ok exponentText ∧
      (powerLatex (latexBracketed (baseNeedsBrackets base baseText) baseText) exponentText).toList
        <:+: text.toList := by
  induction tree generalizing text with
  | leaf token => cases hp
  | call function position operand ih =>
    obtain ⟨inner, hi, h⟩ := bind_eq_ok_iff.mp h
    obtain ⟨baseText, exponentText, hb, he, hin⟩ := ih hi hp
    refine ⟨baseText, exponentText, hb, he, ?_⟩
    split at h
    · obtain rfl := pure_eq_ok_iff.mp h
      exact infix_append_right (infix_append hin _ _) _
    · obtain rfl := pure_eq_ok_iff.mp h
      exact infix_append_right (infix_append hin _ _) _
  | binary op position left right ihl ihr =>
    obtain ⟨first, hl, h⟩ := bind_eq_ok_iff.mp h
    obtain ⟨second, hr, h⟩ := bind_eq_ok_iff.mp h
    obtain rfl := pure_eq_ok_iff.mp h
    rw [powers, List.append_assoc, List.mem_append, List.mem_append] at hp
    rcases hp with hp | hp | hp
    · obtain ⟨baseText, exponentText, hb, he, hin⟩ := ihl hl hp
      have hnegation : left.isNegation = false := by
        cases hn : left.isNegation with
        | false => rfl
        | true =>
          rw [powers_of_isNegation hn] at hp
          cases hp
      exact ⟨baseText, exponentText, hb, he, infix_left op right hnegation hin⟩
    · obtain ⟨baseText, exponentText, hb, he, hin⟩ := ihr hr hp
      exact ⟨baseText, exponentText, hb, he, infix_right op left right hin⟩
    · split at hp
      · next hop =>
        obtain ⟨rfl, rfl⟩ := Prod.mk.inj (List.mem_singleton.mp hp)
        subst hop
        exact ⟨first, second, hl, hr, List.infix_rfl⟩
      · cases hp

/-- The base of a power in a written tree is written. -/
theorem WrittenAs.of_mem_powers {tree base exponent : Tree} {lexemes : List Lexeme}
    (h : tree.WrittenAs native lexemes) (hp : (base, exponent) ∈ tree.powers) :
    ∃ written, base.WrittenAs native written := by
  induction h with
  | leaf => cases hp
  | signed => cases hp
  | call p hn h ih => exact ih hp
  | negation p q h ih =>
    rw [powers, powers, List.nil_append, if_neg (by decide), List.append_nil] at hp
    exact ih hp
  | @binary op left right first second p hop hl hr hu ihl ihr =>
    rw [powers, List.append_assoc, List.mem_append, List.mem_append] at hp
    rcases hp with hp | hp | hp
    · exact ihl hp
    · exact ihr hp
    · split at hp
      · obtain ⟨rfl, -⟩ := Prod.mk.inj (List.mem_singleton.mp hp)
        exact ⟨first, hl⟩
      · cases hp

/-- A number without sign in its text is a factor unless it is exposed. -/
theorem isSingle_leafLatex_number {name : String} {value : Quantity}
    (hf : value.value.isFinite = true) (hl : leafLatex (.number name value) figures = .ok text)
    (hm : text.toList.head? ≠ some '-') :
    isSingle text = true ↔ ¬ (Lexeme.number name value).IsExposed figures := by
  rw [leafLatex] at hl
  split at hl
  · next hn =>
    obtain rfl := Except.ok.inj hl
    rw [hn] at hm
    exact absurd rfl hm
  · obtain ⟨shown, hshown, hl⟩ := bind_eq_ok_iff.mp hl
    obtain rfl := pure_eq_ok_iff.mp hl
    rw [Lexeme.isExposed_number_iff]
    exact isSingle_number hf (ofSignal_eq_ok_iff.mp hshown) hm

/-- A lookup is a factor unless it is exposed. -/
theorem isSingle_leafLatex_lookup {name call : String} {argument sign : List Char}
    {value : Quantity} (hn : name ∈ Catalogue.lookupNames)
    (hd : Scanner.depthAfter? 0 argument = some 0) (hs : sign = [] ∨ sign = ['-'])
    (ht : call.toList = sign ++ (name ++ "(" ++ String.ofList argument ++ ")").toList)
    (hl : leafLatex (.lookup call value) figures = .ok text) :
    isSingle text = true ↔ ¬ (Lexeme.lookup call value).IsExposed figures := by
  obtain rfl := Except.ok.inj hl
  rw [Lexeme.isExposed_lookup_iff]
  exact isSingle_lookup hn hd hs ht

/-- An operand that is written without sign is a factor unless it is exposed. -/
theorem isSingle_leafLatex_native (h : lexeme.Native catalogue known)
    (hs : lexeme.isSingle = true) (hl : leafLatex lexeme figures = .ok text)
    (hm : text.toList.head? ≠ some '-') :
    isSingle text = true ↔ ¬ lexeme.IsExposed figures := by
  cases h with
  | number hd hv =>
    have hf := Decimal.isFinite_of_isNumeral hd (numberOf_eq_ok_iff.mp hv)
    exact isSingle_leafLatex_number hf hl hm
  | lookup hn hd ht hv => exact isSingle_leafLatex_lookup hn hd (.inl rfl) rfl hl
  | word ht hc hr hw =>
    have hword : ∀ c ∈ lexeme.text.toList, Scanner.continuesWord c = true := by
      rw [ht]
      exact List.forall_mem_cons.mpr ⟨(Scanner.of_startsWord hc).2.2.2.1, hr⟩
    rcases (Scanner.startsWord_of_wordAt? hw).sort with ⟨name, rfl⟩ | ⟨symbol, value, rfl, -⟩
    · obtain rfl := Except.ok.inj hl
      refine iff_of_true (isSingle_of_forall fun c hc => of_continuesWord (hword c hc)) ?_
      exact nofun
    · obtain rfl := Except.ok.inj hl
      exact iff_of_true (isSingle_latexUnit hword) nofun
  | function => cases hs
  | openBracket => cases hs
  | closeBracket => cases hs
  | operator => cases hs

/-- A number that is written with a sign is a factor unless it is exposed. -/
theorem isSingle_leafLatex_negated (h : number.Native catalogue known)
    (hn : number.negated? = some (.ok negated)) (hl : leafLatex negated figures = .ok text)
    (hm : text.toList.head? ≠ some '-') :
    isSingle text = true ↔ ¬ negated.IsExposed figures := by
  cases h with
  | @number digits value hd hv =>
    have hf := Decimal.isFinite_of_isNumeral hd (numberOf_eq_ok_iff.mp hv)
    obtain ⟨opposite, ho, he⟩ := bind_eq_ok_iff.mp (Option.some.inj hn)
    obtain rfl := pure_eq_ok_iff.mp he
    obtain ⟨result, hresult, hq⟩ := bind_eq_ok_iff.mp ho
    obtain rfl := pure_eq_ok_iff.mp hq
    refine isSingle_leafLatex_number ?_ hl hm
    exact Format.isFinite_of_negate hf (ofSignal_eq_ok_iff.mp hresult)
  | @lookup name argument value hname hd ht hv =>
    obtain ⟨opposite, -, he⟩ := bind_eq_ok_iff.mp (Option.some.inj hn)
    obtain rfl := pure_eq_ok_iff.mp he
    exact isSingle_leafLatex_lookup hname hd (.inr rfl) (String.toList_append ..) hl
  | word ht hc hr hw =>
    rcases (Scanner.startsWord_of_wordAt? hw).sort with ⟨name, rfl⟩ | ⟨symbol, value, rfl, -⟩
    · cases hn
    · cases hn
  | function => cases hn
  | openBracket => cases hn
  | closeBracket => cases hn
  | operator => cases hn

/-- A single operand without a minus sign in front is a factor unless it is exposed. -/
theorem WrittenAs.isSingle_iff {tree : Tree} {lexemes : List Lexeme}
    (h : tree.WrittenAs native lexemes)
    (hn : ∀ lexeme, native lexeme → lexeme.Native catalogue known) (hs : tree.isLeaf = true)
    (hl : tree.latex figures = .ok text) (hm : text.toList.head? ≠ some '-') :
    isSingle text = true ↔ ¬ tree.IsExposed figures := by
  cases h with
  | leaf p hsingle hlexeme => exact isSingle_leafLatex_native (hn _ hlexeme) hsingle hl hm
  | signed p hnumber hneg => exact isSingle_leafLatex_negated (hn _ hnumber) hneg hl hm
  | call => cases hs
  | negation => cases hs
  | binary => cases hs

/-- A lookup in the standard tables holds no sign of a sum, a product or a power of ten. -/
theorem WrittenAs.joins_lookup {lexemes : List Lexeme} {call : String} {value : Quantity} {p : Nat}
    (h : (Tree.leaf ⟨.lookup call value, p⟩).WrittenAs native lexemes)
    (hn : ∀ lexeme, native lexeme → lexeme.Native .standard known) :
    joins call.toList = false := by
  have hplain : ∀ {call : String} {value : Quantity},
      (Lexeme.lookup call value).Native .standard known → ∀ c ∈ call.toList, isApart c = true := by
    intro call value hnative
    cases hnative with
    | @lookup name argument value hname hd ht hv =>
      have hargument := Catalogue.isNameCharacter_of_lookup ht hv
      intro c hc
      simp only [String.toList_append, String.toList_ofList, List.mem_append] at hc
      rcases hc with ((hc | hc) | hc) | hc
      · have hword := Scanner.continuesWord_of_callable (List.mem_append_right _ hname) c hc
        exact (of_continuesWord hword).1
      · obtain rfl := List.mem_singleton.mp hc
        decide
      · obtain ⟨hplus, hstar, hslash⟩ := Reference.of_isNameCharacter (hargument c hc)
        simp [isApart, hplus, hstar, hslash]
      · obtain rfl := List.mem_singleton.mp hc
        decide
    | word ht hc hr hw =>
      rcases (Scanner.startsWord_of_wordAt? hw).sort with ⟨name, he⟩ | ⟨symbol, value, he, -⟩
      · cases he
      · cases he
  cases h with
  | leaf p hsingle hlexeme => exact joins_eq_false (hplain (hn _ hlexeme))
  | @signed number _ p hnumber hneg =>
    cases number with
    | lookup text value =>
      obtain ⟨opposite, -, he⟩ := bind_eq_ok_iff.mp (Option.some.inj hneg)
      obtain ⟨rfl, -⟩ := Lexeme.lookup.inj (pure_eq_ok_iff.mp he)
      have hminus : ∀ c ∈ Lexeme.negationText.toList, isApart c = true :=
        List.forall_mem_singleton.mpr rfl
      rw [String.toList_append, joins_append hminus]
      exact joins_eq_false (hplain (hn _ hnumber))
    | number text value =>
      obtain ⟨opposite, -, he⟩ := bind_eq_ok_iff.mp (Option.some.inj hneg)
      cases pure_eq_ok_iff.mp he
    | _ => cases hneg

end Tree

namespace Equation

variable {catalogue : Catalogue} {known : List String} {source text : String} {e : Equation}
variable {figures : Int} {base exponent : Tree}

/-- The powers of a compiled equation are those of a tree that is written with native lexemes. -/
theorem exists_writtenAs_powers (h : compile catalogue known source = .ok e) :
    ∃ (native : Lexeme → Prop) (tree : Tree) (lexemes : List Lexeme),
      (∀ lexeme, native lexeme → lexeme.Native catalogue known) ∧
      tree.WrittenAs native lexemes ∧ e.root.powers = tree.powers := by
  by_cases hs : '=' ∈ source.toList
  · obtain ⟨before, after, hsplit, hb⟩ := List.eq_append_cons_of_mem hs
    obtain ⟨-, -, tree, hreads, hroot⟩ := (compile_assignment hsplit hb).mp h
    obtain ⟨lexemes, hw⟩ := hreads.exists_writtenAs (.inr rfl)
    refine ⟨_, tree, lexemes, fun lexeme hl => hl.1, hw, ?_⟩
    rw [hroot, Tree.powers, Tree.powers, List.nil_append, if_neg (by decide), List.append_nil]
  · obtain ⟨-, hreads⟩ := (compile_expression hs).mp h
    obtain ⟨lexemes, hw⟩ := hreads.exists_writtenAs (.inl rfl)
    exact ⟨_, e.root, lexemes, fun lexeme hl => hl.1, hw, rfl⟩

/-- Every power of a compiled equation is shown in its LaTeX text. The base has brackets exactly if
it is an operation or a function or its text starts with a minus sign. Otherwise it is a single
factor without sign, unless it is a number shown with a power of ten, a lookup with a sign, or a
lookup with a sign of a sum or a product in its argument, which the standard tables do not have. -/
theorem power_latex_spec (h : compile catalogue known source = .ok e)
    (hl : e.latex figures = .ok text) (hp : (base, exponent) ∈ e.root.powers) :
    ∃ baseText exponentText shown, base.latex figures = .ok baseText ∧
      exponent.latex figures = .ok exponentText ∧
      (Tree.powerLatex shown exponentText).toList <:+: text.toList ∧
      ((base.isLeaf = false ∨ baseText.toList.head? = some '-') ∧
          shown = Tree.latexBrackets baseText ∨
        base.isLeaf = true ∧ baseText.toList.head? ≠ some '-' ∧ shown = baseText ∧
          (Tree.isSingle shown = true ↔ ¬ base.IsExposed figures)) ∧
      (catalogue = .standard → ∀ call value position,
        base = .leaf ⟨.lookup call value, position⟩ → Tree.joins call.toList = false) := by
  obtain ⟨native, tree, lexemes, hn, hw, hpowers⟩ := exists_writtenAs_powers h
  rw [hpowers] at hp
  obtain ⟨written, hbase⟩ := hw.of_mem_powers hp
  rw [← hpowers] at hp
  obtain ⟨baseText, exponentText, hb, he, hin⟩ := Tree.exists_infix_of_mem_powers hl hp
  refine ⟨baseText, exponentText, _, hb, he, hin, ?_, ?_⟩
  · cases hneeds : Tree.baseNeedsBrackets base baseText with
    | true =>
      rw [Tree.baseNeedsBrackets, Bool.or_eq_true, Bool.not_eq_true', decide_eq_true_eq] at hneeds
      exact .inl ⟨hneeds, rfl⟩
    | false =>
      rw [Tree.baseNeedsBrackets, Bool.or_eq_false_iff, Bool.not_eq_false', decide_eq_false_iff_not]
        at hneeds
      exact .inr ⟨hneeds.1, hneeds.2, rfl, hbase.isSingle_iff hn hneeds.1 hb hneeds.2⟩
  · rintro rfl call value position rfl
    exact hbase.joins_lookup hn

/-- The square of a number that is written with a power of ten. -/
def billionSquared : Equation :=
  ⟨.binary .power 3 (.leaf ⟨.number "1e9" (.number (.finite false 1 9)), 0⟩)
    (.leaf ⟨.number "2" (.number (.ofNat 2)), 4⟩), "1e9^2"⟩

/-- A number that is shown with a power of ten has no brackets where it is squared, though it is no
single factor. -/
theorem power_latex_spec_billion :
    compile .standard [] "1e9^2" = .ok billionSquared ∧
    billionSquared.latex 6 = .ok "\x7b1*10^\x7b9\x7d\x7d^\x7b2\x7d" ∧
    ∃ base exponent baseText exponentText, (base, exponent) ∈ billionSquared.root.powers ∧
      base.latex 6 = .ok baseText ∧ Tree.isSingle baseText = false ∧ base.IsExposed 6 ∧
      (Tree.powerLatex baseText exponentText).toList <:+:
        "\x7b1*10^\x7b9\x7d\x7d^\x7b2\x7d".toList := by
  have h : compile .standard [] "1e9^2" = .ok billionSquared := by decide +kernel
  have hl : billionSquared.latex 6 = .ok "\x7b1*10^\x7b9\x7d\x7d^\x7b2\x7d" := by decide +kernel
  have hp : (Tree.leaf ⟨.number "1e9" (.number (.finite false 1 9)), 0⟩,
      Tree.leaf ⟨.number "2" (.number (.ofNat 2)), 4⟩) ∈ billionSquared.root.powers := by
    decide +kernel
  obtain ⟨baseText, exponentText, shown, hb, -, hin, hshown, -⟩ := power_latex_spec h hl hp
  have htext : baseText = "1*10^\x7b9\x7d" := by
    have hcompute : (Tree.leaf ⟨.number "1e9" (.number (.finite false 1 9)), 0⟩).latex 6 =
        .ok "1*10^\x7b9\x7d" := by decide +kernel
    exact Except.ok.inj (hb.symm.trans hcompute)
  rcases hshown with ⟨hbrackets | hsign, -⟩ | ⟨-, -, rfl, hfactor⟩
  · cases hbrackets
  · rw [htext] at hsign
    exact absurd hsign (by decide)
  · have hnone : Tree.isSingle shown = false := by rw [htext]; decide
    refine ⟨h, hl, _, _, shown, exponentText, hp, hb, hnone, ?_, hin⟩
    by_contra hexposed
    rw [hfactor.mpr hexposed] at hnone
    cases hnone

end Equation

end UnitCalculator
