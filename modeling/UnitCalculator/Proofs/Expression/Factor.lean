import UnitCalculator.Expression.Rendering
import UnitCalculator.Proofs.Decimal.Scaled
import UnitCalculator.Proofs.Quantity.Amount

/-!
# Texts of single factors

A LaTeX text is a single factor without sign if it holds no sign of a sum, a product or a power of
ten, and no minus sign outside brackets. Units and variables are. A number is unless it has a sign
or is shown with a power of ten, and a lookup is unless it has a sign or joins names in its
argument.
-/

namespace UnitCalculator

/-- The opposite of a finite number is finite. -/
theorem Format.isFinite_of_negate {format : Format} {a opposite : Decimal}
    (ha : a.isFinite = true) (h : format.negate a = .ok opposite) : opposite.isFinite = true := by
  cases a with
  | finite s c e => exact isFinite_of_round h
  | infinity s => cases ha
  | nan s signaling payload => cases ha

namespace Tree

/-- A sign of a sum, a product or a power of ten stands in a text. -/
def joins : List Char → Bool
  | [] => false
  | c :: rest =>
    c = '+' || c = '*' || "\\cdot".toList.isPrefixOf (c :: rest) ||
      "\\:".toList.isPrefixOf (c :: rest) || joins rest

/-- A minus sign stands in a text outside brackets, of which some are open in front of it. -/
def subtracts : Nat → List Char → Bool
  | _, [] => false
  | depth, c :: rest =>
    if c = '(' then subtracts (depth + 1) rest
    else if c = ')' then subtracts (depth - 1) rest
    else depth = 0 && c = '-' || subtracts depth rest

/-- A text is a single factor without sign. -/
def isSingle (text : String) : Bool := !joins text.toList && !subtracts 0 text.toList

/-- A character that neither joins nor starts the name of a sign. -/
def isApart (c : Char) : Bool := c ≠ '+' && c ≠ '*' && c ≠ '\\'

variable {text rest : List Char}

/-- What does not join in front of a text adds nothing. -/
theorem joins_append (h : ∀ c ∈ text, isApart c = true) : joins (text ++ rest) = joins rest := by
  induction text with
  | nil => rfl
  | cons c text ih =>
    obtain ⟨hc, ht⟩ := List.forall_mem_cons.mp h
    simp only [isApart, ne_eq, Bool.and_eq_true, decide_eq_true_eq] at hc
    obtain ⟨⟨hplus, hstar⟩, hslash⟩ := hc
    have hname : ∀ name : List Char, ('\\' :: name).isPrefixOf (c :: (text ++ rest)) = false := by
      intro name
      rw [List.isPrefixOf_cons_cons, beq_false_of_ne (Ne.symm hslash), Bool.false_and]
    rw [List.cons_append, joins, ih ht]
    have hcdot := hname "cdot".toList
    have hcolon := hname ":".toList
    simp_all

/-- Characters apart do not join. -/
theorem joins_eq_false (h : ∀ c ∈ text, isApart c = true) : joins text = false := by
  have hjoins : joins (text ++ []) = joins [] := joins_append h
  rwa [List.append_nil] at hjoins

/-- The sign of a product with a power of ten joins. -/
theorem joins_of_mem (h : '*' ∈ text) : joins text = true := by
  induction text with
  | nil => cases h
  | cons c text ih =>
    rw [joins]
    rcases List.mem_cons.mp h with rfl | h
    · rfl
    · rw [ih h, Bool.or_true]

/-- A closing brace behind a text does not join. -/
theorem joins_brace (text : List Char) : joins (text ++ ['\x7d']) = joins text := by
  have hname : ∀ (name : List Char), '\x7d' ∉ name → ∀ text : List Char,
      name.isPrefixOf (text ++ ['\x7d']) = name.isPrefixOf text := by
    intro name hn text
    rw [Bool.eq_iff_iff, List.isPrefixOf_iff_prefix, List.isPrefixOf_iff_prefix,
      List.prefix_concat_iff]
    refine ⟨fun h => h.resolve_left fun he => hn ?_, .inr⟩
    rw [he]
    simp
  induction text with
  | nil => rfl
  | cons c text ih =>
    rw [List.cons_append, joins, joins, ih, ← List.cons_append, hname _ (by decide),
      hname _ (by decide)]

/-- A text without brackets and minus signs adds nothing in front of another one. -/
theorem subtracts_append (h : ∀ c ∈ text, c ≠ '(' ∧ c ≠ ')' ∧ c ≠ '-') (depth : Nat) :
    subtracts depth (text ++ rest) = subtracts depth rest := by
  induction text with
  | nil => rfl
  | cons c text ih =>
    obtain ⟨⟨ho, hc, hm⟩, ht⟩ := List.forall_mem_cons.mp h
    rw [List.cons_append, subtracts, if_neg ho, if_neg hc, ih ht]
    simp [hm]

/-- A text without brackets and minus signs does not subtract. -/
theorem subtracts_eq_false (h : ∀ c ∈ text, c ≠ '(' ∧ c ≠ ')' ∧ c ≠ '-') (depth : Nat) :
    subtracts depth text = false := by
  have hsubtracts : subtracts depth (text ++ []) = subtracts depth [] := subtracts_append h depth
  rwa [List.append_nil] at hsubtracts

/-- What stands inside a bracket does not subtract. -/
theorem subtracts_argument {depth after : Nat}
    (h : Scanner.depthAfter? depth text = some after) :
    subtracts (depth + 1) (text ++ rest) = subtracts (after + 1) rest := by
  induction text generalizing depth with
  | nil =>
    obtain rfl := Option.some.inj h
    rfl
  | cons c text ih =>
    rw [Scanner.depthAfter?] at h
    rw [List.cons_append, subtracts]
    split at h
    · next ho => rw [if_pos ho, ih h]
    · next ho =>
      rw [if_neg ho]
      split at h
      · next hc =>
        split at h
        · cases h
        · next hd =>
          obtain ⟨outer, rfl⟩ := Nat.exists_eq_succ_of_ne_zero hd
          rw [if_pos hc, ← ih h]
          rfl
      · next hc =>
        rw [if_neg hc, ih h]
        simp

/-- Neither joins nor subtracts. -/
theorem isSingle_of_forall {text : String}
    (h : ∀ c ∈ text.toList, isApart c = true ∧ c ≠ '(' ∧ c ≠ ')' ∧ c ≠ '-') :
    isSingle text = true := by
  rw [isSingle, joins_eq_false fun c hc => (h c hc).1, subtracts_eq_false fun c hc => (h c hc).2]
  rfl

/-- The characters of words neither join nor subtract, and are no brackets. -/
theorem of_continuesWord {c : Char} (h : Scanner.continuesWord c = true) :
    isApart c = true ∧ c ≠ '(' ∧ c ≠ ')' ∧ c ≠ '-' := by
  have hn := Scanner.toNat_of_continuesWord h
  have hne : ∀ other : Char, other.toNat < 48 ∨ other.toNat = 92 → c ≠ other := by
    rintro other ho rfl
    omega
  refine ⟨?_, hne '(' (by decide), hne ')' (by decide), hne '-' (by decide)⟩
  simp [isApart, hne '+' (by decide), hne '*' (by decide), hne '\\' (by decide)]

/-- The symbol of a unit is a factor. -/
theorem isSingle_latexUnit {symbol : String}
    (h : ∀ c ∈ symbol.toList, Scanner.continuesWord c = true) :
    isSingle (latexUnit symbol) = true := by
  rw [isSingle, latexUnit, String.toList_ofList]
  generalize symbol.toList = characters at h ⊢
  induction characters with
  | nil => rfl
  | cons c tail ih =>
    obtain ⟨hc, ht⟩ := List.forall_mem_cons.mp h
    have hrest := ih ht
    rw [List.flatMap_cons]
    split
    · exact hrest
    · split
      · exact hrest
      · obtain ⟨hapart, hplain⟩ := of_continuesWord hc
        rw [joins_append (List.forall_mem_singleton.mpr hapart),
          subtracts_append (List.forall_mem_singleton.mpr hplain)]
        exact hrest

variable {figures : Int} {shown : String}

/-- A number without sign is a factor unless it is shown with a power of ten. -/
theorem isSingle_number {value : Decimal} (hf : value.isFinite = true)
    (hd : value.display figures = .ok shown)
    (hm : (Decimal.latexOfText shown).toList.head? ≠ some '-') :
    isSingle (Decimal.latexOfText shown) = true ↔ ¬ value.IsScaled figures := by
  cases value with
  | infinity s => cases hf
  | nan s signaling payload => cases hf
  | finite s c e =>
    by_cases hc : c = 0
    · have hzero : Decimal.isZero (.finite s c e) = true := by simpa [Decimal.isZero] using hc
      rw [Decimal.display, if_pos hzero] at hd
      obtain rfl := Except.ok.inj hd
      refine iff_of_true (by decide) fun h => ?_
      rw [h.isZero] at hzero
      cases hzero
    · have hzero := Decimal.isZero_finite_eq_false_iff (s := s) (e := e).mpr hc
      obtain ⟨m, x, hr, w, rfl, hpower⟩ := Decimal.exists_written_of_display hc hd
      cases hp : w.power with
      | none =>
        rw [w.latexOfText_none hp] at hm ⊢
        cases s with
        | true => exact absurd (by rw [String.toList_ofList]; rfl) hm
        | false =>
          refine iff_of_true (isSingle_of_forall fun c hc => ?_) ?_
          · rw [String.toList_ofList] at hc
            rcases Decimal.Written.mem_decimalText hc with h | rfl
            · exact of_continuesWord (by rw [Scanner.continuesWord, h, Bool.or_true, Bool.true_or])
            · decide
          · rintro ⟨-, other, y, hother, hscaled⟩
            obtain ⟨-, rfl, rfl⟩ := Decimal.finite.inj (Except.ok.inj (hr.symm.trans hother))
            exact hpower.mpr hscaled hp
      | some power =>
        obtain ⟨behind, htext⟩ := w.latexOfText_some hp s
        cases s with
        | true => exact absurd (by rw [htext]; rfl) hm
        | false =>
          refine iff_of_false ?_ (not_not.mpr ⟨hzero, m, x, hr, hpower.mp (by simp [hp])⟩)
          rw [isSingle, htext, joins_of_mem (by simp)]
          exact Bool.false_ne_true

variable {name : String} {argument : List Char}

/-- A lookup whose brackets match does not subtract. -/
theorem subtracts_lookup (hn : ∀ c ∈ name.toList, Scanner.continuesWord c = true)
    (hd : Scanner.depthAfter? 0 argument = some 0) (rest : List Char) :
    subtracts 0 ((name ++ "(" ++ String.ofList argument ++ ")").toList ++ rest) =
      subtracts 0 rest := by
  have hlist : (name ++ "(" ++ String.ofList argument ++ ")").toList ++ rest =
      name.toList ++ '(' :: (argument ++ ')' :: rest) := by
    simp [String.toList_append]
  rw [hlist, subtracts_append fun c hc => (of_continuesWord (hn c hc)).2, subtracts, if_pos rfl,
    subtracts_argument hd, subtracts, if_neg (by decide), if_pos rfl]

/-- A lookup starts with its name. -/
theorem head?_lookup_ne (hn : name ∈ Catalogue.lookupNames) (argument : List Char) :
    (name ++ "(" ++ String.ofList argument ++ ")").toList.head? ≠ some '-' := by
  have hword : ∀ c ∈ name.toList, Scanner.continuesWord c = true :=
    Scanner.continuesWord_of_callable (List.mem_append_right _ hn)
  obtain ⟨c, tail, hc⟩ : ∃ c tail, name.toList = c :: tail := by
    refine List.exists_cons_of_ne_nil fun hnil => ?_
    have hall : ∀ name ∈ Catalogue.lookupNames, name.toList ≠ [] := by decide
    exact hall name hn hnil
  have hfirst : (name ++ "(" ++ String.ofList argument ++ ")").toList.head? = some c := by
    simp [String.toList_append, hc]
  rw [hfirst]
  intro he
  obtain rfl := Option.some.inj he
  exact (of_continuesWord (hword '-' (by rw [hc]; exact List.mem_cons_self))).2.2.2 rfl

/-- A lookup is a factor unless it has a sign or joins in its argument. -/
theorem isSingle_lookup (hn : name ∈ Catalogue.lookupNames)
    (hd : Scanner.depthAfter? 0 argument = some 0) {text : String} {sign : List Char}
    (hs : sign = [] ∨ sign = ['-'])
    (ht : text.toList = sign ++ (name ++ "(" ++ String.ofList argument ++ ")").toList) :
    isSingle ("\\textrm\x7b" ++ text ++ "\x7d") = true ↔
      ¬ (text.toList.head? = some '-' ∨ joins text.toList = true) := by
  have hjoins : joins ("\\textrm\x7b" ++ text ++ "\x7d").toList = joins text.toList := by
    rw [String.toList_append, String.toList_append, List.append_assoc]
    exact joins_brace _
  have hsubtracts : subtracts 0 ("\\textrm\x7b" ++ text ++ "\x7d").toList =
      subtracts 0 (text.toList ++ ['\x7d']) := by
    rw [String.toList_append, String.toList_append, List.append_assoc, subtracts_append (by simp)]
    rfl
  rw [isSingle, hjoins, hsubtracts, ht]
  rcases hs with rfl | rfl
  · have hword := Scanner.continuesWord_of_callable (List.mem_append_right _ hn)
    have hhead := head?_lookup_ne hn argument
    rw [List.nil_append, subtracts_lookup hword hd]
    generalize (name ++ "(" ++ String.ofList argument ++ ")").toList = call at hhead ⊢
    simp [hhead, subtracts]
  · have htrue : subtracts 0 (['-'] ++ (name ++ "(" ++ String.ofList argument ++ ")").toList ++
        ['\x7d']) = true := rfl
    rw [htrue]
    simp

end Tree

namespace Lexeme

/-- Signs of sums, products or powers of ten show in the LaTeX text of a lexeme, or a minus sign in
front of a lookup. -/
inductive IsExposed (figures : Int) : Lexeme → Prop where
  /-- A number that is shown with a power of ten. -/
  | number {text : String} {value : Quantity} (h : value.value.IsScaled figures) :
    IsExposed figures (.number text value)
  /-- A lookup with a sign. -/
  | signed {text : String} {value : Quantity} (h : text.toList.head? = some '-') :
    IsExposed figures (.lookup text value)
  /-- A lookup with such a sign in its argument. -/
  | argument {text : String} {value : Quantity} (h : Tree.joins text.toList = true) :
    IsExposed figures (.lookup text value)

variable {figures : Int} {text : String} {value : Quantity}

theorem isExposed_number_iff :
    (Lexeme.number text value).IsExposed figures ↔ value.value.IsScaled figures :=
  ⟨fun h => by cases h with | number h => exact h, .number⟩

theorem isExposed_lookup_iff : (Lexeme.lookup text value).IsExposed figures ↔
    text.toList.head? = some '-' ∨ Tree.joins text.toList = true := by
  constructor
  · intro h
    cases h with
    | signed h => exact .inl h
    | argument h => exact .inr h
  · rintro (h | h)
    · exact .signed h
    · exact .argument h

end Lexeme

end UnitCalculator
