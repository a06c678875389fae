import UnitCalculator.Proofs.Failure
import UnitCalculator.Reference.Formula

/-!
# How often a formula counts an element

An element counts as often as its own count, the counts of the groups around it and the count of the
whole say. Reading from right to left keeps one number at a time. An element or a closing bracket
takes it, but an opening bracket lets it pass: a number directly behind an opening bracket counts
what stands to the left of the bracket.
-/

namespace UnitCalculator.Reference

/-- Elements with their multiplicities, all of them multiplied. -/
def scaled (count : Nat) (shares : List (String × Nat)) : List (String × Nat) :=
  shares.map fun share => (share.1, count * share.2)

/-- Nothing is left of nothing. -/
@[simp] theorem scaled_nil (count : Nat) : scaled count [] = [] := rfl

/-- A multiplied list of elements starts with its first element multiplied. -/
@[simp] theorem scaled_cons (count : Nat) (share : String × Nat) (shares : List (String × Nat)) :
    scaled count (share :: shares) = (share.1, count * share.2) :: scaled count shares := rfl

/-- Two lists of elements are multiplied one by one. -/
@[simp] theorem scaled_append (count : Nat) (first second : List (String × Nat)) :
    scaled count (first ++ second) = scaled count first ++ scaled count second := List.map_append

/-- Elements multiplied twice. -/
@[simp] theorem scaled_scaled (outer inner : Nat) (shares : List (String × Nat)) :
    scaled outer (scaled inner shares) = scaled (outer * inner) shares := by
  rw [scaled, scaled, scaled, List.map_map]
  exact List.map_congr_left fun share _ => by simp [Nat.mul_assoc]

namespace Formula

mutual

/-- The elements of a formula from left to right, each with the product of its own count and the
counts of the groups around it. -/
def multiplicities : Formula → List (String × Nat)
  | .element symbol count => [(symbol, count)]
  | .group components count => scaled count (multiplicitiesOf components)

/-- The elements of components from left to right. -/
def multiplicitiesOf : List Formula → List (String × Nat)
  | [] => []
  | component :: components => component.multiplicities ++ multiplicitiesOf components

end

/-- The number that a run of digits spells. -/
def countValue (digits : String) : Nat := (Text.digitsValue? digits.toList).getD 0

/-- A number that is not too long is the one that its digits spell. -/
theorem countOf_eq_ok_iff {digits : String} {count : Nat} :
    countOf digits = .ok count ↔
      digits.length ≤ Text.numeralDigits ∧ countValue digits = count := by
  rw [countOf]
  split
  · next h => exact ⟨nofun, fun hc => absurd hc.1 (Nat.not_le.mpr h)⟩
  · next h => exact ⟨fun hc => ⟨Nat.not_lt.mp h, Except.ok.inj hc⟩, fun hc => congrArg _ hc.2⟩

/-- The number that tokens start with, one if they start with something else. -/
def leadingCount : List FormulaToken → Nat
  | .number digits :: _ => countValue digits
  | _ => 1

/-- The number that is kept when tokens have been read from right to left. -/
def keptCount : List FormulaToken → Nat
  | .number digits :: _ => countValue digits
  | .openBracket _ :: right => keptCount right
  | _ => 1

section

variable (count : List FormulaToken → Nat)

/-- The product of the counts behind the closing brackets that close none of the brackets opened in
these tokens, nor of so many more that were opened before them. -/
def enclosingCount : Nat → List FormulaToken → Nat
  | _, [] => 1
  | 0, .closeBracket _ :: right => count right * enclosingCount 0 right
  | depth + 1, .closeBracket _ :: right => enclosingCount depth right
  | depth, .openBracket _ :: right => enclosingCount (depth + 1) right
  | depth, .element _ :: right => enclosingCount depth right
  | depth, .number _ :: right => enclosingCount depth right

/-- The elements among tokens, each with the product of the count behind it and the counts behind
the closing brackets around it. -/
def shares : List FormulaToken → List (String × Nat)
  | [] => []
  | .element symbol :: right => (symbol, count right * enclosingCount count 0 right) :: shares right
  | _ :: right => shares right

end

namespace Progress

/-- The product of the counts of open groups. -/
def enclosing : List OpenGroup → Nat
  | [] => 1
  | inner :: groups => inner.count * enclosing groups

/-- The elements outside the innermost open group, each multiplied by the open groups around it. -/
def outerShares : List OpenGroup → List (String × Nat)
  | [] => []
  | inner :: groups =>
    scaled (enclosing groups) (multiplicitiesOf inner.outer) ++ outerShares groups

/-- The elements read so far, each multiplied by the open groups around it. -/
def shares (state : Progress) : List (String × Nat) :=
  scaled (enclosing state.groups) (multiplicitiesOf state.components) ++ outerShares state.groups

/-- What has been read of tokens: the number kept, the counts of the groups that are still open and
the elements are those of the tokens. -/
structure Reads (state : Progress) (tokens : List FormulaToken) : Prop where
  count : state.count = keptCount tokens
  groups : ∀ depth, enclosing (state.groups.drop depth) = enclosingCount keptCount depth tokens
  elements : state.shares = Formula.shares keptCount tokens

/-- Nothing has been read. -/
theorem reads_nil : Reads ⟨[], [], 1⟩ [] where
  count := rfl
  groups depth := by rw [List.drop_nil]; rfl
  elements := rfl

/-- Every token that is read adds to the account. -/
theorem Reads.step {state next : Progress} {right : List FormulaToken} (hr : state.Reads right)
    {token : FormulaToken} (h : state.step token = .ok next) : next.Reads (token :: right) := by
  obtain ⟨components, groups, count⟩ := state
  obtain ⟨hcount, hgroups, helements⟩ := hr
  cases token with
  | number digits =>
    obtain ⟨value, hv, h⟩ := bind_eq_ok_iff.mp h
    obtain rfl := pure_eq_ok_iff.mp h
    exact ⟨(countOf_eq_ok_iff.mp hv).2.symm, fun depth => by cases depth <;> exact hgroups _,
      helements⟩
  | element symbol =>
    obtain rfl := Except.ok.inj h
    refine ⟨rfl, fun depth => by cases depth <;> exact hgroups _, ?_⟩
    have henclosing : enclosing groups = enclosingCount keptCount 0 right := hgroups 0
    simp only [shares, multiplicitiesOf, multiplicities, List.cons_append, List.nil_append,
      scaled_cons, Formula.shares] at helements ⊢
    rw [helements, ← hcount, ← henclosing, Nat.mul_comm]
  | closeBracket sign =>
    obtain rfl := Except.ok.inj h
    refine ⟨rfl, fun depth => ?_, helements⟩
    cases depth with
    | zero =>
      rw [enclosingCount, ← hcount, ← hgroups 0]
      rfl
    | succ depth => exact hgroups depth
  | openBracket sign =>
    cases groups with
    | nil => cases h
    | cons inner groups =>
      obtain rfl := Except.ok.inj h
      refine ⟨hcount, fun depth => ?_, ?_⟩
      · rw [enclosingCount]
        exact hgroups (depth + 1)
      · have henclosing : enclosing (inner :: groups) = inner.count * enclosing groups := rfl
        simp only [shares, outerShares, multiplicitiesOf, multiplicities, scaled_append,
          scaled_scaled, henclosing, List.append_assoc, Formula.shares] at helements ⊢
        rw [Nat.mul_comm, helements]

/-- Tokens that are read from right to left make up the account of all of them. -/
theorem Reads.run {state final : Progress} {right : List FormulaToken} (hr : state.Reads right)
    {left : List FormulaToken} (h : state.run left = .ok final) :
    final.Reads (left.reverse ++ right) := by
  induction left generalizing state right with
  | nil =>
    obtain rfl := Except.ok.inj h
    exact hr
  | cons token left ih =>
    obtain ⟨next, hs, h⟩ := bind_eq_ok_iff.mp h
    rw [List.reverse_cons, List.append_assoc, List.singleton_append]
    exact ih (hr.step hs) h

/-- Tokens are read one after the other. -/
theorem run_append_eq_ok_iff {state final : Progress} {first second : List FormulaToken} :
    state.run (first ++ second) = .ok final ↔
      ∃ middle : Progress, state.run first = .ok middle ∧ middle.run second = .ok final := by
  induction first generalizing state with
  | nil => exact ⟨fun h => ⟨state, rfl, h⟩, fun ⟨_, hf, h⟩ => Except.ok.inj hf ▸ h⟩
  | cons token first ih =>
    rw [List.cons_append, run, run, bind_eq_ok_iff]
    constructor
    · rintro ⟨next, hs, h⟩
      obtain ⟨middle, hf, h⟩ := ih.mp h
      exact ⟨middle, bind_eq_ok_iff.mpr ⟨next, hs, hf⟩, h⟩
    · rintro ⟨middle, hf, h⟩
      obtain ⟨next, hs, hf⟩ := bind_eq_ok_iff.mp hf
      exact ⟨next, hs, ih.mpr ⟨middle, hf, h⟩⟩

end Progress

/-- A formula counts its elements by the numbers that were kept at them, at the closing brackets
around them and at the start. -/
theorem multiplicities_ofTokens {tokens : List FormulaToken} {formula : Formula}
    (h : ofTokens tokens = .ok formula) :
    formula.multiplicities = scaled (keptCount tokens) (shares keptCount tokens) := by
  obtain ⟨final, hrun, h⟩ := bind_eq_ok_iff.mp h
  have hr := Progress.reads_nil.run hrun
  rw [List.reverse_reverse, List.append_nil] at hr
  split at h
  · next hempty =>
    obtain rfl := Except.ok.inj h
    have hs := hr.elements
    rw [Progress.shares, List.isEmpty_iff.mp hempty] at hs
    rw [multiplicities, hr.count, ← hs]
    simp [Progress.enclosing, Progress.outerShares]
  · cases h

/-- Tokens that change what has been read like others do can stand in their place. -/
theorem ofTokens_replace {left before after right : List FormulaToken} {formula : Formula}
    (hr : ∀ state final : Progress, state.run before.reverse = .ok final →
      state.run after.reverse = .ok final)
    (h : ofTokens (left ++ before ++ right) = .ok formula) :
    ofTokens (left ++ after ++ right) = .ok formula := by
  obtain ⟨final, hrun, h⟩ := bind_eq_ok_iff.mp h
  refine bind_eq_ok_iff.mpr ⟨final, ?_, h⟩
  simp only [List.reverse_append, Progress.run_append_eq_ok_iff] at hrun ⊢
  obtain ⟨behind, hright, middle, hbefore, hleft⟩ := hrun
  exact ⟨behind, hright, middle, hr _ _ hbefore, hleft⟩

/-- A number directly behind an opening bracket is read as if it stood in front of the bracket. -/
theorem ofTokens_number_openBracket {left right : List FormulaToken} {sign : Char}
    {digits : String} {formula : Formula}
    (h : ofTokens (left ++ [.openBracket sign, .number digits] ++ right) = .ok formula) :
    ofTokens (left ++ [.number digits, .openBracket sign] ++ right) = .ok formula := by
  refine ofTokens_replace (fun state final hrun => ?_) h
  obtain ⟨numbered, hn, hrun⟩ := bind_eq_ok_iff.mp hrun
  obtain ⟨count, hc, hn⟩ := bind_eq_ok_iff.mp hn
  obtain rfl := pure_eq_ok_iff.mp hn
  obtain ⟨opened, ho, hrun⟩ := bind_eq_ok_iff.mp hrun
  obtain ⟨components, groups, kept⟩ := state
  cases groups with
  | nil => cases ho
  | cons inner groups =>
    obtain rfl := Except.ok.inj ho
    refine bind_eq_ok_iff.mpr ⟨_, rfl, bind_eq_ok_iff.mpr ⟨_, ?_, hrun⟩⟩
    exact bind_eq_ok_iff.mpr ⟨count, hc, rfl⟩

/-- A number directly behind another number can be left out. -/
theorem ofTokens_number_number {left right : List FormulaToken} {digits ignored : String}
    {formula : Formula}
    (h : ofTokens (left ++ [.number digits, .number ignored] ++ right) = .ok formula) :
    ofTokens (left ++ [.number digits] ++ right) = .ok formula := by
  refine ofTokens_replace (fun state final hrun => ?_) h
  obtain ⟨numbered, hn, hrun⟩ := bind_eq_ok_iff.mp hrun
  obtain ⟨count, -, hn⟩ := bind_eq_ok_iff.mp hn
  obtain rfl := pure_eq_ok_iff.mp hn
  exact hrun

/-- No number stands directly behind an opening bracket. -/
def IsTight (tokens : List FormulaToken) : Prop :=
  ∀ left sign digits right, tokens ≠ left ++ [.openBracket sign, .number digits] ++ right

/-- Tokens behind a token of tight ones are tight. -/
theorem IsTight.tail {token : FormulaToken} {tokens : List FormulaToken}
    (h : IsTight (token :: tokens)) : IsTight tokens :=
  fun left sign digits right ht => h (token :: left) sign digits right (congrArg _ ht)

/-- The number kept behind tight tokens is the one that they start with. -/
theorem IsTight.keptCount_eq {tokens : List FormulaToken} (h : IsTight tokens) :
    keptCount tokens = leadingCount tokens := by
  induction tokens with
  | nil => rfl
  | cons token right ih =>
    cases token with
    | openBracket sign =>
      -- what is kept is the number that the tokens behind the bracket start with, and there is none
      rw [keptCount, ih h.tail]
      cases right with
      | nil => rfl
      | cons next right =>
        cases next with
        | number digits => exact absurd rfl (h [] sign digits right)
        | _ => rfl
    | _ => rfl

/-- The counts behind closing brackets among tight tokens are the numbers directly behind them. -/
theorem IsTight.enclosingCount_eq {tokens : List FormulaToken} (h : IsTight tokens) (depth : Nat) :
    enclosingCount keptCount depth tokens = enclosingCount leadingCount depth tokens := by
  induction tokens generalizing depth with
  | nil => rfl
  | cons token right ih =>
    cases token with
    | number digits => cases depth <;> exact ih h.tail _
    | element symbol => cases depth <;> exact ih h.tail _
    | openBracket sign => cases depth <;> exact ih h.tail _
    | closeBracket sign =>
      cases depth with
      | zero => rw [enclosingCount, enclosingCount, h.tail.keptCount_eq, ih h.tail]
      | succ depth => exact ih h.tail depth

/-- The elements among tight tokens count as the numbers directly behind them say. -/
theorem IsTight.shares_eq {tokens : List FormulaToken} (h : IsTight tokens) :
    shares keptCount tokens = shares leadingCount tokens := by
  induction tokens with
  | nil => rfl
  | cons token right ih =>
    cases token with
    | element symbol =>
      rw [shares, shares, h.tail.keptCount_eq, h.tail.enclosingCount_eq, ih h.tail]
    | _ => exact ih h.tail

/-- Every element of a formula counts as often as the number directly behind it, the numbers
directly behind the closing brackets around it and the number at the start say, unless a number
stands directly behind an opening bracket. Such a number counts what it would count in front of the
bracket, and a number directly behind another one counts nothing. -/
theorem multiplicities_ofTokens_spec {tokens : List FormulaToken} {formula : Formula}
    (h : ofTokens tokens = .ok formula) :
    formula.multiplicities = scaled (keptCount tokens) (shares keptCount tokens) ∧
    (IsTight tokens →
      formula.multiplicities = scaled (leadingCount tokens) (shares leadingCount tokens)) ∧
    (∀ left sign digits right, tokens = left ++ [.openBracket sign, .number digits] ++ right →
      ofTokens (left ++ [.number digits, .openBracket sign] ++ right) = .ok formula) ∧
    (∀ left digits ignored right,
      tokens = left ++ [.number digits, .number ignored] ++ right →
        ofTokens (left ++ [.number digits] ++ right) = .ok formula) := by
  refine ⟨multiplicities_ofTokens h, fun ht => ?_, ?_, ?_⟩
  · rw [multiplicities_ofTokens h, ht.keptCount_eq, ht.shares_eq]
  · rintro left sign digits right rfl
    exact ofTokens_number_openBracket h
  · rintro left digits ignored right rfl
    exact ofTokens_number_number h

/-- A number behind an opening bracket counts the element in front of the bracket. -/
theorem multiplicities_ofTokens_spec_leaking :
    ∃ formula,
      ofTokens [.element "H", .openBracket '(', .number "2", .element "O", .closeBracket ')'] =
        .ok formula ∧
      formula.multiplicities = [("H", 2), ("O", 1)] ∧
      ofTokens [.element "H", .number "2", .openBracket '(', .element "O", .closeBracket ')'] =
        .ok formula := by
  have h : ofTokens
      [.element "H", .openBracket '(', .number "2", .element "O", .closeBracket ')'] =
        .ok (.group [.element "H" 2, .group [.element "O" 1] 1] 1) := by
    rfl
  obtain ⟨hm, -, hb, -⟩ := multiplicities_ofTokens_spec h
  exact ⟨_, h, hm.trans (by decide), hb [.element "H"] '(' "2" _ rfl⟩

end Formula

end UnitCalculator.Reference
