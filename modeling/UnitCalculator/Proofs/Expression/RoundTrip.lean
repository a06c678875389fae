import UnitCalculator.Proofs.Expression.Name
import UnitCalculator.Proofs.Expression.NamesApart
import UnitCalculator.Proofs.Expression.SignsApart
import UnitCalculator.Proofs.Expression.UnitsApart

/-!
# Compiling the text of an equation

The text of an equation is compiled to an equation alike exactly if its tree is legible. Such
equations assign the same variable and agree on their values.
-/

namespace UnitCalculator

variable {leaf : Bool} {raw mid out : List Token} {last : Lexeme} {previous : Option Lexeme}

/-- Tokens that are completed on their own are completed if nothing follows. -/
theorem Completes.closed (h : Completes leaf raw mid out last)
    (hp : previous = none ∨ previous = some (.operator .assign)) :
    Folds previous raw mid ∧ insertImplied previous mid = out := by
  have hstart : StartsOperand previous := by
    rcases hp with rfl | rfl
    · rfl
    · rfl
  have hsign : AcceptsSign leaf previous raw := by
    intro _
    rcases hp with rfl | rfl
    · exact ⟨rfl, fun _ he => by cases he⟩
    · exact ⟨rfl, fun _ he => by cases he⟩
  have hfolds := h.folds hstart hsign (.nil (some last))
  have hinserts := h.inserts [] hstart
  rw [List.append_nil, List.append_nil] at hfolds
  rw [List.append_nil, insertImplied, List.append_nil] at hinserts
  exact ⟨hfolds, hinserts⟩

namespace Tree

open Scanner

variable {catalogue : Catalogue} {known : List String} {source : String} {native : Lexeme → Prop}
variable {lexemes : List Lexeme} {tree : Tree} {position : Nat}

/-- The text of a legible tree is read as a tree alike. -/
theorem WrittenAs.exists_reads (h : tree.WrittenAs native lexemes)
    (hn : ∀ lexeme, native lexeme → lexeme.Native catalogue known)
    (hp : previous = none ∨ previous = some (.operator .assign))
    (hl : tree.isLegible = true) (source : String) (position : Nat) :
    ∃ other, other.Reads catalogue known source position previous tree.text.toList ∧
      tree.Alike other := by
  obtain ⟨hnames, hsigns, hunits⟩ := isLegible_iff.mp hl
  have hpasses : Passes catalogue known source tree.text.toList [] lexemes :=
    h.passes hn hnames (follows_nil tree) fun _ => rfl
  obtain ⟨raw, hscan, hraw⟩ := (hpasses.scans position lexemes).mpr rfl
  obtain ⟨mid, out, last, hc, -, hread⟩ := h.completesTo hn hsigns raw hraw
  obtain ⟨hf, hi⟩ := hc.closed hp
  obtain ⟨other, hspells, ha⟩ := hread.exists_spells hunits
  exact ⟨other, ⟨raw, mid, hscan, hf, hi ▸ hspells.mono hread.one_le_tightness⟩, ha⟩

/-- A tree is legible if its text is read as a tree alike. -/
theorem WrittenAs.isLegible_of_reads {other : Tree} (h : tree.WrittenAs native lexemes)
    (hn : ∀ lexeme, native lexeme → lexeme.Native catalogue known)
    (hp : previous = none ∨ previous = some (.operator .assign))
    (hr : other.Reads catalogue known source position previous tree.text.toList)
    (ha : tree.Alike other) : tree.isLegible = true := by
  have hnames := h.namesApart_of_reads hn hr ha
  obtain ⟨written, hother⟩ := hr.exists_writtenAs hp
  obtain ⟨raw, folded, hscan, hf, hspells⟩ := hr
  have hpasses : Passes catalogue known source tree.text.toList [] lexemes :=
    h.passes hn hnames (follows_nil tree) fun _ => rfl
  have hraw := (hpasses.scans position _).mp ⟨raw, hscan, rfl⟩
  have hsigns := (hraw ▸ h).signsApart_of_folds hn
    (fun token ht => (native_of_scan hscan token ht).1) hf hspells ha
  obtain ⟨mid, out, last, hc, -, hread⟩ := h.completesTo hn hsigns raw hraw
  obtain ⟨hf', hi⟩ := hc.closed hp
  obtain rfl : folded = mid :=
    Except.ok.inj ((foldNegation_of_folds hf).symm.trans (foldNegation_of_folds hf'))
  have hquotients : other.marks Lexeme.quotient? = tree.quotients := by
    rw [hspells.marks_eq rfl rfl, hi, hread.marks_quotient]
  exact isLegible_iff.mpr ⟨hnames, hsigns, ha.unitsApart hquotients hother.every_unitsAround⟩

/-- No sign of assignment stands between operands. -/
theorem not_mem_joint {op : Operator} (hop : op ≠ .assign) (left right : Tree) :
    '=' ∉ (joint op left right).toList := by
  cases op with
  | assign => exact absurd rfl hop
  | impliedMultiply =>
    rw [joint]
    split
    · decide
    · decide
  | impliedDivide => exact (by decide : '=' ∉ "/".toList)
  | power => exact (by decide : '=' ∉ "^".toList)
  | add => exact (by decide : '=' ∉ (" " ++ "+" ++ " ").toList)
  | subtract => exact (by decide : '=' ∉ (" " ++ "-" ++ " ").toList)
  | multiply => exact (by decide : '=' ∉ (" " ++ "*" ++ " ").toList)
  | divide => exact (by decide : '=' ∉ (" " ++ "/" ++ " ").toList)

/-- No sign of assignment is added with brackets. -/
theorem not_mem_bracketed {text : String} (h : '=' ∉ text.toList) (needed : Bool) :
    '=' ∉ (bracketed needed text).toList := by
  cases needed with
  | false => exact h
  | true => simpa [toList_bracketed] using h

/-- A tree with lexemes without a sign of assignment has a text without one. -/
theorem WrittenAs.not_mem_text (h : tree.WrittenAs native lexemes)
    (hn : ∀ lexeme, native lexeme → lexeme.Native catalogue known)
    (hc : ∀ lexeme, native lexeme → '=' ∉ lexeme.text.toList) : '=' ∉ tree.text.toList := by
  induction h with
  | leaf p hs h => exact hc _ h
  | signed p h hneg =>
    rw [text, (Lexeme.text_of_negated? hneg).1, String.toList_append]
    simpa using hc _ h
  | @call name operand lexemes p h hw ih =>
    have hname : '=' ∉ name.toList := hc _ h
    simp [text, String.toList_append, hname, ih]
  | @negation right lexemes p q h ih =>
    rw [text_negation, String.toList_append]
    simpa using not_mem_bracketed ih _
  | @binary op left right first second p hop hl hr hu ihl ihr =>
    rw [text_binary hop (hl.isNegation hn), String.toList_append, String.toList_append]
    simp [not_mem_bracketed ihl, not_mem_bracketed ihr, not_mem_joint hop]

/-- A space in front of a text is passed over. -/
theorem reads_space {text : List Char} :
    tree.Reads catalogue known source position previous (' ' :: text) ↔
      tree.Reads catalogue known source (position + 1) previous text := by
  simp only [Reads, scan_space]

/-- A sign of assignment changes nothing about how legible an expression is. -/
theorem isLegible_assignment (name : String) (p q : Nat) (tree : Tree) :
    (Tree.binary .assign p (.leaf ⟨.reference name, q⟩) tree).isLegible = tree.isLegible := by
  have hjoin : joinable .assign (.leaf ⟨.reference name, q⟩) tree = true := rfl
  rw [isLegible, every, every, hjoin, Bool.true_and, Bool.and_true, isLegible]

/-- Assignments of one variable are alike if their expressions are. -/
theorem alike_assignment_iff {name : String} {p q p' q' : Nat} {other : Tree} :
    (Tree.binary .assign p (.leaf ⟨.reference name, q⟩) tree).Alike
      (.binary .assign p' (.leaf ⟨.reference name, q'⟩) other) ↔ tree.Alike other := by
  refine ⟨fun h => ?_, .assignment name p q p' q'⟩
  cases h with
  | binary p q hop => exact absurd rfl hop
  | assignment _ _ _ _ _ h => exact h

end Tree

namespace Equation

variable {catalogue : Catalogue} {known : List String} {source : String} {e : Equation}

/-- The text of a compiled expression is compiled to an expression alike exactly if it is
legible. -/
theorem compile_text_expression (hs : '=' ∉ source.toList)
    (h : compile catalogue known source = .ok e) :
    e.root.isLegible = true ↔
      ∃ again, compile catalogue known e.text = .ok again ∧ e.root.Alike again.root := by
  obtain ⟨-, hreads⟩ := (compile_expression hs).mp h
  obtain ⟨lexemes, hw⟩ := hreads.exists_writtenAs (.inl rfl)
  have htext : '=' ∉ e.text.toList :=
    hw.not_mem_text (fun lexeme hl => hl.1) fun lexeme hl he => hs (hl.2 '=' he)
  constructor
  · intro hl
    obtain ⟨other, hother, ha⟩ :=
      hw.exists_reads (fun lexeme hl => hl.1) (.inl rfl) hl e.text 0
    exact ⟨⟨other, e.text⟩, (compile_expression htext).mpr ⟨rfl, hother⟩, ha⟩
  · rintro ⟨again, hagain, ha⟩
    obtain ⟨-, hother⟩ := (compile_expression htext).mp hagain
    exact hw.isLegible_of_reads (fun lexeme hl => hl.1) (.inl rfl) hother ha

/-- The text of a compiled assignment is compiled to an assignment alike exactly if it is
legible. -/
theorem compile_text_assignment {before after : List Char}
    (hs : source.toList = before ++ '=' :: after) (hb : '=' ∉ before)
    (h : compile catalogue known source = .ok e) :
    e.root.isLegible = true ↔
      ∃ again, compile catalogue known e.text = .ok again ∧ e.root.Alike again.root := by
  obtain ⟨-, hvalid, tree, hreads, hroot⟩ := (compile_assignment hs hb).mp h
  obtain ⟨lexemes, hw⟩ := hreads.exists_writtenAs (.inr rfl)
  set name := String.ofList (Text.trim before) with hname
  have hword := VariableName.continuesWord_of_isValid hvalid
  have htext : e.text.toList = (name.toList ++ [' ']) ++ '=' :: (' ' :: tree.text.toList) := by
    have hjoined : e.text = name ++ " = " ++ tree.text := by rw [text, hroot]; rfl
    simp [hjoined, String.toList_append]
  have hnone : '=' ∉ name.toList ++ [' '] := by
    intro hmem
    rcases List.mem_append.mp hmem with hmem | hmem
    · exact absurd (hword '=' hmem) (by decide)
    · exact absurd hmem (by decide)
  have htrim : String.ofList (Text.trim (name.toList ++ [' '])) = name := by
    rw [Text.trim_space fun c hc => Scanner.isBlank_of_continuesWord (hword c hc),
      String.ofList_toList]
  have hcompile : ∀ again : Equation, compile catalogue known e.text = .ok again ↔ _ :=
    fun again => compile_assignment htext hnone
  simp only [htrim, Tree.reads_space] at hcompile
  rw [hroot, Tree.isLegible_assignment]
  constructor
  · intro hl
    obtain ⟨other, hother, ha⟩ := hw.exists_reads (fun lexeme hl => hl.1) (.inr rfl) hl
      (String.ofList (' ' :: tree.text.toList)) ((name.toList ++ [' ']).length + 1 + 1)
    exact ⟨⟨_, e.text⟩, (hcompile _).mpr ⟨rfl, hvalid, other, hother, rfl⟩,
      Tree.alike_assignment_iff.mpr ha⟩
  · rintro ⟨again, hagain, ha⟩
    obtain ⟨-, -, other, hother, hagain⟩ := (hcompile again).mp hagain
    rw [hagain] at ha
    exact hw.isLegible_of_reads (fun lexeme hl => hl.1) (.inr rfl) hother
      (Tree.alike_assignment_iff.mp ha)

/-- The text of a compiled equation is compiled to an equation with a tree alike exactly if the tree
is legible. Such an equation assigns the same variable and agrees with the first one on its value,
whatever the variables are: both fail, or their values differ in the sign of a zero at most. -/
theorem compile_text_spec (h : compile catalogue known source = .ok e) :
    (e.root.isLegible = true ↔
      ∃ again, compile catalogue known e.text = .ok again ∧ e.root.Alike again.root) ∧
    (e.root.isLegible = true →
      ∃ again, compile catalogue known e.text = .ok again ∧ again.target? = e.target? ∧
        ∀ bindings, Agree Quantity.Alike (e.evaluate bindings) (again.evaluate bindings)) := by
  have hiff : e.root.isLegible = true ↔
      ∃ again, compile catalogue known e.text = .ok again ∧ e.root.Alike again.root := by
    by_cases hs : '=' ∈ source.toList
    · obtain ⟨before, after, hsplit, hb⟩ := List.eq_append_cons_of_mem hs
      exact compile_text_assignment hsplit hb h
    · exact compile_text_expression hs h
  refine ⟨hiff, fun hl => ?_⟩
  obtain ⟨again, hagain, ha⟩ := hiff.mp hl
  exact ⟨again, hagain, target?_eq_of_alike ha, agree_evaluate ha⟩

/-- An assignment with a sign, an implied product and a quotient of units is compiled again. -/
theorem compile_text_spec_assignment : ∃ e again,
    compile .standard ["y"] "v = -2 y^-3 m/s" = .ok e ∧ e.root.isLegible = true ∧
    compile .standard ["y"] e.text = .ok again ∧ again.target? = e.target? ∧
    ∀ bindings, Agree Quantity.Alike (e.evaluate bindings) (again.evaluate bindings) := by
  have hlegible : (compile .standard ["y"] "v = -2 y^-3 m/s").toOption.map (·.root.isLegible) =
      some true := by decide +kernel
  cases h : compile .standard ["y"] "v = -2 y^-3 m/s" with
  | error failure =>
    rw [h] at hlegible
    cases hlegible
  | ok e =>
    rw [h] at hlegible
    have hl : e.root.isLegible = true := Option.some.inj hlegible
    obtain ⟨again, hagain, htarget, hvalues⟩ := (compile_text_spec h).2 hl
    exact ⟨e, again, rfl, hl, hagain, htarget, hvalues⟩

/-- The sign of a factor becomes a difference in the text. -/
example : (compile .standard [] "2 (-10)").toOption.map (fun e => (e.text, e.root.isLegible)) =
    some ("2 -10", false) := by decide +kernel

/-- The text of a number with two signs is not compiled at all. -/
example : (compile .standard [] "-(-7)").toOption.map
    (fun e => (e.text, (compile .standard [] e.text).toOption.isSome)) =
      some ("--7", false) := by decide +kernel

end Equation

end UnitCalculator
