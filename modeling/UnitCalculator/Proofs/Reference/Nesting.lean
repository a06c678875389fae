import UnitCalculator.Proofs.Reference.Multiplicity

/-!
# How a formula nests

Formula tokens are balanced if every bracket they close is one that they opened, of either kind, and
none stays open. Balanced tokens become a formula with the elements in their order and a group for
every pair of brackets; other tokens leave a bracket over. The groups that are still open can also
be kept on the output, where a second stack marks them. An opening bracket then moves nodes from the
output into the group marked last until that group is on top, and the group is always there.
-/

namespace UnitCalculator.Reference

namespace FormulaToken

/-- Number of brackets that are open behind a token, `none` if it closes one that is not open. -/
def depthBehind? (depth : Nat) : FormulaToken → Option Nat
  | .openBracket _ => some (depth + 1)
  | .closeBracket _ => if depth = 0 then none else some (depth - 1)
  | _ => some depth

/-- Number of brackets that are open behind tokens, `none` if they close one that is not open. -/
def depthAfter? (depth : Nat) (tokens : List FormulaToken) : Option Nat :=
  tokens.foldlM depthBehind? depth

/-- Every bracket that tokens close is one that they opened, of either kind, and none stays
open. -/
def Balanced (tokens : List FormulaToken) : Prop := depthAfter? 0 tokens = some 0

instance (tokens : List FormulaToken) : Decidable (Balanced tokens) :=
  inferInstanceAs (Decidable (_ = _))

/-- The element that a token names. -/
def symbol? : FormulaToken → Option String
  | .element symbol => some symbol
  | _ => none

/-- Decimal digits, at least one and no more than a number text may have. -/
def IsOrdinary (digits : String) : Prop :=
  digits ≠ "" ∧ digits.toList.all Text.isDecimalDigit = true ∧
    digits.length ≤ Text.numeralDigits

/-- Counting goes on behind the first tokens. -/
theorem depthAfter?_append (depth : Nat) (first second : List FormulaToken) :
    depthAfter? depth (first ++ second) =
      (depthAfter? depth first).bind (depthAfter? · second) := List.foldlM_append

end FormulaToken

namespace Formula

open FormulaToken (depthAfter? depthAfter?_append symbol? IsOrdinary)

/-- Components as tokens nest: elements in their order and a group for every pair of brackets, of
either kind, whatever the counts. -/
inductive Nested : List FormulaToken → List Formula → Prop
  | nil : Nested [] []
  | number {tokens : List FormulaToken} {components : List Formula} (digits : String)
    (rest : Nested tokens components) : Nested (.number digits :: tokens) components
  | element {tokens : List FormulaToken} {components : List Formula} (symbol : String)
    (count : Nat) (rest : Nested tokens components) :
    Nested (.element symbol :: tokens) (.element symbol count :: components)
  | group {inner tokens : List FormulaToken} {members components : List Formula}
    (opening closing : Char) (count : Nat) (within : Nested inner members)
    (rest : Nested tokens components) :
    Nested (.openBracket opening :: inner ++ .closeBracket closing :: tokens)
      (.group members count :: components)

section

variable {tokens : List FormulaToken} {components : List Formula}

/-- What nests leaves the brackets around it open. -/
theorem Nested.depthAfter?_eq (h : Nested tokens components) (depth : Nat) :
    depthAfter? depth tokens = some depth := by
  induction h generalizing depth with
  | nil => rfl
  | number digits rest ih => exact ih depth
  | element symbol count rest ih => exact ih depth
  | group opening closing count within rest ihWithin ihRest =>
    rw [List.cons_append]
    change depthAfter? (depth + 1) (_ ++ _) = _
    rw [depthAfter?_append, ihWithin (depth + 1)]
    exact ihRest depth

/-- Elements keep their order where they nest. -/
theorem Nested.symbols (h : Nested tokens components) :
    (multiplicitiesOf components).map Prod.fst = tokens.filterMap symbol? := by
  induction h with
  | nil => rfl
  | number digits rest ih => exact ih
  | element symbol count rest ih =>
    rw [multiplicitiesOf, List.map_append, ih]
    rfl
  | group opening closing count within rest ihWithin ihRest =>
    have hcount : ∀ shares : List (String × Nat),
        (scaled count shares).map Prod.fst = shares.map Prod.fst := fun shares => by
      rw [scaled, List.map_map]
      rfl
    rw [multiplicitiesOf, multiplicities, List.map_append, hcount, ihWithin, ihRest]
    simp [List.filterMap_cons, symbol?]

/-- What has been read of tokens: those in front of the first closing bracket that closes nothing
nest into the components, and those up to the next such bracket into the components around the open
group. -/
inductive Progress.Nests : List Formula → List OpenGroup → List FormulaToken → Prop
  | whole {tokens : List FormulaToken} {components : List Formula} (h : Nested tokens components) :
    Nests components [] tokens
  | opened {inner tokens : List FormulaToken} {components outer : List Formula}
    {groups : List OpenGroup} (closing : Char) (count : Nat) (within : Nested inner components)
    (around : Nests outer groups tokens) :
    Nests components (⟨count, outer⟩ :: groups) (inner ++ .closeBracket closing :: tokens)

/-- Why tokens spell no formula: a bracket is left over, or a number is too long. -/
inductive Refused (tokens : List FormulaToken) : Failure → Prop
  | unbalanced (h : ¬ FormulaToken.Balanced tokens) : Refused tokens (.malformed .unbalancedFormula)
  | tooLong {digits : String} (h : .number digits ∈ tokens)
    (hl : Text.numeralDigits < digits.length) : Refused tokens .longNumeral

namespace Progress

variable {state : Progress} {right : List FormulaToken}

/-- Every token that is read nests into what has been read. -/
theorem Nests.step {next : Progress} {token : FormulaToken}
    (hn : Nests state.components state.groups right) (hs : state.step token = .ok next) :
    Nests next.components next.groups (token :: right) := by
  obtain ⟨components, groups, count⟩ := state
  cases token with
  | number digits =>
    obtain ⟨value, -, hs⟩ := bind_eq_ok_iff.mp hs
    obtain rfl := pure_eq_ok_iff.mp hs
    cases hn with
    | whole h => exact .whole (.number digits h)
    | opened closing count within around =>
      exact .opened closing count (.number digits within) around
  | element symbol =>
    obtain rfl := Except.ok.inj hs
    cases hn with
    | whole h => exact .whole (.element symbol _ h)
    | opened closing count within around =>
      exact .opened closing count (.element symbol _ within) around
  | closeBracket sign =>
    obtain rfl := Except.ok.inj hs
    exact .opened sign count .nil hn
  | openBracket sign =>
    cases hn with
    | whole h => cases hs
    | opened closing count within around =>
      obtain rfl := Except.ok.inj hs
      cases around with
      | whole around => exact .whole (.group sign closing count within around)
      | opened further outer between around =>
        have hb := Nested.group sign closing count within between
        simpa using Nests.opened further outer hb around

/-- A token that is not read is a bracket that is not closed, or a number that is too long. -/
theorem Nests.refused {token : FormulaToken} {left : List FormulaToken}
    (hn : Nests state.components state.groups right) :
    FailsBy (Refused (left.reverse ++ token :: right)) (state.step token) := by
  obtain ⟨components, groups, count⟩ := state
  cases token with
  | element symbol => exact failsBy_ok _
  | closeBracket sign => exact failsBy_ok _
  | number digits =>
    refine FailsBy.bind ?_ fun value _ => failsBy_ok _
    rw [countOf]
    split
    · next hl => exact failsBy_error (.tooLong (by simp) hl)
    · exact failsBy_ok _
  | openBracket sign =>
    cases hn with
    | opened closing count within around => exact failsBy_ok _
    | whole h =>
      -- the tokens behind the bracket close none of those around them, so it stays open
      refine failsBy_error (.unbalanced fun hb => ?_)
      rw [FormulaToken.Balanced, depthAfter?_append] at hb
      obtain ⟨depth, -, hb⟩ := Option.bind_eq_some_iff.mp hb
      have hd : depthAfter? (depth + 1) right = some 0 := hb
      rw [h.depthAfter?_eq] at hd
      cases hd

/-- Tokens that are read from right to left nest, or are refused. -/
theorem Nests.run (state : Progress) (left : List FormulaToken)
    (hn : Nests state.components state.groups right) :
    (∀ final, state.run left = .ok final →
      Nests final.components final.groups (left.reverse ++ right)) ∧
    FailsBy (Refused (left.reverse ++ right)) (state.run left) := by
  induction left generalizing state right with
  | nil => exact ⟨fun final h => Except.ok.inj h ▸ hn, failsBy_ok state⟩
  | cons token left ih =>
    rw [List.reverse_cons, List.append_assoc, List.singleton_append]
    refine ⟨fun final h => ?_, hn.refused.bind fun next hs => (ih next (hn.step hs)).2⟩
    obtain ⟨next, hs, h⟩ := bind_eq_ok_iff.mp h
    exact (ih next (hn.step hs)).1 final h

end Progress

/-- A formula nests as its tokens do, and tokens that spell none are refused. -/
theorem nested_or_refused (tokens : List FormulaToken) :
    (∃ components count, ofTokens tokens = .ok (.group components count) ∧
      Nested tokens components) ∨
    ∃ failure, ofTokens tokens = .error failure ∧ Refused tokens failure := by
  obtain ⟨hok, hfails⟩ := Progress.Nests.run ⟨[], [], 1⟩ tokens.reverse (.whole .nil)
  rw [List.reverse_reverse, List.append_nil] at hok hfails
  rw [ofTokens]
  cases hr : Progress.run ⟨[], [], 1⟩ tokens.reverse with
  | error failure => exact .inr ⟨failure, rfl, hfails failure hr⟩
  | ok final =>
    obtain ⟨components, groups, count⟩ := final
    cases hok _ hr with
    | whole h => exact .inl ⟨components, count, rfl, h⟩
    | opened closing count within around =>
      refine .inr ⟨_, rfl, .unbalanced fun hb => ?_⟩
      rw [FormulaToken.Balanced, depthAfter?_append, within.depthAfter?_eq] at hb
      cases hb

end

/-- A node of the output with its mark. -/
structure Marked where
  mark : Nat
  node : Formula

/-- A group with nodes moved into it, behind those that it has. -/
def gaining (moved : List Formula) : Formula → Formula
  | .element symbol count => .element symbol count
  | .group components count => .group (components ++ moved) count

/-- Moves nodes from the output into the one with a mark until that one is on top. -/
def moveInto (mark : Nat) (moved : List Formula) : List Marked → Outcome (List Marked)
  | [] => .error .indexOutOfRange
  | top :: output =>
    if top.mark = mark then .ok (⟨mark, top.node.gaining moved⟩ :: output)
    else moveInto mark (moved ++ [top.node]) output

/-- Reading from right to left with two stacks: the nodes read, open groups among them, the marks of
the open groups, the number kept and the number of marks that are in use. -/
structure Stacks where
  output : List Marked
  markers : List Nat
  count : Nat
  used : Nat

namespace Stacks

/-- Puts a node on the output, with a mark of its own. -/
def put (held : Stacks) (node : Formula) : Stacks :=
  ⟨⟨held.used, node⟩ :: held.output, held.markers, 1, held.used + 1⟩

/-- Reads one more token to the left. -/
def step (held : Stacks) : FormulaToken → Outcome Stacks
  | .number digits => do return { held with count := ← countOf digits }
  | .element symbol => .ok (held.put (.element symbol held.count))
  | .closeBracket _ =>
    .ok { held.put (.group [] held.count) with markers := held.used :: held.markers }
  | .openBracket _ =>
    match held.markers with
    | [] => .error (.malformed .unbalancedFormula)
    | mark :: markers => do
      return { held with output := ← moveInto mark [] held.output, markers }

/-- Reads tokens from right to left, the last one first. -/
def run (held : Stacks) : List FormulaToken → Outcome Stacks
  | [] => .ok held
  | token :: left => do (← held.step token).run left

/-- The formula that tokens spell, built with two stacks. -/
def build (tokens : List FormulaToken) : Outcome Formula := do
  let final ← Stacks.run ⟨[], [], 1, 0⟩ tokens.reverse
  if final.markers.isEmpty then return .group (final.output.map Marked.node) final.count
  else throw (.malformed .unbalancedFormula)

end Stacks

/-- How components and open groups lie on the output: every open group is empty, has the mark that
the markers name in its turn, and lies between what has been read inside it and what has been read
around it. -/
inductive Laid : List Formula → List OpenGroup → List Marked → List Nat → Prop
  | nil : Laid [] [] [] []
  | node {components : List Formula} {groups : List OpenGroup} {output : List Marked}
    {markers : List Nat} {mark : Nat} (hm : mark ∉ markers) (node : Formula)
    (rest : Laid components groups output markers) :
    Laid (node :: components) groups (⟨mark, node⟩ :: output) markers
  | opened {outer : List Formula} {groups : List OpenGroup} {output : List Marked}
    {markers : List Nat} {mark : Nat} (hm : mark ∉ markers) (count : Nat)
    (around : Laid outer groups output markers) :
    Laid [] (⟨count, outer⟩ :: groups) (⟨mark, .group [] count⟩ :: output) (mark :: markers)

section

variable {components : List Formula} {groups : List OpenGroup} {output : List Marked}
  {markers : List Nat}

/-- The group marked last is on the output, so moving nodes into it ends there. -/
theorem Laid.moveInto_eq {inner : OpenGroup} {mark : Nat}
    (h : Laid components (inner :: groups) output (mark :: markers)) (moved : List Formula) :
    ∃ rest, moveInto mark moved output =
        .ok (⟨mark, .group (moved ++ components) inner.count⟩ :: rest) ∧
      mark ∉ markers ∧ Laid inner.outer groups rest markers := by
  induction components generalizing moved output with
  | nil =>
    cases h with
    | opened hm count around => exact ⟨_, by simp [moveInto, gaining], hm, around⟩
  | cons component components ih =>
    cases h with
    | node hm node rest =>
      rw [moveInto, if_neg (List.ne_of_not_mem_cons hm)]
      obtain ⟨rest, hr, h⟩ := ih rest (moved ++ [component])
      rw [List.append_assoc, List.singleton_append] at hr
      exact ⟨rest, hr, h⟩

/-- If no group is open, the output holds the components and nothing is marked. -/
theorem Laid.output_eq (h : Laid components [] output markers) :
    output.map Marked.node = components ∧ markers = [] := by
  induction components generalizing output with
  | nil =>
    cases h
    exact ⟨rfl, rfl⟩
  | cons component components ih =>
    cases h with
    | node hm node rest =>
      obtain ⟨ho, hm⟩ := ih rest
      exact ⟨congrArg _ ho, hm⟩

/-- If a group is open, one is marked. -/
theorem Laid.markers_ne_nil {inner : OpenGroup}
    (h : Laid components (inner :: groups) output markers) : markers ≠ [] := by
  induction components generalizing output with
  | nil =>
    cases h
    exact List.cons_ne_nil _ _
  | cons component components ih =>
    cases h with
    | node hm node rest => exact ih rest

end

/-- Two stacks hold what has been read, and the marks on them are in use. -/
structure Stacks.Holds (held : Stacks) (state : Progress) : Prop where
  laid : Laid state.components state.groups held.output held.markers
  used : ∀ mark ∈ held.markers, mark < held.used
  count : held.count = state.count

namespace Stacks

variable {held : Stacks} {state : Progress}

/-- A new mark is none of those on the stack of markers. -/
theorem Holds.fresh (h : held.Holds state) : held.used ∉ held.markers :=
  fun hm => Nat.lt_irrefl _ (h.used _ hm)

/-- Marks that are in use stay in use. -/
theorem Holds.used_succ (h : held.Holds state) :
    ∀ mark ∈ held.markers, mark < held.used + 1 :=
  fun mark hm => Nat.lt_succ_of_lt (h.used mark hm)

/-- Both ways of reading take a token alike. -/
theorem Holds.step (h : held.Holds state) (token : FormulaToken) :
    Concur (fun state held => held.Holds state) (state.step token) (held.step token) := by
  have hfresh := h.fresh
  have hused := h.used_succ
  obtain ⟨components, groups, count⟩ := state
  obtain ⟨output, markers, kept, used⟩ := held
  obtain ⟨hlaid, husing, hcount⟩ := h
  obtain rfl : kept = count := hcount
  cases token with
  | number digits =>
    rw [Progress.step, Stacks.step]
    cases countOf digits with
    | error failure => exact .error failure
    | ok value => exact .ok ⟨hlaid, husing, rfl⟩
  | element symbol => exact .ok ⟨.node hfresh _ hlaid, hused, rfl⟩
  | closeBracket sign =>
    refine .ok ⟨.opened hfresh _ hlaid, fun mark hm => ?_, rfl⟩
    rcases List.mem_cons.mp hm with rfl | hm
    · exact Nat.lt_succ_self _
    · exact hused mark hm
  | openBracket sign =>
    cases groups with
    | nil =>
      obtain rfl : markers = [] := hlaid.output_eq.2
      exact .error _
    | cons inner groups =>
      cases markers with
      | nil => exact absurd rfl hlaid.markers_ne_nil
      | cons mark markers =>
        obtain ⟨rest, hr, hm, hlaid⟩ := hlaid.moveInto_eq []
        have hs : Stacks.step ⟨output, mark :: markers, kept, used⟩ (.openBracket sign) =
            .ok ⟨⟨mark, .group components inner.count⟩ :: rest, markers, kept, used⟩ := by
          change (moveInto mark [] output).bind _ = _
          rw [hr]
          rfl
        rw [hs]
        exact .ok ⟨.node hm _ hlaid, fun mark hm => husing mark (List.mem_cons_of_mem _ hm), rfl⟩

/-- Both ways of reading take tokens alike. -/
theorem Holds.run (h : held.Holds state) (left : List FormulaToken) :
    Concur (fun state held => held.Holds state) (state.run left) (held.run left) := by
  induction left generalizing held state with
  | nil => exact .ok h
  | cons token left ih => exact (h.step token).bind fun next held hn => ih hn

/-- Building with two stacks gives the same formula, or fails for the same reason. -/
theorem build_eq (tokens : List FormulaToken) : build tokens = ofTokens tokens := by
  have hn : Holds ⟨[], [], 1, 0⟩ ⟨[], [], 1⟩ := ⟨.nil, nofun, rfl⟩
  refine ((hn.run tokens.reverse).bind_eq fun final held hf => ?_).symm
  obtain ⟨components, groups, count⟩ := final
  obtain ⟨output, markers, kept, used⟩ := held
  obtain ⟨hlaid, -, hcount⟩ := hf
  obtain rfl : kept = count := hcount
  cases groups with
  | nil =>
    obtain ⟨rfl, rfl⟩ := hlaid.output_eq
    rfl
  | cons inner groups =>
    cases markers with
    | nil => exact absurd rfl hlaid.markers_ne_nil
    | cons mark markers => rfl

end Stacks

/-- Tokens with ordinary numbers are refused exactly if their brackets are not balanced, whatever
their kind. Balanced tokens become a formula with their elements in order and a group for every pair
of brackets. Two stacks build it as well, and never take a node from an empty output. -/
theorem ofTokens_nesting_spec {tokens : List FormulaToken}
    (h : ∀ digits, .number digits ∈ tokens → IsOrdinary digits) :
    (ofTokens tokens = .error (.malformed .unbalancedFormula) ↔ ¬ FormulaToken.Balanced tokens) ∧
    (FormulaToken.Balanced tokens → ∃ components count,
      ofTokens tokens = .ok (.group components count) ∧ Nested tokens components ∧
      (multiplicitiesOf components).map Prod.fst = tokens.filterMap symbol?) ∧
    Stacks.build tokens = ofTokens tokens ∧
    Stacks.build tokens ≠ .error .indexOutOfRange := by
  rw [Stacks.build_eq]
  rcases nested_or_refused tokens with ⟨components, count, ho, hn⟩ | ⟨failure, ho, hf⟩
  · have hb : FormulaToken.Balanced tokens := hn.depthAfter?_eq 0
    rw [ho]
    exact ⟨⟨nofun, fun hnot => absurd hb hnot⟩,
      fun _ => ⟨components, count, rfl, hn, hn.symbols⟩, rfl, nofun⟩
  · cases hf with
    | tooLong hd hl => exact absurd (h _ hd).2.2 (Nat.not_le.mpr hl)
    | unbalanced hb =>
      rw [ho]
      exact ⟨⟨fun _ => hb, fun _ => rfl⟩, fun hbalanced => absurd hbalanced hb, rfl, nofun⟩

/-- Brackets of different kinds make a group, and brackets the wrong way round are refused. -/
theorem ofTokens_nesting_spec_mixed :
    (∃ components count,
      ofTokens [.element "Al", .number "2", .openBracket '(', .element "S", .element "O",
        .number "4", .closeBracket ']', .number "3"] = .ok (.group components count) ∧
      (multiplicitiesOf components).map Prod.fst = ["Al", "S", "O"]) ∧
    Stacks.build [.element "H", .closeBracket ')', .number "2", .openBracket '('] =
      .error (.malformed .unbalancedFormula) := by
  have hmixed : ∀ digits, .number digits ∈ [FormulaToken.element "Al", .number "2",
      .openBracket '(', .element "S", .element "O", .number "4", .closeBracket ']',
      .number "3"] → IsOrdinary digits := by
    simp only [List.mem_cons, FormulaToken.number.injEq, reduceCtorEq, List.not_mem_nil,
      false_or, or_false]
    rintro digits (rfl | rfl | rfl) <;> exact ⟨by decide, by decide, by decide⟩
  have hwrong : ∀ digits, .number digits ∈ [FormulaToken.element "H", .closeBracket ')',
      .number "2", .openBracket '('] → IsOrdinary digits := by
    simp only [List.mem_cons, FormulaToken.number.injEq, reduceCtorEq, List.not_mem_nil,
      false_or, or_false]
    rintro digits rfl
    exact ⟨by decide, by decide, by decide⟩
  obtain ⟨-, hbuilt, -⟩ := ofTokens_nesting_spec hmixed
  obtain ⟨components, count, ho, -, hs⟩ := hbuilt (by decide)
  obtain ⟨hrefused, -, hboth, -⟩ := ofTokens_nesting_spec hwrong
  exact ⟨⟨components, count, ho, hs⟩, hboth.trans (hrefused.mpr (by decide))⟩

end Formula

end UnitCalculator.Reference
