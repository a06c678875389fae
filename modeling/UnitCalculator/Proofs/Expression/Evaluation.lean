import UnitCalculator.Proofs.Expression.Parsing

/-!
# The variables of an evaluation

The value of an expression depends on the variables that it reads and on no others, and there is
none if one of these is undefined. Those of an equation are the variables among its tokens, an
assigned one apart.
-/

namespace UnitCalculator

namespace Text

/-- Inserting a name adds that name. -/
theorem mem_insertName {name other : String} {names : List String} :
    other ∈ insertName name names ↔ other = name ∨ other ∈ names := by
  induction names with
  | nil => simp [insertName]
  | cons first others ih =>
    rw [insertName]
    split
    · next h => simp [h]
    · split
      · simp
      · rw [List.mem_cons, ih, List.mem_cons]
        tauto

/-- Sorting keeps the names. -/
theorem mem_sortNames {name : String} {names : List String} :
    name ∈ sortNames names ↔ name ∈ names := by
  induction names with
  | nil => simp [sortNames]
  | cons first others ih => rw [sortNames, List.foldr_cons, mem_insertName, ← sortNames, ih,
      List.mem_cons]

end Text

namespace Tree

/-- No sign of assignment occurs in a tree. -/
def Plain : Tree → Prop
  | .leaf _ => True
  | .call _ _ operand => operand.Plain
  | .binary op _ left right => op ≠ .assign ∧ left.Plain ∧ right.Plain

/-- Bindings that agree on the variables a tree reads give it the same value. -/
theorem evaluate_congr {tree : Tree} {bindings others : Bindings}
    (h : ∀ name ∈ tree.references, bindings name = others name) :
    tree.evaluate bindings = tree.evaluate others := by
  induction tree with
  | leaf token =>
    rcases token with ⟨lexeme, position⟩
    cases lexeme with
    | reference name => simp only [evaluate, Lexeme.evaluate, h name (by simp [references])]
    | _ => rfl
  | call function position operand ih => rw [evaluate, ih h, ← evaluate]
  | binary op position left right ihl ihr =>
    have hl := ihl fun name hn => h name (by simp [references, hn])
    have hr := ihr fun name hn => h name (by simp [references, hn])
    rw [evaluate, hl, hr, ← evaluate]

/-- The variables a tree reads are those among its tokens. -/
theorem mem_references {tree : Tree} {name : String} :
    name ∈ tree.references ↔ ∃ position, ⟨.reference name, position⟩ ∈ tree.tokens := by
  induction tree with
  | leaf token =>
    rcases token with ⟨lexeme, position⟩
    cases lexeme <;> simp [references, tokens]
  | call function position operand ih => simp [references, tokens, ih]
  | binary op position left right ihl ihr =>
    simp [references, tokens, ihl, ihr, exists_or]

/-- A tree without assignment that has a value reads no undefined variable. -/
theorem isSome_of_evaluate {tree : Tree} {bindings : Bindings} {value : Quantity}
    (hp : tree.Plain) (h : tree.evaluate bindings = .ok value) :
    ∀ name ∈ tree.references, (bindings name).isSome = true := by
  induction tree generalizing value with
  | leaf token =>
    rcases token with ⟨lexeme, position⟩
    cases lexeme with
    | reference name =>
      intro other ho
      obtain rfl : other = name := by simpa [references] using ho
      cases hb : bindings other with
      | some value => rfl
      | none => simp [evaluate, Lexeme.evaluate, hb] at h
    | _ => simp [references]
  | call function position operand ih =>
    obtain ⟨inner, ho, -⟩ := bind_eq_ok_iff.mp h
    exact ih hp ho
  | binary op position left right ihl ihr =>
    obtain ⟨hop, hl, hr⟩ := hp
    rw [evaluate, if_neg hop] at h
    obtain ⟨a, hel, h⟩ := bind_eq_ok_iff.mp h
    obtain ⟨b, her, -⟩ := bind_eq_ok_iff.mp h
    intro name hn
    rcases List.mem_append.mp hn with hn | hn
    · exact ihl hl hel name hn
    · exact ihr hr her name hn

end Tree

/-- No sign of assignment occurs in a spelled tree. -/
theorem Grammar.Spells.plain {strength : Nat} {tokens : List Token} {tree : Tree}
    (h : Spells strength tokens tree) (hs : 1 ≤ strength) : tree.Plain := by
  induction h with
  | leaf h => trivial
  | group p q _ ih => exact ih le_rfl
  | call name p q r _ ih => exact ih le_rfl
  | binary p hop _ _ ihl ihr =>
    exact ⟨precedence_pos.mp (hs.trans hop), ihl (hs.trans hop), ihr (by omega)⟩

namespace Equation

/-- A compiled equation is what the tokens of its text mean. -/
theorem means_of_compile {catalogue : Catalogue} {known : List String} {source : String}
    {e : Equation} (h : compile catalogue known source = .ok e) :
    ∃ tokens, tokenize catalogue known source = .ok tokens ∧ Grammar.Means tokens e.root := by
  obtain ⟨tokens, ht, ho⟩ := bind_eq_ok_iff.mp h
  exact ⟨tokens, ht, means_of_ofTokens ht ho⟩

/-- A spelled tree is no assignment, and the whole of it is the expression. -/
theorem expression_of_spells {tokens : List Token} {e : Equation}
    (h : Grammar.Spells 1 tokens e.root) : e.expression = e.root ∧ e.isAssignment = false := by
  have hp := h.plain le_rfl
  rcases e with ⟨root, source⟩
  cases root with
  | leaf token => exact ⟨rfl, rfl⟩
  | call function position operand => exact ⟨rfl, rfl⟩
  | binary op position left right =>
    have hop : op ≠ .assign := hp.1
    cases op <;> simp_all [expression, isAssignment, target?]

/-- The expression that tokens mean assigns nothing. -/
theorem plain_of_means {tokens : List Token} {e : Equation} (h : Grammar.Means tokens e.root) :
    e.expression.Plain := by
  rcases e with ⟨root, source⟩
  cases h with
  | assignment name p q hs => exact hs.plain le_rfl
  | expression hs =>
    rw [(expression_of_spells hs).1]
    exact hs.plain le_rfl

/-- The expression of a compiled equation assigns nothing. -/
theorem plain_of_compile {catalogue : Catalogue} {known : List String} {source : String}
    {e : Equation} (h : compile catalogue known source = .ok e) : e.expression.Plain := by
  obtain ⟨tokens, -, hm⟩ := means_of_compile h
  exact plain_of_means hm

/-- The names of an equation's usage are the variables its expression reads. -/
theorem mem_usage {e : Equation} {name : String} :
    name ∈ e.usage ↔ name ∈ e.expression.references :=
  Text.mem_sortNames

/-- The tokens behind the sign of an assignment, or all tokens of an expression. -/
def readTokens (e : Equation) (tokens : List Token) : List Token :=
  if e.isAssignment then tokens.drop 2 else tokens

/-- The expression that tokens mean has the tokens that are read, brackets apart. -/
theorem tokens_expression {tokens : List Token} {e : Equation}
    (h : Grammar.Means tokens e.root) :
    e.expression.tokens = (e.readTokens tokens).filter (!·.isBracket) := by
  rcases e with ⟨root, source⟩
  cases h with
  | assignment name p q hs => exact hs.tokens_eq
  | expression hs =>
    obtain ⟨he, ha⟩ := expression_of_spells hs
    rw [he, readTokens, ha, hs.tokens_eq, if_neg Bool.false_ne_true]

/-- The usage of an equation read from the tokens of a text names the variables among the tokens
behind its sign of assignment, so the assigned one counts only where it is read. The value, or the
failure in place of one, depends on these variables only, and there is no value under bindings that
leave one of them undefined. -/
theorem usage_spec {catalogue : Catalogue} {known : List String} {text source : String}
    {tokens : List Token} {e : Equation} (ht : tokenize catalogue known text = .ok tokens)
    (he : ofTokens tokens source = .ok e) :
    (∀ name, name ∈ e.usage ↔ ∃ position, ⟨.reference name, position⟩ ∈ e.readTokens tokens) ∧
    (∀ bindings others : Bindings, (∀ name ∈ e.usage, bindings name = others name) →
      e.evaluate bindings = e.evaluate others) ∧
    ∀ (bindings : Bindings) (name : String), name ∈ e.usage → bindings name = none →
      ∃ failure, e.evaluate bindings = .error failure := by
  have hm : Grammar.Means tokens e.root :=
    (Tree.ofTokens_eq_ok_iff (spaced_of_tokenize ht)).mp (ofTokens_eq_ok_iff.mp he).1
  refine ⟨fun name => ?_, fun bindings others h => ?_, fun bindings name hn hb => ?_⟩
  · rw [mem_usage, Tree.mem_references, tokens_expression hm]
    simp [Token.isBracket]
  · exact Tree.evaluate_congr fun name hn => h name (mem_usage.mpr hn)
  · cases hv : e.evaluate bindings with
    | error failure => exact ⟨failure, rfl⟩
    | ok value =>
      have hsome := Tree.isSome_of_evaluate (plain_of_means hm) hv name (mem_usage.mp hn)
      rw [hb] at hsome
      cases hsome

/-- An assignment of a variable that it does not read, whose first operand fails before a variable
is reached. -/
theorem usage_spec_quotient : ∃ tokens e,
    tokenize .standard ["x", "y"] "y = 1/0 + x" = .ok tokens ∧
    ofTokens tokens "y = 1/0 + x" = .ok e ∧ e.usage = ["x"] ∧
    (∀ bindings others : Bindings, bindings "x" = others "x" →
      e.evaluate bindings = e.evaluate others) ∧
    ∃ failure, e.evaluate (fun _ => none) = .error failure := by
  obtain ⟨tokens, e, ht, he, hu⟩ : ∃ tokens e,
      tokenize .standard ["x", "y"] "y = 1/0 + x" = .ok tokens ∧
      ofTokens tokens "y = 1/0 + x" = .ok e ∧ e.usage = ["x"] := by
    have h : (match compile .standard ["x", "y"] "y = 1/0 + x" with
        | .ok e => e.usage == ["x"]
        | .error _ => false) = true := by decide +kernel
    split at h
    · next e hc =>
      obtain ⟨tokens, ht, he⟩ := bind_eq_ok_iff.mp hc
      exact ⟨tokens, e, ht, he, by simpa using h⟩
    · cases h
  obtain ⟨-, hagree, hnone⟩ := usage_spec ht he
  refine ⟨tokens, e, ht, he, hu, fun bindings others h => ?_, hnone _ "x" (by simp [hu]) rfl⟩
  exact hagree bindings others (by simpa [hu] using h)

end Equation

end UnitCalculator
