import Mathlib.Data.List.Nodup
import UnitCalculator.Proofs.Expression.Parsing

/-!
# The order of tokens in a tree

Whatever waits is combined with the latest trees, wherever their tokens stand. A tree therefore has
all tokens but the brackets, and its operands in their order, while an operator or a function may
have taken operands from its other side. It has taken the right ones exactly when an operand comes
wherever one is due, before a bracket is closed that was open when it became due.
-/

namespace UnitCalculator

/-- The tokens that are no brackets. -/
def Token.unbracketed (tokens : List Token) : List Token := tokens.filter (!·.isBracket)

namespace Token

variable (rest : List Token) (p : Nat)

/-- Nothing is left of nothing. -/
@[simp] theorem unbracketed_nil : unbracketed [] = [] := rfl

/-- The first token is kept or left out apart from the others. -/
theorem unbracketed_cons (token : Token) :
    unbracketed (token :: rest) = unbracketed [token] ++ unbracketed rest := by
  rw [unbracketed, unbracketed, unbracketed, ← List.filter_append, List.singleton_append]

/-- An operand that is a single token is kept. -/
theorem unbracketed_single {token : Token} (h : token.lexeme.isSingle = true) :
    unbracketed (token :: rest) = token :: unbracketed rest := by
  rcases token with ⟨lexeme, position⟩
  cases lexeme <;> simp_all [unbracketed, isBracket, Lexeme.isSingle]

/-- Operands that are single tokens are no brackets. -/
theorem filter_isSingle_unbracketed (tokens : List Token) :
    (unbracketed tokens).filter (·.lexeme.isSingle) = tokens.filter (·.lexeme.isSingle) := by
  rw [unbracketed, List.filter_filter]
  refine List.filter_congr fun token _ => ?_
  rcases token with ⟨lexeme, position⟩
  cases lexeme <;> rfl

/-- An opening bracket is left out. -/
@[simp] theorem unbracketed_openBracket :
    unbracketed (⟨.openBracket, p⟩ :: rest) = unbracketed rest := rfl

/-- A closing bracket is left out. -/
@[simp] theorem unbracketed_closeBracket :
    unbracketed (⟨.closeBracket, p⟩ :: rest) = unbracketed rest := rfl

/-- A function is kept. -/
@[simp] theorem unbracketed_function (name : String) :
    unbracketed (⟨.function name, p⟩ :: rest) = ⟨.function name, p⟩ :: unbracketed rest := rfl

/-- An operator is kept. -/
@[simp] theorem unbracketed_operator (op : Operator) :
    unbracketed (⟨.operator op, p⟩ :: rest) = ⟨.operator op, p⟩ :: unbracketed rest := rfl

end Token

namespace Tree

open Grammar
open Token (unbracketed)

/-- The token that waits, unless it is a bracket. -/
def Pending.token? : Pending → Option Token
  | .operator op position => some ⟨.operator op, position⟩
  | .function name position => some ⟨.function name, position⟩
  | .bracket => none

section Invariants

/-- What holds of the finished trees and of what waits, and is kept when the latest trees are
combined under what waits last. -/
structure Kept (I : List Tree → List Pending → Prop) : Prop where
  /-- Combining under an operator or a function. -/
  combine : ∀ {output combined : List Tree} {waiting : Pending} {stack : List Pending},
    I output (waiting :: stack) → combine output waiting = .ok combined → I combined stack
  /-- Closing a bracket. -/
  bracket : ∀ {output : List Tree} {stack : List Pending},
    I output (.bracket :: stack) → I output stack

/-- What is kept by combining once is kept by combining under all stronger operators. -/
theorem Kept.combineStronger {I : List Tree → List Pending → Prop} (hk : Kept I) {op : Operator}
    {output : List Tree} {stack : List Pending} {state : Progress} (hi : I output stack)
    (h : combineStronger op output stack = .ok state) : I state.output state.stack := by
  induction stack generalizing output with
  | nil =>
    cases h
    exact hi
  | cons waiting stack ih =>
    cases waiting with
    | function name p =>
      cases h
      exact hi
    | bracket =>
      cases h
      exact hi
    | operator waiting p =>
      rw [Tree.combineStronger] at h
      split at h
      · obtain ⟨combined, hc, hr⟩ := bind_eq_ok_iff.mp h
        exact ih (hk.combine hi hc) hr
      · cases h
        exact hi

/-- What is kept by combining once is kept by combining a group. -/
theorem Kept.combineGroup {I : List Tree → List Pending → Prop} (hk : Kept I)
    {output : List Tree} {stack : List Pending} {state : Progress} (hi : I output stack)
    (h : combineGroup output stack = .ok state) : I state.output state.stack := by
  fun_induction Tree.combineGroup output stack with
  | case1 => simp at h
  | case2 output name p stack =>
    obtain ⟨combined, hc, hr⟩ := bind_eq_ok_iff.mp h
    cases hr
    exact hk.combine (hk.bracket hi) hc
  | case3 output stack hnot =>
    cases h
    exact hk.bracket hi
  | case4 output waiting stack hf hb ih =>
    obtain ⟨next, hc, hr⟩ := bind_eq_ok_iff.mp h
    exact ih next (hk.combine hi hc) hr

/-- What is kept by combining once is kept by combining all that waits. -/
theorem Kept.combineAll {I : List Tree → List Pending → Prop} (hk : Kept I)
    {output combined : List Tree} {stack : List Pending} (hi : I output stack)
    (h : combineAll output stack = .ok combined) : I combined [] := by
  induction stack generalizing output with
  | nil =>
    cases h
    exact hi
  | cons waiting stack ih =>
    obtain ⟨next, hc, hr⟩ := bind_eq_ok_iff.mp h
    exact ih (hk.combine hi hc) hr

/-- What holds of the tokens read, brackets left out, and of the reading state after them. -/
structure Account (I : List Token → List Tree → List Pending → Prop) : Prop where
  /-- Combining keeps it. -/
  kept : ∀ words, Kept (I words)
  /-- Reading an operand keeps it. -/
  single : ∀ {words : List Token} {output : List Tree} {stack : List Pending} {token : Token},
    I words output stack → token.lexeme.isSingle = true →
      I (words ++ [token]) (.leaf token :: output) stack
  /-- Letting an operator, a function or a bracket wait keeps it. -/
  wait : ∀ {words : List Token} {output : List Tree} {stack : List Pending} (waiting : Pending),
    I words output stack → I (words ++ waiting.token?.toList) output (waiting :: stack)

/-- What every step keeps is kept while all tokens are read. -/
theorem Account.run {I : List Token → List Tree → List Pending → Prop} (ha : Account I)
    {state final : Progress} {tokens words : List Token} (hi : I words state.output state.stack)
    (h : state.run tokens = .ok final) :
    I (words ++ unbracketed tokens) final.output final.stack := by
  induction tokens generalizing state words with
  | nil =>
    cases h
    simpa using hi
  | cons token rest ih =>
    rcases token.sorts with hs | ⟨p, rfl⟩ | ⟨p, rfl⟩ | ⟨name, p, rfl⟩ | ⟨op, p, rfl⟩
    · rw [run_single _ _ hs] at h
      rw [Token.unbracketed_single _ hs, List.append_cons]
      exact ih (ha.single hi hs) h
    · rw [run_openBracket] at h
      exact ih (by simpa [Pending.token?] using ha.wait .bracket hi) h
    · rw [run_closeBracket] at h
      obtain ⟨next, hc, hr⟩ := bind_eq_ok_iff.mp h
      exact ih ((ha.kept words).combineGroup hi hc) hr
    · rw [run_function] at h
      split at h
      · rw [Token.unbracketed_function, List.append_cons]
        refine ih ?_ h
        exact ha.wait (.function name p) hi
      · cases h
    · rw [run_operator] at h
      obtain ⟨next, hc, hr⟩ := bind_eq_ok_iff.mp h
      rw [Token.unbracketed_operator, List.append_cons]
      refine ih ?_ hr
      exact ha.wait (.operator op p) ((ha.kept words).combineStronger hi hc)

/-- What every step keeps holds of the tree that tokens are read into. -/
theorem Account.ofTokens {I : List Token → List Tree → List Pending → Prop} (ha : Account I)
    {tokens : List Token} {tree : Tree} (hi : I [] [] []) (h : ofTokens tokens = .ok tree) :
    I (unbracketed tokens) [tree] [] := by
  obtain ⟨-, final, hrun, hall⟩ := run_of_ofTokens h
  exact (ha.kept _).combineAll (ha.run hi hrun) hall

end Invariants

/-- Combining under an operator or a function makes one tree of the latest ones. -/
theorem combine_cases {output combined : List Tree} {waiting : Pending}
    (h : combine output waiting = .ok combined) :
    (∃ name p operand others, waiting = .function name p ∧ output = operand :: others ∧
      combined = .call name p operand :: others) ∨
    ∃ op p right left others, waiting = .operator op p ∧ output = right :: left :: others ∧
      combined = .binary op p left right :: others := by
  cases waiting with
  | bracket => cases h
  | function name p =>
    rcases output with _ | ⟨operand, others⟩
    · cases h
    · cases h
      exact .inl ⟨name, p, operand, others, rfl, rfl, rfl⟩
  | operator op p =>
    rcases output with _ | ⟨r, _ | ⟨l, others⟩⟩
    · cases h
    · cases h
    · cases h
      exact .inr ⟨op, p, r, l, others, rfl, rfl, rfl⟩

/-- No token but the brackets is lost, and none comes twice. -/
theorem account_perm : Account fun words output stack =>
    (output.flatMap (·.tokens) ++ stack.filterMap (·.token?)).Perm words where
  kept words := by
    refine ⟨fun {output combined waiting stack} hi hc => ?_, fun hi => hi⟩
    rw [List.perm_iff_count] at hi ⊢
    intro token
    rw [← hi token]
    rcases combine_cases hc with ⟨name, p, operand, others, rfl, rfl, rfl⟩ |
      ⟨op, p, right, left, others, rfl, rfl, rfl⟩ <;>
      simp [tokens, Pending.token?, List.count_cons] <;> omega
  single hi hs := by
    rw [List.perm_iff_count] at hi ⊢
    intro token
    simp [tokens, ← hi token, List.count_cons]
  wait waiting hi := by
    rw [List.perm_iff_count] at hi ⊢
    intro token
    cases waiting <;> simp [Pending.token?, ← hi token, List.count_cons] <;> omega

/-- The operands stay in order. -/
theorem account_operands : Account fun words output _ =>
    output.reverse.flatMap (·.tokens.filter (·.lexeme.isSingle)) =
      words.filter (·.lexeme.isSingle) where
  kept words := by
    refine ⟨fun {output combined waiting stack} hi hc => ?_, fun hi => hi⟩
    rw [← hi]
    rcases combine_cases hc with ⟨name, p, operand, others, rfl, rfl, rfl⟩ |
      ⟨op, p, right, left, others, rfl, rfl, rfl⟩ <;>
      simp [tokens, Lexeme.isSingle]
  single hi hs := by simp [tokens, ← hi]
  wait waiting hi := by
    have hnone : waiting.token?.toList.filter (·.lexeme.isSingle) = [] := by cases waiting <;> rfl
    rw [List.filter_append, hnone, List.append_nil, hi]

/-- What is due while tokens are read. -/
inductive Due where
  /-- An operator, or the end. -/
  | joint
  /-- An operand. So many brackets may be closed before it comes: those opened since it is due. -/
  | operand (depth : Nat)
  /-- The bracket of a function. -/
  | argument
  deriving DecidableEq

namespace Due

/-- What is due behind a lexeme, unless the lexeme is out of order. -/
def behind? (due : Due) : Lexeme → Option Due
  | .openBracket =>
    match due with
    | .joint => some .joint
    | .operand depth => some (.operand (depth + 1))
    | .argument => some (.operand 0)
  | .closeBracket =>
    match due with
    | .joint => some .joint
    | .operand (depth + 1) => some (.operand depth)
    | _ => none
  | .function _ =>
    match due with
    | .operand _ => some .argument
    | _ => none
  | .operator _ =>
    match due with
    | .joint => some (.operand 0)
    | _ => none
  | _ =>
    match due with
    | .operand _ => some .joint
    | _ => none

/-- What is due behind tokens, unless some are out of order. -/
def after? (due : Due) (tokens : List Token) : Option Due :=
  tokens.foldlM (fun due token => due.behind? token.lexeme) due

/-- An operand or the bracket of a function is due. -/
def owes : Due → Bool
  | .joint => false
  | _ => true

end Due

/-- Wherever an operand is due one comes, before a bracket is closed that was open then, and none
comes where an operator is due. -/
def Orderly (tokens : List Token) : Prop := Due.after? (.operand 0) tokens = some .joint

instance (tokens : List Token) : Decidable (Orderly tokens) :=
  inferInstanceAs (Decidable (_ = _))

/-- The finished trees and what waits tell the tokens that were read, in order and without
brackets. -/
inductive Tells : Due → List Tree → List Pending → List Token → Prop
  | start : Tells (.operand 0) [] [] []
  | operand {due : Due} {output : List Tree} {stack : List Pending} {words : List Token}
    (tree : Tree) (hd : due.owes = true) (h : Tells due output stack words) :
    Tells .joint (tree :: output) stack (words ++ tree.tokens)
  | operator {output : List Tree} {stack : List Pending} {words : List Token} (op : Operator)
    (p : Nat) (h : Tells .joint output stack words) :
    Tells (.operand 0) output (.operator op p :: stack) (words ++ [⟨.operator op, p⟩])
  | function {depth : Nat} {output : List Tree} {stack : List Pending} {words : List Token}
    (name : String) (p : Nat) (h : Tells (.operand depth) output stack words) :
    Tells .argument output (.function name p :: stack) (words ++ [⟨.function name, p⟩])
  | argument {output : List Tree} {stack : List Pending} {words : List Token}
    (h : Tells .argument output stack words) : Tells (.operand 0) output (.bracket :: stack) words
  | group {depth : Nat} {output : List Tree} {stack : List Pending} {words : List Token}
    (h : Tells (.operand depth) output stack words) :
    Tells (.operand (depth + 1)) output (.bracket :: stack) words
  | behind {output : List Tree} {stack : List Pending} {words : List Token}
    (h : Tells .joint output stack words) : Tells .joint output (.bracket :: stack) words

/-- Another tree can stand in the place of the latest one. -/
theorem Tells.replace {tree : Tree} {output : List Tree} {stack : List Pending}
    {words : List Token} (h : Tells .joint (tree :: output) stack words) :
    ∃ before, words = before ++ tree.tokens ∧
      ∀ other : Tree, Tells .joint (other :: output) stack (before ++ other.tokens) := by
  generalize hd : Due.joint = due, ho : tree :: output = trees at h
  induction h with
  | operand latest howes h =>
    obtain ⟨rfl, rfl⟩ := List.cons.inj ho
    exact ⟨_, rfl, fun other => .operand other howes h⟩
  | behind h ih =>
    obtain ⟨before, hw, hother⟩ := ih hd ho
    exact ⟨before, hw, fun other => .behind (hother other)⟩
  | _ => cases hd

/-- Combining leaves the told tokens as they are where no operand is due. -/
theorem kept_tells (words : List Token) : Kept fun output stack =>
    Tells .joint output stack words where
  combine := by
    intro output combined waiting stack hi hc
    rcases combine_cases hc with ⟨name, p, operand, others, rfl, rfl, rfl⟩ |
      ⟨op, p, right, left, others, rfl, rfl, rfl⟩
    · cases hi with
      | operand _ howes h =>
        cases h with
        | function _ _ h =>
          rw [List.append_assoc]
          exact .operand (.call name p operand) rfl h
        | operand => cases howes
    · cases hi with
      | operand _ howes h =>
        cases h with
        | operator _ _ h =>
          obtain ⟨before, rfl, hother⟩ := h.replace
          simpa [tokens] using hother (.binary op p left right)
        | operand => cases howes
  bracket := by
    intro output stack hi
    cases hi with
    | behind h => exact h
    | operand tree howes h =>
      cases h with
      | argument h => exact .operand tree rfl h
      | group h => exact .operand tree rfl h
      | operand => cases howes
      | behind => cases howes

/-- No function waits directly where an operand is due. -/
theorem Tells.yields {depth : Nat} {output : List Tree} {stack : List Pending}
    {words : List Token} (h : Tells (.operand depth) output stack words) :
    Yields (Operator.precedence .power + 1) stack := by
  cases h with
  | operator op _ _ =>
    have hlt : op.precedence < Operator.precedence .power + 1 := by cases op <;> decide
    exact hlt
  | _ => trivial

/-- A bracket that was opened where an operand is due is closed without combining. -/
theorem Tells.close {depth : Nat} {output : List Tree} {stack : List Pending}
    {words : List Token} (h : Tells (.operand (depth + 1)) output stack words) :
    ∃ rest, combineGroup output stack = .ok ⟨output, rest⟩ ∧
      Tells (.operand depth) output rest words := by
  cases h with
  | group h => exact ⟨_, combineGroup_of_yields h.yields, h⟩

/-- All that is told at the end is one tree. -/
theorem Tells.eq_tokens {tree : Tree} {words : List Token} (h : Tells .joint [tree] [] words) :
    words = tree.tokens := by
  cases h with
  | operand _ howes h =>
    cases h with
    | start => rfl

/-- What is due behind tokens is due behind the first one and then the others. -/
theorem Due.after?_cons (due : Due) (token : Token) (rest : List Token) :
    due.after? (token :: rest) = (due.behind? token.lexeme).bind (·.after? rest) := rfl

/-- An operand is in order where one is due. -/
theorem Due.of_behind?_single {due later : Due} {lexeme : Lexeme}
    (hs : lexeme.isSingle = true) (hd : due.behind? lexeme = some later) :
    due.owes = true ∧ later = .joint := by
  cases lexeme <;> cases hs <;> cases due <;> cases hd <;> exact ⟨rfl, rfl⟩

/-- An operator or the end is due behind an operand. -/
theorem Due.behind?_single {lexeme : Lexeme} (depth : Nat) (hs : lexeme.isSingle = true) :
    (Due.operand depth).behind? lexeme = some .joint := by
  cases lexeme <;> cases hs <;> rfl

/-- Reading an operand that is a single token. -/
theorem step_single {state next : Progress} {token : Token} {following : Option Token}
    (hs : token.lexeme.isSingle = true) (h : state.step token following = .ok next) :
    next = ⟨.leaf token :: state.output, state.stack⟩ := by
  rcases token with ⟨lexeme, position⟩
  cases lexeme <;> cases hs <;> exact (Except.ok.inj h).symm

/-- A token that is read where it is in order is told behind those before it. -/
theorem Tells.step {due later : Due} {state next : Progress} {words : List Token} {token : Token}
    {following : Option Token} (h : Tells due state.output state.stack words)
    (hd : due.behind? token.lexeme = some later)
    (hn : state.step token following = .ok next) :
    Tells later next.output next.stack (words ++ unbracketed [token]) := by
  rcases token.sorts with hs | ⟨p, rfl⟩ | ⟨p, rfl⟩ | ⟨name, p, rfl⟩ | ⟨op, p, rfl⟩
  · obtain ⟨howes, rfl⟩ := Due.of_behind?_single hs hd
    obtain rfl := step_single hs hn
    rw [Token.unbracketed_single [] hs]
    exact .operand (.leaf token) howes h
  · obtain rfl := Except.ok.inj hn
    rw [Token.unbracketed_openBracket]
    cases due <;> obtain rfl := Option.some.inj hd
    · simpa using h.behind
    · simpa using h.group
    · simpa using h.argument
  · rw [Token.unbracketed_closeBracket]
    rcases due with _ | ⟨_ | depth⟩ | _
    · obtain rfl := Option.some.inj hd
      simpa using (kept_tells words).combineGroup h hn
    · cases hd
    · obtain rfl := Option.some.inj hd
      obtain ⟨rest, hc, hr⟩ := h.close
      obtain rfl := Except.ok.inj (hc.symm.trans hn)
      simpa using hr
    · cases hd
  · cases due <;> cases hd
    simp only [Progress.step] at hn
    split at hn
    · obtain rfl := Except.ok.inj hn
      exact .function name p h
    · cases hn
  · cases due <;> cases hd
    obtain ⟨reduced, hc, hn⟩ := bind_eq_ok_iff.mp hn
    obtain rfl := pure_eq_ok_iff.mp hn
    exact .operator op p ((kept_tells words).combineStronger h hc)

/-- Orderly tokens are told in order when they have been read. -/
theorem Tells.run {due : Due} {state final : Progress} {words tokens : List Token}
    (h : Tells due state.output state.stack words) (hd : due.after? tokens = some .joint)
    (hr : state.run tokens = .ok final) :
    Tells .joint final.output final.stack (words ++ unbracketed tokens) := by
  induction tokens generalizing due state words with
  | nil =>
    obtain rfl := Option.some.inj hd
    obtain rfl := Except.ok.inj hr
    simpa using h
  | cons token rest ih =>
    obtain ⟨later, hl, hd⟩ := Option.bind_eq_some_iff.mp hd
    obtain ⟨next, hn, hr⟩ := bind_eq_ok_iff.mp hr
    rw [Token.unbracketed_cons, ← List.append_assoc]
    exact ih (h.step hl hn) hd hr

/-- The tree of orderly tokens has them in order. -/
theorem tokens_of_orderly {tokens : List Token} {tree : Tree} (h : ofTokens tokens = .ok tree)
    (ho : Orderly tokens) : tree.tokens = unbracketed tokens := by
  obtain ⟨-, final, hrun, hall⟩ := run_of_ofTokens h
  exact ((kept_tells _).combineAll (Tells.start.run ho hrun) hall).eq_tokens.symm

/-- Operands and operators take turns, functions in front of operands; `owed` tells that an operand
is due. -/
def InTurn : Bool → List Token → Prop
  | owed, [] => owed = false
  | owed, token :: rest =>
    match token.lexeme with
    | .operator _ => owed = false ∧ InTurn true rest
    | .function _ => owed = true ∧ InTurn true rest
    | _ => owed = true ∧ InTurn false rest

/-- An operand is in turn where one is due. -/
theorem inTurn_single {owed : Bool} {token : Token} {rest : List Token}
    (h : token.lexeme.isSingle = true) :
    InTurn owed (token :: rest) ↔ owed = true ∧ InTurn false rest := by
  rcases token with ⟨lexeme, p⟩
  cases lexeme <;> simp_all [Lexeme.isSingle, InTurn]

/-- Read in order, the tokens of a tree take turns. -/
theorem account_inTurn : Account fun _ output _ =>
    ∀ tree ∈ output, ∀ rest, InTurn false rest → InTurn true (tree.tokens ++ rest) where
  kept words := by
    refine ⟨fun {output combined waiting stack} hi hc => ?_, fun hi => hi⟩
    rcases combine_cases hc with ⟨name, p, operand, others, rfl, rfl, rfl⟩ |
      ⟨op, p, right, left, others, rfl, rfl, rfl⟩
    · obtain ⟨hoperand, hothers⟩ := List.forall_mem_cons.mp hi
      exact List.forall_mem_cons.mpr ⟨fun rest hr => ⟨rfl, hoperand rest hr⟩, hothers⟩
    · obtain ⟨hright, hi⟩ := List.forall_mem_cons.mp hi
      obtain ⟨hleft, hothers⟩ := List.forall_mem_cons.mp hi
      refine List.forall_mem_cons.mpr ⟨fun rest hr => ?_, hothers⟩
      rw [tokens, List.append_assoc]
      exact hleft _ ⟨rfl, hright rest hr⟩
  single hi hs := List.forall_mem_cons.mpr ⟨fun _ hr => (inTurn_single hs).mpr ⟨rfl, hr⟩, hi⟩
  wait _ hi := hi

/-- Tokens that a tree has in some order are in that order in what it is combined into. -/
theorem account_sublist (words : List Token) : Account fun _ output _ =>
    ∃ tree ∈ output, words.Sublist tree.tokens where
  kept _ := by
    refine ⟨fun {output combined waiting stack} hi hc => ?_, fun hi => hi⟩
    obtain ⟨tree, ht, hw⟩ := hi
    rcases combine_cases hc with ⟨name, p, operand, others, rfl, rfl, rfl⟩ |
      ⟨op, p, right, left, others, rfl, rfl, rfl⟩
    · rcases List.mem_cons.mp ht with rfl | ht
      · exact ⟨_, List.mem_cons_self, hw.cons _⟩
      · exact ⟨tree, List.mem_cons_of_mem _ ht, hw⟩
    · rcases List.mem_cons.mp ht with rfl | ht
      · exact ⟨_, List.mem_cons_self, (hw.cons _).trans (List.sublist_append_right _ _)⟩
      · rcases List.mem_cons.mp ht with rfl | ht
        · exact ⟨_, List.mem_cons_self, hw.trans (List.sublist_append_left _ _)⟩
        · exact ⟨tree, List.mem_cons_of_mem _ ht, hw⟩
  single hi _ := by
    obtain ⟨tree, ht, hw⟩ := hi
    exact ⟨tree, List.mem_cons_of_mem _ ht, hw⟩
  wait _ hi := hi

/-- The tokens of finished trees have been read. -/
theorem Tells.subset {due : Due} {output : List Tree} {stack : List Pending} {words : List Token}
    (h : Tells due output stack words) : ∀ tree ∈ output, tree.tokens ⊆ words := by
  induction h with
  | start => simp
  | operand tree _ _ ih =>
    refine List.forall_mem_cons.mpr ⟨List.subset_append_right _ _, fun other ho => ?_⟩
    exact List.subset_append_of_subset_left _ (ih other ho)
  | operator op p _ ih =>
    exact fun other ho => List.subset_append_of_subset_left _ (ih other ho)
  | function name p _ ih =>
    exact fun other ho => List.subset_append_of_subset_left _ (ih other ho)
  | argument _ ih => exact ih
  | group _ ih => exact ih
  | behind _ ih => exact ih

/-- The token that the root of a tree was made from is one of its tokens. -/
theorem head_mem_tokens (tree : Tree) : tree.head ∈ tree.tokens := by
  cases tree <;> simp [head, tokens]

/-- What waits last takes its right operand from the trees before it. -/
theorem exists_inverted {before : List Token} {last : Token} {output combined : List Tree}
    {waiting : Pending} (hlast : waiting.token? = some last)
    (hs : ∀ tree ∈ output, tree.tokens ⊆ before) (h : combine output waiting = .ok combined) :
    ∃ first ∈ before, ∃ tree ∈ combined, [last, first].Sublist tree.tokens := by
  rcases combine_cases h with ⟨name, p, operand, others, rfl, rfl, rfl⟩ |
    ⟨op, p, right, left, others, rfl, rfl, rfl⟩
  · obtain rfl := Option.some.inj hlast
    refine ⟨_, hs operand (by simp) operand.head_mem_tokens, _, List.mem_cons_self, ?_⟩
    exact (List.singleton_sublist.mpr operand.head_mem_tokens).cons_cons _
  · obtain rfl := Option.some.inj hlast
    have hmem := right.head_mem_tokens
    refine ⟨_, hs right (by simp) hmem, _, List.mem_cons_self, ?_⟩
    exact ((List.singleton_sublist.mpr hmem).cons_cons _).trans (List.sublist_append_right _ _)

/-- Closing a bracket before an operand that is due comes puts a token before an earlier one. -/
theorem Tells.exists_inverted {state next : Progress} {words : List Token}
    (h : Tells (.operand 0) state.output state.stack words)
    (hc : combineGroup state.output state.stack = .ok next) :
    ∃ before last, words = before ++ [last] ∧ ∃ first ∈ before, ∃ tree ∈ next.output,
      [last, first].Sublist tree.tokens := by
  obtain ⟨output, stack⟩ := state
  cases h with
  | start => cases hc
  | operator op p h =>
    obtain ⟨combined, hc, hr⟩ := bind_eq_ok_iff.mp hc
    obtain ⟨first, hf, hi⟩ := Tree.exists_inverted rfl h.subset hc
    exact ⟨_, _, rfl, first, hf, ((account_sublist _).kept []).combineGroup hi hr⟩
  | argument h =>
    cases h with
    | function name p h =>
      obtain ⟨combined, hc, hr⟩ := bind_eq_ok_iff.mp hc
      obtain ⟨first, hf, hi⟩ := Tree.exists_inverted rfl h.subset hc
      obtain rfl := pure_eq_ok_iff.mp hr
      exact ⟨_, _, rfl, first, hf, hi⟩

/-- What follows a token somewhere in tokens without repetition stands behind it. -/
theorem mem_of_sublist {a b : Token} {before behind : List Token}
    (hd : (before ++ a :: behind).Nodup) (hs : [a, b].Sublist (before ++ a :: behind)) :
    b ∈ behind := by
  obtain ⟨-, hbehind, hdisjoint⟩ := List.nodup_append'.mp hd
  obtain ⟨first, second, he, hf, hs⟩ := List.sublist_append_iff.mp hs
  cases first with
  | nil =>
    obtain rfl : [a, b] = second := he
    rcases List.cons_sublist_cons'.mp hs with h | ⟨-, h⟩
    · exact absurd (h.subset (by simp)) (List.nodup_cons.mp hbehind).1
    · exact List.singleton_sublist.mp h
  | cons c first =>
    obtain ⟨rfl, -⟩ := List.cons.inj he
    exact absurd List.mem_cons_self (hdisjoint (hf.subset List.mem_cons_self))

/-- Tokens that are read into a tree with the same order are orderly, if none of them comes twice.
What is due fails to come only where tokens that take turns close a bracket too early, and then a
token comes before an earlier one. -/
theorem after?_of_run {due : Due} {state final : Progress} {words tokens : List Token}
    {tree : Tree} (h : Tells due state.output state.stack words)
    (hrun : state.run tokens = .ok final)
    (hall : combineAll final.output final.stack = .ok [tree])
    (hw : tree.tokens = words ++ unbracketed tokens) (hd : tree.tokens.Nodup)
    (hturn : InTurn due.owes (unbracketed tokens))
    (hopen : due = .argument → tokens.head?.map (·.lexeme) = some .openBracket) :
    due.after? tokens = some .joint := by
  induction tokens generalizing due state words with
  | nil =>
    cases due with
    | joint => rfl
    | operand depth => cases hturn
    | argument => cases hturn
  | cons token rest ih =>
    obtain ⟨next, hn, hr⟩ := bind_eq_ok_iff.mp hrun
    have advance : ∀ later, due.behind? token.lexeme = some later →
        InTurn later.owes (unbracketed rest) →
        (later = .argument → rest.head?.map (·.lexeme) = some .openBracket) →
        due.after? (token :: rest) = some .joint := by
      intro later hl hturn hopen
      rw [Due.after?_cons, hl]
      refine ih (h.step hl hn) hr ?_ hturn hopen
      rw [List.append_assoc, ← Token.unbracketed_cons, hw]
    have hnot : token.lexeme ≠ .openBracket → due ≠ .argument :=
      fun hne he => hne (Option.some.inj (hopen he))
    rcases token.sorts with hs | ⟨p, rfl⟩ | ⟨p, rfl⟩ | ⟨name, p, rfl⟩ | ⟨op, p, rfl⟩
    · rw [Token.unbracketed_single _ hs] at hturn
      obtain ⟨howes, hrest⟩ := (inTurn_single hs).mp hturn
      cases due with
      | joint => cases howes
      | operand depth => exact advance _ (Due.behind?_single depth hs) hrest nofun
      | argument =>
        refine absurd rfl (hnot fun he => ?_)
        rw [he] at hs
        cases hs
    · cases due with
      | joint => exact advance _ rfl hturn nofun
      | operand depth => exact advance _ rfl hturn nofun
      | argument => exact advance _ rfl hturn nofun
    · rcases due with _ | ⟨_ | depth⟩ | _
      · exact advance _ rfl hturn nofun
      · -- the tokens around the bracket are not in order
        obtain ⟨before, last, rfl, first, hf, hi⟩ := h.exists_inverted hn
        have ha := account_sublist [last, first]
        obtain ⟨tree', ht, hsub⟩ := (ha.kept []).combineAll (@Account.run _ ha _ _ _ [] hi hr) hall
        obtain rfl := List.mem_singleton.mp ht
        rw [hw, List.append_assoc] at hsub hd
        have hbehind := mem_of_sublist hd hsub
        exact absurd hbehind ((List.nodup_append'.mp hd).2.2 hf ∘ List.mem_cons_of_mem _)
      · exact advance _ rfl hturn nofun
      · exact absurd rfl (hnot nofun)
    · obtain ⟨howes, hrest⟩ := hturn
      cases due with
      | joint => cases howes
      | argument => exact absurd rfl (hnot nofun)
      | operand depth =>
        refine advance _ rfl hrest fun _ => ?_
        simp only [Progress.step] at hn
        split at hn
        · assumption
        · cases hn
    · obtain ⟨howes, hrest⟩ := hturn
      cases due with
      | joint => exact advance _ rfl hrest nofun
      | operand depth => cases howes
      | argument => cases howes

/-- Tokens that spell a tree are in order wherever an operand is due. -/
theorem after?_of_spells {strength : Nat} {tokens : List Token} {tree : Tree}
    (h : Spells strength tokens tree) (depth : Nat) (rest : List Token) :
    (Due.operand depth).after? (tokens ++ rest) = Due.joint.after? rest := by
  induction h generalizing depth rest with
  | leaf h => rw [List.singleton_append, Due.after?_cons, Due.behind?_single depth h]; rfl
  | group p q _ ih =>
    rw [List.append_assoc, List.cons_append, Due.after?_cons]
    exact ih (depth + 1) _
  | call name p q r _ ih =>
    rw [List.append_assoc, List.cons_append, List.cons_append, Due.after?_cons]
    exact ih 0 _
  | binary p _ _ _ ihl ihr =>
    rw [List.append_assoc, ihl]
    exact ihr 0 rest

/-- Tokens that mean a tree are orderly. -/
theorem orderly_of_means {tokens : List Token} {tree : Tree} (h : Means tokens tree) :
    Orderly tokens := by
  cases h with
  | expression h =>
    have hall := after?_of_spells h 0 []
    rwa [List.append_nil] at hall
  | assignment name p q h =>
    have hall := after?_of_spells h 0 []
    rwa [List.append_nil] at hall

end Tree

namespace Equation

/-- An equation has all tokens that it is read from, the brackets aside, and its operands in their
order. It has all tokens in their order if they are orderly, and only then unless a token comes
twice; tokens without an operand directly behind another one are. -/
theorem tokens_root_spec {tokens : List Token} {source : String} {e : Equation}
    (h : ofTokens tokens source = .ok e) :
    e.root.tokens.Perm (Token.unbracketed tokens) ∧
    e.root.tokens.filter (·.lexeme.isSingle) = tokens.filter (·.lexeme.isSingle) ∧
    (Tree.Orderly tokens → e.root.tokens = Token.unbracketed tokens) ∧
    ((Token.unbracketed tokens).Nodup → e.root.tokens = Token.unbracketed tokens →
      Tree.Orderly tokens) ∧
    (Tree.Spaced false tokens → Tree.Orderly tokens) := by
  obtain ⟨htree, -⟩ := ofTokens_eq_ok_iff.mp h
  refine ⟨?_, ?_, Tree.tokens_of_orderly htree, ?_, ?_⟩
  · simpa using Tree.account_perm.ofTokens (List.Perm.refl _) htree
  · have hoperands := Tree.account_operands.ofTokens rfl htree
    rw [Token.filter_isSingle_unbracketed] at hoperands
    simpa using hoperands
  · intro hd hw
    obtain ⟨-, final, hrun, hall⟩ := Tree.run_of_ofTokens htree
    have hturn := Tree.account_inTurn.ofTokens (fun _ h => nomatch h) htree e.root (by simp) [] rfl
    rw [List.append_nil, hw] at hturn
    exact Tree.after?_of_run .start hrun hall hw (hw ▸ hd) hturn nofun
  · exact fun hs => Tree.orderly_of_means ((Tree.ofTokens_eq_ok_iff hs).mp htree)

/-- A sum whose sign stands behind its operands. -/
def postfixSum : List Token :=
  [⟨.number "1" (.number (.ofNat 1)), 0⟩, ⟨.number "2" (.number (.ofNat 2)), 2⟩,
    .ofOperator .add 4]

/-- A sum whose sign stands in brackets with its right operand. -/
def bracketedSum : List Token :=
  [⟨.number "1" (.number (.ofNat 1)), 0⟩, ⟨.openBracket, 2⟩, .ofOperator .add 3,
    ⟨.number "2" (.number (.ofNat 2)), 4⟩, ⟨.closeBracket, 5⟩]

/-- A sign behind both of its operands is put between them. A sign that is bracketed with its right
operand stays where it is. -/
theorem tokens_root_spec_postfix : ∃ e other,
    ofTokens postfixSum "" = .ok e ∧ e.root.tokens.Perm (Token.unbracketed postfixSum) ∧
    e.root.tokens ≠ Token.unbracketed postfixSum ∧
    ofTokens bracketedSum "" = .ok other ∧
    other.root.tokens = Token.unbracketed bracketedSum ∧ ¬ Tree.Spaced false bracketedSum := by
  let one : Lexeme := .number "1" (.number (.ofNat 1))
  let two : Lexeme := .number "2" (.number (.ofNat 2))
  have h : ofTokens postfixSum "" =
      .ok ⟨.binary .add 4 (.leaf ⟨one, 0⟩) (.leaf ⟨two, 2⟩), ""⟩ := rfl
  have ho : ofTokens bracketedSum "" =
      .ok ⟨.binary .add 3 (.leaf ⟨one, 0⟩) (.leaf ⟨two, 4⟩), ""⟩ := rfl
  obtain ⟨hperm, -, -, hexact, -⟩ := tokens_root_spec h
  obtain ⟨-, -, horder, -, -⟩ := tokens_root_spec ho
  have hdisorder : ¬ Tree.Orderly postfixSum := by decide
  refine ⟨_, _, h, hperm, fun he => hdisorder (hexact (by decide) he), ho, horder (by decide), ?_⟩
  rintro ⟨-, hbracket, -⟩
  cases hbracket rfl

end Equation

end UnitCalculator
