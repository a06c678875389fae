import UnitCalculator.Proofs.Text.Matching
import UnitCalculator.Expression.Scanner

/-!
# Brackets of a lookup

The argument of a lookup is the text up to the bracket that closes it. It closes all the brackets
that it opens, and so does what is left of it without the blanks at its ends.
-/

namespace UnitCalculator

namespace Scanner

open Text

/-- Number of brackets that are open behind a text, `none` if it closes one that is not open. -/
def depthAfter? : Nat → List Char → Option Nat
  | depth, [] => some depth
  | depth, c :: rest =>
    if c = '(' then depthAfter? (depth + 1) rest
    else if c = ')' then if depth = 0 then none else depthAfter? (depth - 1) rest
    else depthAfter? depth rest

/-- Reading one more character of a text up to the bracket that closes it. -/
theorem untilClosed?_cons (depth : Nat) (c : Char) (rest : List Char) :
    untilClosed? depth (c :: rest) =
      if c = '(' then (untilClosed? (depth + 1) rest).map (c :: ·)
      else if c = ')' then
        if depth = 0 then some [] else (untilClosed? (depth - 1) rest).map (c :: ·)
      else (untilClosed? depth rest).map (c :: ·) := by
  by_cases ho : c = '('
  · subst ho
    cases depth <;> rfl
  · by_cases hc : c = ')'
    · subst hc
      cases depth <;> rfl
    · rw [if_neg ho, if_neg hc]
      cases depth with
      | zero => rw [untilClosed?] <;> simp_all
      | succ depth => rw [untilClosed?] <;> simp_all

/-- The text up to a closing bracket closes all brackets in between, and the bracket follows. -/
theorem of_untilClosed? {depth : Nat} {text argument : List Char}
    (h : untilClosed? depth text = some argument) :
    depthAfter? depth argument = some 0 ∧ ∃ rest, text = argument ++ ')' :: rest := by
  induction text generalizing depth argument with
  | nil => cases h
  | cons c text ih =>
    rw [untilClosed?_cons] at h
    have hstep : ∀ next, (untilClosed? next text).map (c :: ·) = some argument →
        ∃ behind, argument = c :: behind ∧ depthAfter? next behind = some 0 ∧
          ∃ rest, c :: text = argument ++ ')' :: rest := by
      intro next h
      obtain ⟨behind, hb, rfl⟩ := Option.map_eq_some_iff.mp h
      obtain ⟨hd, rest, rfl⟩ := ih hb
      exact ⟨behind, rfl, hd, rest, rfl⟩
    split at h
    · next ho =>
      obtain ⟨behind, rfl, hd, hrest⟩ := hstep _ h
      exact ⟨by rw [depthAfter?, if_pos ho, hd], hrest⟩
    · next ho =>
      split at h
      · next hc =>
        split at h
        · next hzero =>
          obtain rfl := Option.some.inj h
          exact ⟨by rw [hzero]; rfl, text, by rw [hc]; rfl⟩
        · next hpos =>
          obtain ⟨behind, rfl, hd, hrest⟩ := hstep _ h
          exact ⟨by rw [depthAfter?, if_neg ho, if_pos hc, if_neg hpos, hd], hrest⟩
      · next hc =>
        obtain ⟨behind, rfl, hd, hrest⟩ := hstep _ h
        exact ⟨by rw [depthAfter?, if_neg ho, if_neg hc, hd], hrest⟩

/-- A text that closes all its brackets is found in front of a closing bracket. -/
theorem untilClosed?_append {depth : Nat} {argument : List Char} (rest : List Char)
    (h : depthAfter? depth argument = some 0) :
    untilClosed? depth (argument ++ ')' :: rest) = some argument := by
  induction argument generalizing depth with
  | nil =>
    obtain rfl := Option.some.inj h
    rfl
  | cons c argument ih =>
    rw [depthAfter?] at h
    rw [List.cons_append, untilClosed?_cons]
    split at h
    · next ho =>
      rw [if_pos ho, ih h]
      rfl
    · next ho =>
      rw [if_neg ho]
      split at h
      · next hc =>
        rw [if_pos hc]
        split at h
        · cases h
        · next hpos =>
          rw [if_neg hpos, ih h]
          rfl
      · next hc =>
        rw [if_neg hc, ih h]
        rfl

/-- Brackets are counted part by part. -/
theorem depthAfter?_append (depth : Nat) (first second : List Char) :
    depthAfter? depth (first ++ second) =
      (depthAfter? depth first).bind (depthAfter? · second) := by
  induction first generalizing depth with
  | nil => rfl
  | cons c first ih =>
    simp only [List.cons_append, depthAfter?, ih]
    repeat' split
    all_goals rfl

/-- Blanks open and close no brackets. -/
theorem depthAfter?_blanks (depth : Nat) {blanks : List Char}
    (h : ∀ c ∈ blanks, isBlank c = true) : depthAfter? depth blanks = some depth := by
  induction blanks with
  | nil => rfl
  | cons c blanks ih =>
    obtain ⟨hc, hrest⟩ := List.forall_mem_cons.mp h
    have ho : c ≠ '(' := by
      rintro rfl
      exact absurd hc (by decide)
    have hclose : c ≠ ')' := by
      rintro rfl
      exact absurd hc (by decide)
    rw [depthAfter?, if_neg ho, if_neg hclose, ih hrest]

/-- Trimming a text changes no brackets. -/
theorem depthAfter?_trim (depth : Nat) (text : List Char) :
    depthAfter? depth (trim text) = depthAfter? depth text := by
  obtain ⟨front, back, htext, hfront, hback⟩ := exists_strip isBlank text
  have hwhole : depthAfter? depth text =
      (depthAfter? depth (trim text)).bind (depthAfter? · back) := by
    rw [htext, depthAfter?_append, depthAfter?_append, depthAfter?_blanks depth hfront, ← htext]
    rfl
  rw [hwhole]
  cases depthAfter? depth (trim text) with
  | none => rfl
  | some still => exact (depthAfter?_blanks still hback).symm

end Scanner

end UnitCalculator
