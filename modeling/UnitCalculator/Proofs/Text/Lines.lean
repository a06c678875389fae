import UnitCalculator.Text.Lines

/-!
# Reading back joined lines

Joined lines are closed by line feeds, but a text is taken apart at every line boundary. A line that
holds other boundaries comes back in the pieces between them; no line that was read holds any.
-/

namespace UnitCalculator.Text

/-- A text without carriage returns is left as it is. -/
theorem unifyNewlines_eq_self {text : List Char} (h : '\r' ∉ text) : unifyNewlines text = text := by
  induction text with
  | nil => rfl
  | cons c rest ih =>
    obtain ⟨hc, hrest⟩ := not_or.mp (mt List.mem_cons.mpr h)
    rw [unifyNewlines.eq_3 _ _ (fun _ hr _ => hc hr.symm), ih hrest, if_neg (Ne.symm hc)]

/-- A character that is no carriage return ends a line or belongs to the line that goes on. -/
theorem splitLines_cons {c : Char} (hc : '\r' ≠ c) (rest : List Char) :
    splitLines (c :: rest) =
      if isLineBoundary c then [] :: splitLines rest
      else match splitLines rest with
        | [] => [[c]]
        | line :: lines => (c :: line) :: lines := by
  exact splitLines.eq_3 _ _ fun _ hr _ => hc hr.symm

/-- A line in front of a line feed is read as the pieces between its line boundaries. -/
theorem splitLines_append_newline {line : List Char} (h : '\r' ∉ line) (rest : List Char) :
    splitLines (line ++ '\n' :: rest) = line.splitOnP isLineBoundary ++ splitLines rest := by
  induction line with
  | nil => rfl
  | cons c line ih =>
    obtain ⟨hc, hline⟩ := not_or.mp (mt List.mem_cons.mpr h)
    rw [List.cons_append, splitLines_cons hc, ih hline, List.splitOnP_cons_eq_if_modifyHead]
    obtain ⟨piece, pieces, hp⟩ :=
      List.exists_cons_of_ne_nil (List.splitOnP_ne_nil isLineBoundary line)
    rw [hp]
    split <;> rfl

/-- No line of a text holds a line boundary. -/
theorem isLineBoundary_of_mem_splitLines {text line : List Char} (h : line ∈ splitLines text) :
    ∀ c ∈ line, isLineBoundary c = false := by
  fun_induction splitLines text generalizing line with
  | case1 => cases h
  | case2 rest ih =>
    rcases List.mem_cons.mp h with rfl | h
    · exact fun c hc => nomatch hc
    · exact ih h
  | case3 c rest _ hb ih =>
    rcases List.mem_cons.mp h with rfl | h
    · exact fun c hc => nomatch hc
    · exact ih h
  | case4 c rest _ hb hn ih =>
    rw [List.mem_singleton.mp h]
    exact List.forall_mem_singleton.mpr (eq_false_of_ne_true hb)
  | case5 c rest _ hb first others hs ih =>
    rw [hs] at ih
    rcases List.mem_cons.mp h with rfl | h
    · exact List.forall_mem_cons.mpr
        ⟨eq_false_of_ne_true hb, ih List.mem_cons_self⟩
    · exact ih (List.mem_cons_of_mem _ h)

/-- Joined lines hold a carriage return only if one of the lines does. -/
theorem not_mem_joinLines {lines : List (List Char)} (h : ∀ line ∈ lines, '\r' ∉ line) :
    '\r' ∉ joinLines lines := by
  induction lines with
  | nil => exact List.not_mem_nil
  | cons line lines ih =>
    obtain ⟨hline, hlines⟩ := List.forall_mem_cons.mp h
    rw [joinLines, List.mem_append, List.mem_cons]
    rintro (hc | hc | hc)
    · exact hline hc
    · cases hc
    · exact ih hlines hc

/-- Joined lines are read as the pieces between the line boundaries of the lines, in order. -/
theorem splitLines_joinLines {lines : List (List Char)} (h : ∀ line ∈ lines, '\r' ∉ line) :
    splitLines (joinLines lines) = lines.flatMap (·.splitOnP isLineBoundary) := by
  induction lines with
  | nil => rfl
  | cons line lines ih =>
    obtain ⟨hline, hlines⟩ := List.forall_mem_cons.mp h
    rw [joinLines, splitLines_append_newline hline, ih hlines, List.flatMap_cons]

/-- Joined lines without line boundaries are read as the same lines. -/
theorem splitLines_joinLines_of_plain {lines : List (List Char)}
    (h : ∀ line ∈ lines, ∀ c ∈ line, isLineBoundary c = false) :
    splitLines (joinLines lines) = lines := by
  induction lines with
  | nil => rfl
  | cons line lines ih =>
    obtain ⟨hline, hlines⟩ := List.forall_mem_cons.mp h
    have hr : '\r' ∉ line := fun hc => nomatch (hline _ hc : true = false)
    rw [joinLines, splitLines_append_newline hr, List.splitOnP_eq_singleton hline, ih hlines]
    rfl

end UnitCalculator.Text
