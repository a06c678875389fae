import UnitCalculator.Proofs.Storage.Files
import UnitCalculator.Proofs.Text.Lines
import UnitCalculator.Worksheet.Basic

/-!
# Equation files

The lines of a worksheet are saved one behind the other, each closed by a line feed. Loading takes
the text apart at every line boundary, so a line that holds one comes back in pieces, and lines that
were loaded once are saved and loaded unchanged.
-/

namespace UnitCalculator.Worksheet

open Storage

/-- Lines without carriage returns are read from the joined lines. -/
theorem linesOfText_textOfLines {lines : List String} (h : ∀ line ∈ lines, '\r' ∉ line.toList) :
    linesOfText (textOfLines lines) =
      (Text.splitLines (Text.joinLines (lines.map String.toList))).map String.ofList := by
  rw [linesOfText, textOfLines, String.toList_ofList,
    Text.unifyNewlines_eq_self (Text.not_mem_joinLines (List.forall_mem_map.mpr h))]

/-- The lines of the file that holds some lines are the pieces between their line boundaries. -/
theorem linesOfText_textOfLines_eq_flatMap {lines : List String}
    (h : ∀ line ∈ lines, '\r' ∉ line.toList) :
    linesOfText (textOfLines lines) =
      lines.flatMap fun line => (line.toList.splitOnP Text.isLineBoundary).map String.ofList := by
  rw [linesOfText_textOfLines h, Text.splitLines_joinLines (List.forall_mem_map.mpr h),
    List.flatMap_map, List.map_flatMap]

/-- No line of a file holds a line boundary. -/
theorem isLineBoundary_of_mem_linesOfText {text line : String} (h : line ∈ linesOfText text) :
    ∀ c ∈ line.toList, Text.isLineBoundary c = false := by
  obtain ⟨chars, hc, rfl⟩ := List.mem_map.mp h
  rw [String.toList_ofList]
  exact Text.isLineBoundary_of_mem_splitLines hc

/-- The file that holds lines without line boundaries has the same lines. -/
theorem linesOfText_textOfLines_of_plain {lines : List String}
    (h : ∀ line ∈ lines, ∀ c ∈ line.toList, Text.isLineBoundary c = false) :
    linesOfText (textOfLines lines) = lines := by
  have hr : ∀ line ∈ lines, '\r' ∉ line.toList :=
    fun line hline hc => nomatch (h line hline _ hc : true = false)
  rw [linesOfText_textOfLines hr, Text.splitLines_joinLines_of_plain (List.forall_mem_map.mpr h),
    List.map_map]
  exact (List.map_congr_left fun line _ => String.ofList_toList).trans (List.map_id lines)

/-- Lines that were loaded are saved and loaded unchanged. -/
theorem linesOfText_textOfLines_linesOfText (text : String) :
    linesOfText (textOfLines (linesOfText text)) = linesOfText text :=
  linesOfText_textOfLines_of_plain fun _ => isLineBoundary_of_mem_linesOfText

/-- Lines that are saved in a file are loaded as the pieces between their line boundaries, in order.
They are loaded as the same lines exactly if none of them holds a line boundary. -/
theorem linesOfText_saved_spec {store saved : FileStore} {path : String} {lines : List String}
    (hlines : ∀ line ∈ lines, '\n' ∉ line.toList ∧ '\r' ∉ line.toList)
    (hsaved : (FileStore.access.write path (textOfLines lines).toUTF8).run store =
      (.ok (), saved)) :
    ∃ text, (FileStore.access.readText path).run saved = (.ok text, saved) ∧
      linesOfText text = lines.flatMap (fun line =>
        (line.toList.splitOnP Text.isLineBoundary).map String.ofList) ∧
      (linesOfText text = lines ↔
        ∀ line ∈ lines, ∀ c ∈ line.toList, Text.isLineBoundary c = false) := by
  refine ⟨textOfLines lines, FileStore.readText_of_write hsaved,
    linesOfText_textOfLines_eq_flatMap fun line hline => (hlines line hline).2,
    fun h line hline => ?_, linesOfText_textOfLines_of_plain⟩
  exact isLineBoundary_of_mem_linesOfText (h.symm ▸ hline)

/-- A form feed ends a line within a line that is saved. -/
theorem linesOfText_saved_spec_formFeed :
    (∀ line ∈ ["a = 1\x0c+ 2", ""], '\n' ∉ line.toList ∧ '\r' ∉ line.toList) ∧
      ∃ saved, (FileStore.access.write "f" (textOfLines ["a = 1\x0c+ 2", ""]).toUTF8).run {} =
          (.ok (), saved) ∧
        ∃ text, (FileStore.access.readText "f").run saved = (.ok text, saved) ∧
          linesOfText text = ["a = 1", "+ 2", ""] ∧ linesOfText text ≠ ["a = 1\x0c+ 2", ""] := by
  have hlines : ∀ line ∈ ["a = 1\x0c+ 2", ""], '\n' ∉ line.toList ∧ '\r' ∉ line.toList := by
    decide
  have hsaved : ∀ bytes, (FileStore.access.write "f" bytes).run {} =
      (.ok (), FileStore.put {} ⟨.working 0, ["f"]⟩ bytes) := fun _ => rfl
  obtain ⟨text, hread, hpieces, hiff⟩ := linesOfText_saved_spec hlines (hsaved _)
  refine ⟨hlines, _, hsaved _, text, hread, hpieces.trans (by decide +kernel), fun h => ?_⟩
  have hplain := hiff.mp h "a = 1\x0c+ 2" List.mem_cons_self '\x0c' (by decide)
  exact absurd hplain (by decide)

end UnitCalculator.Worksheet
