import Reckoner.Proofs.Net.Session

/-!
# Report — a line for each outcome

Whatever becomes of a request in a run can be summed up, and in one line if its expression is one. So
the report on the outcomes of a run is read line by line as the summaries that were put into it.
-/

namespace Reckoner.Net.Client

open Text

theorem exists_shown {P : String → Prop} {outcomes : List Outcome}
    (h : ∀ o ∈ outcomes, ∃ line, o.summary? = some line ∧ P line) :
    ∃ shown : List String, outcomes.map Outcome.summary? = shown.map some ∧
      ∀ line ∈ shown, P line := by
  induction outcomes with
  | nil => exact ⟨[], rfl, List.forall_mem_nil _⟩
  | cons o outcomes ih =>
    rw [List.forall_mem_cons] at h
    rcases h.1 with ⟨line, hline, hP⟩
    rcases ih h.2 with ⟨shown, hshown, hall⟩
    refine ⟨line :: shown, ?_, List.forall_mem_cons.mpr ⟨hP, hall⟩⟩
    rw [List.map_cons, hline, hshown, List.map_cons]

-- Requests with expressions on one line have outcomes with one line each.
theorem exists_shown_answers (plans : List Plan) {requests : List Request}
    (h : ∀ r ∈ requests, Unbroken r.expression.toList) :
    ∃ shown : List String, (Pool.answers plans requests).map Outcome.summary? = shown.map some ∧
      ∀ line ∈ shown, Unbroken line.toList := by
  refine exists_shown fun o ho => ?_
  rcases Pool.exists_of_mem_answers ho with ⟨plan, r, hr, rfl⟩
  exact (plan.handled_outcome r).exists_summary (h r hr)

-- Outcomes that can all be summed up.
theorem leadingSummaries_eq {outcomes : List Outcome} {shown : List String}
    (h : outcomes.map Outcome.summary? = shown.map some) : leadingSummaries outcomes = shown := by
  induction outcomes generalizing shown with
  | nil => exact (List.map_eq_nil_iff.mp h.symm).symm
  | cons o outcomes ih =>
    cases shown with
    | nil => exact nomatch h
    | cons line shown =>
      rw [List.map_cons, List.map_cons, List.cons.injEq] at h
      rw [leadingSummaries, h.1]
      exact congrArg (line :: ·) (ih h.2)

-- A report has a line feed after each summary.
theorem toList_report (shown : List String) :
    (report shown).toList = shown.flatMap fun line => line.toList ++ ['\n'] := by
  have hfrom (done : String) :
      (shown.foldl (fun text line => text ++ line ++ "\n") done).toList =
        done.toList ++ shown.flatMap fun line => line.toList ++ ['\n'] := by
    induction shown generalizing done with
    | nil => exact (List.append_nil _).symm
    | cons line shown ih =>
      rw [List.foldl_cons, ih, String.toList_append, String.toList_append, List.flatMap_cons,
        List.append_assoc, List.append_assoc, List.append_assoc]
      rfl
  exact hfrom ""

-- The lines of a report are the summaries.
theorem lines_report {shown : List String} (h : ∀ line ∈ shown, Unbroken line.toList) :
    lines (report shown).toList = shown.map String.toList := by
  have hlines := lines_flatMap (List.forall_mem_map.mpr h)
  rw [List.flatMap_map] at hlines
  rw [toList_report]
  exact hlines

end Reckoner.Net.Client
