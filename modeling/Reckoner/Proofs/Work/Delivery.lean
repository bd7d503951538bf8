import Mathlib.Data.List.Range
import Reckoner.Proofs.Members
import Reckoner.Work.Pool

/-!
# Delivery — from a worker's message to the results

A message carries an outcome unchanged, whatever members stand before those of the outcome. While the
workers of a pool deliver what is expected of their lines, each line that was started is either that
of a worker or has its outcome, and never both. Passes over the workers keep this, so waiting for
them ends with all outcomes in place.
-/

namespace Reckoner

/-! ## Messages -/

theorem Task.ofValue_message (t : Task) : Outcome.ofValue t.message = .ok t.outcome :=
  t.outcome.ofMembers_append [("line", .int t.line)]

/-! ## Results -/

namespace Results

variable {line : Nat} {o : Outcome} {results : Results}

/-- The lines that have an outcome. -/
def lines (results : Results) : List Nat := results.map (·.1)

theorem perm_lines_insert (h : line ∉ results.lines) :
    (insert line o results).lines.Perm (line :: results.lines) := by
  induction results with
  | nil => exact .refl _
  | cons entry rest ih =>
    rcases entry with ⟨l, p⟩
    have hdiffers : line ≠ l := List.ne_of_not_mem_cons h
    have hrest : line ∉ lines rest := List.not_mem_of_not_mem_cons h
    simp only [insert]
    by_cases hbefore : line < l
    · rw [if_pos hbefore]
      exact .refl _
    · rw [if_neg hbefore, if_neg hdiffers]
      exact ((ih hrest).cons l).trans (.swap line l _)

theorem mem_insert {entry : Nat × Outcome} (h : entry ∈ insert line o results) :
    entry = (line, o) ∨ entry ∈ results := by
  induction results with
  | nil => exact .inl (List.mem_singleton.mp h)
  | cons first rest ih =>
    rcases first with ⟨l, p⟩
    simp only [insert] at h
    split at h
    · exact List.mem_cons.mp h
    · split at h
      · rcases List.mem_cons.mp h with hnew | hold
        · exact .inl hnew
        · exact .inr (List.mem_cons_of_mem _ hold)
      · rcases List.mem_cons.mp h with hfirst | hrest
        · exact .inr (hfirst ▸ List.mem_cons_self)
        · exact (ih hrest).imp_right (List.mem_cons_of_mem _)

theorem pairwise_insert (h : results.Pairwise (·.1 < ·.1)) :
    (insert line o results).Pairwise (·.1 < ·.1) := by
  induction results with
  | nil => exact List.pairwise_singleton _ _
  | cons first rest ih =>
    rcases first with ⟨l, p⟩
    rcases List.pairwise_cons.mp h with ⟨hfirst, hrest⟩
    simp only [insert]
    by_cases hbefore : line < l
    · rw [if_pos hbefore]
      refine List.pairwise_cons.mpr ⟨fun entry hmem => ?_, h⟩
      rcases List.mem_cons.mp hmem with rfl | hmem
      · exact hbefore
      · exact Nat.lt_trans hbefore (hfirst entry hmem)
    · rw [if_neg hbefore]
      by_cases hsame : line = l
      · subst hsame
        rw [if_pos rfl]
        exact List.pairwise_cons.mpr ⟨hfirst, hrest⟩
      · rw [if_neg hsame]
        refine List.pairwise_cons.mpr ⟨fun entry hmem => ?_, ih hrest⟩
        rcases mem_insert hmem with rfl | hmem
        · show l < line
          omega
        · exact hfirst entry hmem

end Results

/-! ## The invariant -/

/-- The state of a pool that has started the lines from one to `started`, each of which is expected
to have a certain outcome. -/
structure Accounted (expected : Nat → Outcome) (started : Nat) (active : List Worker)
    (results : Results) : Prop where
  delivers : ∀ w ∈ active, w.harvest = .ok (expected w.line)
  answered : ∀ entry ∈ results, entry.2 = expected entry.1
  ascending : results.Pairwise (·.1 < ·.1)
  lines : (active.map (·.line) ++ results.lines).Perm (List.range' 1 started)

namespace Accounted

variable {expected : Nat → Outcome} {started : Nat} {active : List Worker} {results : Results}

theorem initial (expected : Nat → Outcome) : Accounted expected 0 [] [] where
  delivers := List.forall_mem_nil _
  answered := List.forall_mem_nil _
  ascending := .nil
  lines := .refl _

-- A worker that has ended gives its line over to the results.
theorem settle {front back : List Worker} {w : Worker}
    (h : Accounted expected started (front ++ w :: back) results) :
    Accounted expected started (front ++ back)
      (results.insert w.line (expected w.line)) := by
  have hall : ((front ++ w :: back).map (·.line)).Perm
      (w.line :: (front ++ back).map (·.line)) := List.perm_middle.map _
  have hlines := ((hall.symm.append_right _).trans h.lines)
  have hnodup := hlines.nodup_iff.mpr List.nodup_range'
  have habsent : w.line ∉ results.lines := fun hmem =>
    (List.nodup_append.mp hnodup).2.2 w.line List.mem_cons_self w.line hmem rfl
  constructor
  · intro v hmem
    apply h.delivers
    rcases List.mem_append.mp hmem with hfront | hback
    · exact List.mem_append_left _ hfront
    · exact List.mem_append_right _ (List.mem_cons_of_mem w hback)
  · intro entry hmem
    rcases Results.mem_insert hmem with rfl | hold
    · rfl
    · exact h.answered entry hold
  · exact Results.pairwise_insert h.ascending
  · refine .trans ?_ hlines
    rw [List.cons_append]
    exact ((Results.perm_lines_insert habsent).append_left _).trans List.perm_middle

-- A worker that was found running is the same but for the number of polls to come.
theorem keep {front back : List Worker} {w : Worker} (polls : Nat)
    (h : Accounted expected started (front ++ w :: back) results) :
    Accounted expected started (front ++ { w with polls } :: back) results := by
  constructor
  · intro v hmem
    rcases List.mem_append.mp hmem with hfront | hback
    · exact h.delivers v (List.mem_append_left _ hfront)
    · rcases List.mem_cons.mp hback with rfl | hback
      · exact h.delivers w (List.mem_append_right _ List.mem_cons_self)
      · exact h.delivers v (List.mem_append_right _ (List.mem_cons_of_mem w hback))
  · exact h.answered
  · exact h.ascending
  · have hlines := h.lines
    rw [List.map_append, List.map_cons] at hlines ⊢
    exact hlines

-- A worker for the next line joins the others.
theorem start {w : Worker} (h : Accounted expected started active results)
    (hline : w.line = started + 1) (hdelivers : w.harvest = .ok (expected (started + 1))) :
    Accounted expected (started + 1) (active ++ [w]) results := by
  constructor
  · intro v hmem
    rcases List.mem_append.mp hmem with hold | hnew
    · exact h.delivers v hold
    · rw [List.mem_singleton.mp hnew, hline]
      exact hdelivers
  · exact h.answered
  · exact h.ascending
  · have hmoved : ((active ++ [w]).map (·.line) ++ results.lines).Perm
        ((active.map (·.line) ++ results.lines) ++ [w.line]) := by
      rw [List.map_append, List.append_assoc, List.append_assoc]
      exact List.perm_append_comm.append_left _
    refine hmoved.trans ?_
    rw [List.range'_concat, hline, Nat.one_mul, Nat.add_comm 1 started]
    exact h.lines.append_right _

-- Once no worker is left, the results are the expected outcomes in the order of the lines.
theorem outcomes_eq (h : Accounted expected started [] results) :
    results.map (·.2) = (List.range' 1 started).map expected := by
  have hlines : results.lines = List.range' 1 started := by
    have hasc : results.lines.Pairwise (· < ·) := List.pairwise_map.mpr h.ascending
    refine h.lines.eq_of_pairwise ?_ hasc List.pairwise_lt_range'
    intro a b _ _ hab hba
    omega
  rw [← hlines, Results.lines, List.map_map]
  exact List.map_congr_left fun entry hmem => h.answered entry hmem

end Accounted

/-! ## Passes -/

namespace Sweep

variable {expected : Nat → Outcome} {started : Nat}

-- One worker that is asked.
theorem accounted_visit {front : List Worker} {s : Sweep} {w : Worker} (hunbroken : s.faults = none)
    (h : Accounted expected started (front ++ w :: s.pool.active) s.pool.results) :
    (s.visit w).faults = none ∧
      Accounted expected started (front ++ (s.visit w).pool.active)
        (s.visit w).pool.results := by
  have hdelivers := h.delivers w (List.mem_append_right _ List.mem_cons_self)
  rcases s with ⟨p, faults⟩
  cases hunbroken
  rcases w with ⟨number, line, request, _ | polls, message, exitCode⟩
  · simp only [visit, hdelivers]
    exact ⟨trivial, h.settle⟩
  · exact ⟨rfl, h.keep polls⟩

theorem accounted_sweep (front : List Worker) {before : Pool} {workers : List Worker}
    (h : Accounted expected started (front ++ workers) before.results) :
    (sweep before workers).faults = none ∧
      Accounted expected started (front ++ (sweep before workers).pool.active)
        (sweep before workers).pool.results := by
  induction workers generalizing front with
  | nil => exact ⟨rfl, h⟩
  | cons w ws ih =>
    -- The workers after `w` are asked first, while `w` still stands with those in front.
    rw [List.append_cons] at h
    rcases ih (front ++ [w]) h with ⟨hunbroken, hrest⟩
    rw [← List.append_cons] at hrest
    exact accounted_visit hunbroken hrest

end Sweep

namespace Pool

/-- Waiting for room ends, and ends without a fault. -/
theorem waitFor_eq_ok {expected : Nat → Outcome} {started room : Nat} {p : Pool} (hroom : 0 < room)
    (h : Accounted expected started p.active p.results) :
    ∃ q, p.waitFor room = .ok q ∧ q.active.length < room ∧
      Accounted expected started q.active q.results := by
  fun_induction waitFor room p with
  | case1 p hfree =>
    refine ⟨p, rfl, ?_, h⟩
    rcases hfree with hless | hempty
    · exact hless
    · rw [hempty]
      exact hroom
  | case2 p hbusy faults hbroken =>
    have hunbroken := (Sweep.accounted_sweep [] h).1
    exact absurd (hunbroken.symm.trans hbroken) (fun heq => nomatch heq)
  | case3 p hbusy hunbroken ih =>
    exact ih (Sweep.accounted_sweep [] h).2

end Pool

end Reckoner
