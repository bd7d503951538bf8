import Reckoner.Proofs.Work.Trace

/-!
# Passes — one pass over the workers of a pool

A pass asks the workers from the last one to the first. Those that have ended are joined and gone,
the others stay in their order. Of several that have ended on one line, the first in the list is
asked last, so its outcome stays. A message that is no outcome breaks the pass off: its worker is
gone as well, and those in front of it have not been asked. Either way each worker is still there or
has been joined, and so it is after any number of passes.
-/

namespace Reckoner

/-! ## What becomes of a worker -/

namespace Worker

def hasEnded (w : Worker) : Bool := w.polls == 0

/-- The worker has ended, and has sent a message that is no outcome. -/
def IsBroken (w : Worker) : Prop :=
  w.hasEnded = true ∧ ∃ m faults, w.message = some m ∧ Outcome.ofValue m = .error faults

/-- The outcome that a worker leaves once it has ended: the one that it has sent, or that it has sent
nothing. -/
inductive Leaves (w : Worker) : Outcome → Prop
  | sent {m : Json.Value} {o : Outcome} (hmessage : w.message = some m)
      (houtcome : Outcome.ofValue m = .ok o) : w.Leaves o
  | silent (hmessage : w.message = none) : w.Leaves
      ⟨w.request.expression, none, some "Worker exited without sending a result", false⟩

/-- The worker after it has been found running once more. -/
def asked (w : Worker) : Worker := { w with polls := w.polls - 1 }

/-- The outcomes with that of the worker, if it has ended and left one. -/
def settle (w : Worker) (results : Results) : Results :=
  match w.hasEnded, w.harvest with
  | true, .ok o => results.insert w.line o
  | _, _ => results

/-- What happens to a worker that is asked. -/
def passEvents (w : Worker) : List Event :=
  if w.hasEnded then [.polled w.number, .joined w.number] else [.polled w.number]

/-- What is logged about a worker that is asked: that it has ended and sent nothing. -/
def passEntries (w : Worker) : List Log.Entry :=
  if w.hasEnded && w.message.isNone then
    [⟨.error, "👷💀 Worker for line " ++ toString w.line ++ " exited with code "
      ++ toString w.exitCode⟩]
  else []

theorem leaves_of_harvest {w : Worker} {o : Outcome} (h : w.harvest = .ok o) : w.Leaves o := by
  rw [harvest] at h
  split at h
  · rename_i m hmessage
    exact .sent hmessage h
  · rename_i hmessage
    cases h
    exact .silent hmessage

theorem harvest_eq_error_iff {w : Worker} {faults : List Record.Fault} :
    w.harvest = .error faults ↔
      ∃ m, w.message = some m ∧ Outcome.ofValue m = .error faults := by
  rw [harvest]
  constructor
  · intro h
    split at h
    · rename_i m hmessage
      exact ⟨m, hmessage, h⟩
    · cases h
  · rintro ⟨m, hmessage, h⟩
    rw [hmessage]
    exact h

theorem isBroken_iff {w : Worker} :
    w.IsBroken ↔ w.hasEnded = true ∧ ∃ faults, w.harvest = .error faults := by
  constructor
  · rintro ⟨hended, m, faults, hfaults⟩
    exact ⟨hended, faults, harvest_eq_error_iff.mpr ⟨m, hfaults⟩⟩
  · rintro ⟨hended, faults, hharvest⟩
    rcases harvest_eq_error_iff.mp hharvest with ⟨m, hfaults⟩
    exact ⟨hended, m, faults, hfaults⟩

end Worker

/-- The workers that are still running, after each has been asked. -/
def stillRunning (workers : List Worker) : List Worker :=
  (workers.filter (!·.hasEnded)).map .asked

/-- The first of the workers that have ended on a line. -/
def endedOn? (line : Nat) (workers : List Worker) : Option Worker :=
  workers.find? fun w => w.hasEnded && w.line == line

/-- The pool after all of these workers have been asked, and none of them was broken. -/
def Pool.afterAsking (before : Pool) (workers : List Worker) : Pool where
  active := stillRunning workers
  results := workers.foldr Worker.settle before.results
  events := before.events ++ workers.reverse.flatMap Worker.passEvents
  entries := before.entries ++ workers.reverse.flatMap Worker.passEntries

variable {before : Pool} {workers front back : List Worker} {w : Worker}

/-! ## The pool after a pass -/

namespace Sweep

theorem visit_of_not_isBroken (h : ¬w.IsBroken) :
    visit ⟨before.afterAsking workers, none⟩ w = ⟨before.afterAsking (w :: workers), none⟩ := by
  rcases w with ⟨number, line, request, _ | polls, message, exitCode⟩
  · -- The worker has ended, so its message is an outcome.
    cases hharvest : Worker.harvest ⟨number, line, request, 0, message, exitCode⟩ with
    | error faults => exact absurd (Worker.isBroken_iff.mpr ⟨rfl, faults, hharvest⟩) h
    | ok o =>
      simp only [visit, hharvest, Pool.afterAsking, List.reverse_cons, List.flatMap_append,
        List.flatMap_singleton, List.foldr_cons, ← List.append_assoc]
      simp [Worker.settle, Worker.hasEnded, hharvest, stillRunning, Worker.passEvents,
        Worker.passEntries, Worker.harvestEntries, Worker.lossEntry]
  · simp [visit, Pool.afterAsking, Worker.settle, Worker.hasEnded, stillRunning, Worker.asked,
      Worker.passEvents, Worker.passEntries]

/-- A pass over workers of which none is broken comes to its end. -/
theorem sweep_of_not_isBroken (h : ∀ w ∈ workers, ¬w.IsBroken) :
    sweep before workers = ⟨before.afterAsking workers, none⟩ := by
  induction workers with
  | nil => simp [sweep, Pool.afterAsking, stillRunning]
  | cons w workers ih =>
    rw [List.forall_mem_cons] at h
    change (sweep before workers).visit w = _
    rw [ih h.2, visit_of_not_isBroken h.1]

-- Once a pass is broken off, the workers in front stay as they are.
theorem sweep_append_of_faults {faults : List Record.Fault}
    (h : (sweep before back).faults = some faults) :
    sweep before (front ++ back) =
      { sweep before back with pool := { (sweep before back).pool with
          active := front ++ (sweep before back).pool.active } } := by
  induction front with
  | nil => rfl
  | cons v front ih =>
    change (sweep before (front ++ back)).visit v = _
    rw [ih]
    simp only [visit, h, List.cons_append]

/-- A pass is broken off at the last worker that is broken: it is joined, and those in front of it
have not been asked. -/
theorem sweep_of_isBroken {faults : List Record.Fault} (hended : w.hasEnded = true)
    (hharvest : w.harvest = .error faults) (hback : ∀ v ∈ back, ¬v.IsBroken) :
    sweep before (front ++ w :: back) =
      ⟨{ before.afterAsking back with
          active := front ++ stillRunning back
          events := before.events ++ (w :: back).reverse.flatMap Worker.passEvents }, some faults⟩ := by
  have hbroken : sweep before (w :: back) =
      ⟨{ before.afterAsking back with
          events := before.events ++ (w :: back).reverse.flatMap Worker.passEvents },
        some faults⟩ := by
    change (sweep before back).visit w = _
    rw [sweep_of_not_isBroken hback]
    rcases w with ⟨number, line, request, _ | polls, _ | message, exitCode⟩
    · cases hharvest
    · simp [visit, hharvest, Pool.afterAsking, Worker.passEvents, Worker.hasEnded,
        Worker.harvestEntries]
    · cases hended
    · cases hended
  rw [sweep_append_of_faults (by rw [hbroken]), hbroken]
  rfl

end Sweep

/-! ## Outcomes -/

namespace Results

-- The worker that was asked last has the last word on its line.
theorem find?_foldr_settle (h : ∀ w ∈ workers, ¬w.IsBroken) (results : Results) (line : Nat) :
    match endedOn? line workers with
    | some w => ∃ o, w.Leaves o ∧ find? line (workers.foldr Worker.settle results) = some o
    | none => find? line (workers.foldr Worker.settle results) = find? line results := by
  induction workers with
  | nil => rfl
  | cons w workers ih =>
    rw [List.forall_mem_cons] at h
    rw [List.foldr_cons, endedOn?, List.find?_cons, ← endedOn?]
    cases hended : w.hasEnded with
    | false => simpa [Worker.settle, hended] using ih h.2
    | true =>
      cases hharvest : w.harvest with
      | error faults => exact absurd (Worker.isBroken_iff.mpr ⟨hended, faults, hharvest⟩) h.1
      | ok o =>
        simp only [Worker.settle, hended, hharvest, find?_insert, Bool.true_and]
        by_cases hline : line = w.line
        · simpa [hline] using Worker.leaves_of_harvest hharvest
        · have hother : (w.line == line) = false := beq_eq_false_iff_ne.mpr fun heq => hline heq.symm
          rw [if_neg hline, hother]
          exact ih h.2

end Results

/-! ## No worker is lost -/

/-- The workers that have been joined and those that a pool still has. -/
def Pool.joinedOrActive (p : Pool) : List Nat := Event.joins p.events ++ p.active.map (·.number)

namespace Sweep

-- The number of a worker that is joined moves from the one list to the other.
theorem joinedOrActive_visit (s : Sweep) (w : Worker) :
    (s.visit w).pool.joinedOrActive =
      Event.joins s.pool.events ++ w.number :: s.pool.active.map (·.number) := by
  rcases s with ⟨p, _ | faults⟩
  · rcases w with ⟨number, line, request, _ | polls, message, exitCode⟩
    · have hjoins : Event.joins (p.events ++ [.polled number, .joined number]) =
          Event.joins p.events ++ [number] := List.filterMap_append
      simp only [visit]
      split <;> rw [Pool.joinedOrActive, hjoins, List.append_assoc, List.singleton_append]
    · have hjoins : Event.joins (p.events ++ [.polled number]) = Event.joins p.events :=
        List.filterMap_append.trans (List.append_nil _)
      rw [visit, Pool.joinedOrActive, hjoins, List.map_cons]
  · rfl

theorem joinedOrActive_sweep (before : Pool) (workers : List Worker) :
    (sweep before workers).pool.joinedOrActive.Perm
      (Event.joins before.events ++ workers.map (·.number)) := by
  induction workers with
  | nil => exact .refl _
  | cons w workers ih =>
    change ((sweep before workers).visit w).pool.joinedOrActive.Perm _
    rw [joinedOrActive_visit, List.map_cons]
    exact List.perm_middle.trans ((ih.cons w.number).trans List.perm_middle.symm)

end Sweep

namespace Pool

/-- The pool after so many passes, whether they were broken off or not. -/
def passes (n : Nat) (p : Pool) : Pool := (fun q => q.collect.pool)^[n] p

theorem joinedOrActive_passes (n : Nat) (p : Pool) :
    (passes n p).joinedOrActive.Perm p.joinedOrActive := by
  induction n generalizing p with
  | zero => exact .refl _
  | succ n ih => exact (ih p.collect.pool).trans (Sweep.joinedOrActive_sweep p p.active)

-- Either no worker is broken, or there is a last one that is.
theorem forall_or_exists_last (workers : List Worker) :
    (∀ w ∈ workers, ¬w.IsBroken) ∨
      ∃ front w back, workers = front ++ w :: back ∧ w.IsBroken ∧ ∀ v ∈ back, ¬v.IsBroken := by
  induction workers with
  | nil => exact .inl (List.forall_mem_nil _)
  | cons w workers ih =>
    rcases ih with hnone | ⟨front, v, back, rfl, hv, hback⟩
    · by_cases hw : w.IsBroken
      · exact .inr ⟨[], w, workers, rfl, hw, hnone⟩
      · exact .inl (List.forall_mem_cons.mpr ⟨hw, hnone⟩)
    · exact .inr ⟨w :: front, v, back, rfl, hv, hback⟩

/-- What a pass has made of a pool: the workers in front have not been asked, those that were asked
are gone if they had ended, and the first that had ended on a line among those that settled has left
its outcome there. Every other line has the outcome that it had. -/
structure PassedOver (before : Pool) (front asked settled : List Worker) (after : Pool) : Prop where
  active : after.active = front ++ stillRunning asked
  results : ∀ line, match endedOn? line settled with
    | some w => ∃ o, w.Leaves o ∧ Results.find? line after.results = some o
    | none => Results.find? line after.results = Results.find? line before.results
  events : after.events = before.events ++ asked.reverse.flatMap Worker.passEvents
  entries : after.entries = before.entries ++ asked.reverse.flatMap Worker.passEntries

theorem passedOver_afterAsking (before : Pool) {workers : List Worker}
    (h : ∀ w ∈ workers, ¬w.IsBroken) :
    PassedOver before [] workers workers (before.afterAsking workers) where
  active := rfl
  results := Results.find?_foldr_settle h before.results
  events := rfl
  entries := rfl

/-- A pass over the workers of a pool asks all of them if none is broken. Otherwise it is broken off
by the faults of the last one that is, which settles nothing, and those in front of that one have
not been asked. After any number of passes, each worker has been joined once or is still there. -/
theorem collect_cases (p : Pool) :
    (((∀ w ∈ p.active, ¬w.IsBroken) ∧ p.collect.faults = none ∧
        PassedOver p [] p.active p.active p.collect.pool) ∨
      ∃ front w back m faults, p.active = front ++ w :: back ∧ w.hasEnded = true ∧
        w.message = some m ∧ Outcome.ofValue m = .error faults ∧ (∀ v ∈ back, ¬v.IsBroken) ∧
        p.collect.faults = some faults ∧ PassedOver p front (w :: back) back p.collect.pool) ∧
    ∀ n, (passes n p).joinedOrActive.Perm p.joinedOrActive := by
  refine ⟨?_, fun n => joinedOrActive_passes n p⟩
  rcases forall_or_exists_last p.active with hnone | ⟨front, w, back, hactive, hw, hback⟩
  · have hcollect : p.collect = ⟨p.afterAsking p.active, none⟩ := Sweep.sweep_of_not_isBroken hnone
    rw [hcollect]
    exact .inl ⟨hnone, rfl, passedOver_afterAsking p hnone⟩
  · rcases hw with ⟨hended, m, faults, hmessage, hfaults⟩
    have hharvest := Worker.harvest_eq_error_iff.mpr ⟨m, hmessage, hfaults⟩
    refine .inr ⟨front, w, back, m, faults, hactive, hended, hmessage, hfaults, hback, ?_⟩
    rw [collect, hactive, Sweep.sweep_of_isBroken hended hharvest hback]
    have hback := passedOver_afterAsking p hback
    -- The broken worker has sent a message, so there is no loss to log.
    have hentries : w.passEntries = [] := by
      rw [Worker.passEntries, hmessage, Option.isNone_some, Bool.and_false]
      rfl
    refine ⟨rfl, ?_, hback.results, rfl, ?_⟩
    · simp [stillRunning, hended]
    · simpa [hentries] using hback.entries

/-- Of four workers the first is running and the others have ended: one has sent something that is no
outcome, one an outcome, and one nothing. -/
theorem collect_three_endings :
    let o : Outcome := ⟨"2", none, some "late", false⟩
    let r : Request := ⟨"1", Request.defaultFunction, by decide⟩
    let running : Worker := ⟨1, 1, r, 2, none, 0⟩
    let broken : Worker := ⟨2, 2, r, 0, some .null, 0⟩
    let sent : Worker := ⟨3, 3, r, 0, some o.toValue, 0⟩
    let silent : Worker := ⟨4, 4, r, 0, none, 3⟩
    let p : Pool := ⟨[running, broken, sent, silent], [], [], []⟩
    let q : Pool := p.collect.pool
    p.collect.faults ≠ none ∧ q.active = [running] ∧
      q.events = [.polled 4, .joined 4, .polled 3, .joined 3, .polled 2, .joined 2] ∧
      Results.find? 1 q.results = none ∧ Results.find? 2 q.results = none ∧
      Results.find? 3 q.results = some o ∧ Results.find? 4 q.results =
        some ⟨"1", none, some "Worker exited without sending a result", false⟩ := by
  intro o r running broken sent silent p q
  have hbroken : broken.IsBroken := ⟨rfl, .null, _, rfl, rfl⟩
  have hsent : ¬sent.IsBroken := by
    rintro ⟨-, m, faults, hmessage, hfaults⟩
    cases hmessage
    cases hfaults
  have hsilent : ¬silent.IsBroken := by
    rintro ⟨-, m, faults, hmessage, -⟩
    cases hmessage
  have hpass : p.collect.faults ≠ none ∧
      PassedOver p [running] [broken, sent, silent] [sent, silent] q := by
    rcases (collect_cases p).1 with ⟨hnone, -⟩ |
      ⟨front, w, back, m, faults, hactive, hended, hmessage, hfaults, -, hcollect, hover⟩
    · exact absurd hbroken (hnone broken (.tail _ (.head _)))
    · have hw : w.IsBroken := ⟨hended, m, faults, hmessage, hfaults⟩
      -- The second worker is the only one that is broken.
      rcases front with _ | ⟨_, _ | ⟨_, _ | ⟨_, _ | ⟨_, front⟩⟩⟩⟩
      · cases hactive
        cases hended
      · cases hactive
        exact ⟨by rw [hcollect]; exact Option.some_ne_none _, hover⟩
      · cases hactive
        exact absurd hw hsent
      · cases hactive
        exact absurd hw hsilent
      · have hlength := congrArg List.length hactive
        simp [p] at hlength
  rcases hpass with ⟨hfaults, hover⟩
  refine ⟨hfaults, hover.active, hover.events, hover.results 1, hover.results 2, ?_, ?_⟩
  · rcases hover.results 3 with ⟨o', hleaves, hfind⟩
    cases hleaves with
    | sent hmessage houtcome =>
      cases hmessage
      cases houtcome
      exact hfind
    | silent hmessage => cases hmessage
  · rcases hover.results 4 with ⟨o', hleaves, hfind⟩
    cases hleaves with
    | sent hmessage _ => cases hmessage
    | silent => exact hfind

end Pool

end Reckoner
