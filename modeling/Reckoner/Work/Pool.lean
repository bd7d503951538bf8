import Reckoner.Work.Event
import Reckoner.Work.Task

/-!
# Pool — workers side by side

A pool starts one worker for each request and holds at most a given number of them at a time. To
find out who has ended, it goes through its workers from the last one to the first and asks each
once; from one that has ended it takes the message, or notes the loss if there is none. Which workers
end when is a matter of their plans, and the outcomes do not depend on it.

* `sweep` is one such pass over the workers.
* `Pool.waitFor` repeats it until there is room; `weight` falls with every pass.
* `Pool.process` is the whole run over a list of requests.
-/

namespace Reckoner

/-- How a worker will behave: how often it is still found running, and whether it ends without
having done anything. -/
structure Plan where
  polls : Nat := 0
  crash : Bool := false
  deriving DecidableEq, Repr, Inhabited

/-- A worker that has been started and not been waited for. -/
structure Worker where
  /-- Its place in the order of starts, from one. -/
  number : Nat
  line : Nat
  request : Request
  /-- How often it is still found running. -/
  polls : Nat
  message : Option Json.Value
  exitCode : Nat

/-- The outcomes by line, in ascending order of lines. -/
abbrev Results : Type := List (Nat × Outcome)

namespace Results

/-- The outcomes with that of a line put in or replaced. -/
def insert (line : Nat) (o : Outcome) : Results → Results
  | [] => [(line, o)]
  | (l, p) :: rest =>
    if line < l then (line, o) :: (l, p) :: rest
    else if line = l then (line, o) :: rest
    else (l, p) :: insert line o rest

def find? (line : Nat) (results : Results) : Option Outcome := results.lookup line

theorem find?_cons (line other : Nat) (o : Outcome) (rest : Results) :
    find? other ((line, o) :: rest) = if other = line then some o else find? other rest := by
  simp only [find?, List.lookup_cons]
  by_cases same : other = line
  · simp [same]
  · rw [beq_eq_false_iff_ne.mpr same, if_neg same]

theorem find?_insert (line other : Nat) (o : Outcome) (results : Results) :
    find? other (insert line o results) = if other = line then some o else find? other results := by
  induction results with
  | nil => exact find?_cons line other o []
  | cons entry rest ih =>
    obtain ⟨l, p⟩ := entry
    simp only [insert]
    split
    · exact find?_cons line other o _
    · split
      · rename_i equal
        subst equal
        simp only [find?_cons]
        split <;> rfl
      · rename_i differs
        simp only [find?_cons, ih]
        by_cases same : other = line
        · simp only [same, if_neg differs, if_true]
        · simp only [if_neg same]

end Results

def workerLost : String := "Worker exited without sending a result"

/-- The code that a worker ends with if it crashes. -/
def crashCode : Nat := 3

namespace Worker

/-- The outcome of a request that is lost with its worker. -/
def lostOutcome (w : Worker) : Outcome := ⟨w.request.expression, none, some workerLost, false⟩

/-- The line about a loss. -/
def lossEntry (w : Worker) : Log.Entry :=
  ⟨.error, "👷💀 Worker for line " ++ toString w.line ++ " exited with code "
    ++ toString w.exitCode⟩

/-- What a worker that has ended leaves: its outcome, or what is wrong with its message. -/
def harvest (w : Worker) : Record.Checked Outcome :=
  match w.message with
  | some message => Outcome.ofValue message
  | none => .ok w.lostOutcome

/-- What is logged about a worker that has ended. -/
def harvestEntries (w : Worker) : List Log.Entry :=
  if w.message.isNone then [w.lossEntry] else []

end Worker

/-- Workers, the outcomes gathered so far, what happened and what was logged. -/
structure Pool where
  active : List Worker
  results : Results
  events : List Event
  entries : List Log.Entry

/-- A pool after a pass, and the faults of a message that broke it off. -/
structure Sweep where
  pool : Pool
  faults : Option (List Record.Fault)

/-- What a pass that has come down to a worker does with it. A pass that is broken off leaves the
worker as it is; otherwise it is asked, and if it has ended it is waited for and gone, whatever its
message is worth. -/
def Sweep.visit (s : Sweep) (w : Worker) : Sweep :=
  let p := s.pool
  match s.faults, w.polls with
  | some _, _ => { s with pool := { p with active := w :: p.active } }
  | none, polls + 1 =>
    { s with pool := { p with
        active := { w with polls } :: p.active
        events := p.events ++ [.polled w.number] } }
  | none, 0 =>
    -- The worker is gone before its message is looked at.
    let pool := { p with
      events := p.events ++ [.polled w.number, .joined w.number]
      entries := p.entries ++ w.harvestEntries }
    match w.harvest with
    | .ok o => { s with pool := { pool with results := pool.results.insert w.line o } }
    | .error faults => ⟨pool, some faults⟩

/-- One pass over workers, from the last one to the first. The pool has the outcomes, events and log
lines from before, and takes up the workers that stay. -/
def sweep (before : Pool) (workers : List Worker) : Sweep :=
  workers.foldr (fun w s => s.visit w) ⟨{ before with active := [] }, none⟩

/-- How many more times the workers can be found running, and how many there are. -/
def weight : List Worker → Nat
  | [] => 0
  | w :: ws => w.polls + 1 + weight ws

theorem weight_sweep_le (before : Pool) (workers : List Worker) :
    weight (sweep before workers).pool.active ≤ weight workers ∧
      (workers ≠ [] → (sweep before workers).faults = none →
        weight (sweep before workers).pool.active < weight workers) := by
  induction workers with
  | nil => simp [sweep, weight]
  | cons w ws ih =>
    have step : sweep before (w :: ws) = (sweep before ws).visit w := rfl
    rw [step]
    generalize sweep before ws = s at ih
    have stays (v : Worker) (vs : List Worker) : weight (v :: vs) = v.polls + 1 + weight vs := rfl
    rw [stays w ws]
    rcases s with ⟨pool, _ | faults⟩
    · rcases w with ⟨number, line, request, _ | polls, message, exitCode⟩
      · simp only [Sweep.visit] at ih ⊢
        split
        · exact ⟨by simp only; omega, fun _ _ => by simp only; omega⟩
        · exact ⟨by simp only; omega, fun _ none => nomatch none⟩
      · simp only [Sweep.visit, stays] at ih ⊢
        exact ⟨by omega, fun _ _ => by omega⟩
    · simp only [Sweep.visit, stays] at ih ⊢
      exact ⟨by omega, fun _ none => nomatch none⟩

namespace Pool

def empty : Pool := ⟨[], [], [], []⟩

/-- One pass over the workers of a pool. -/
def collect (p : Pool) : Sweep := sweep p p.active

/-- Passes until fewer than `room` workers are left. -/
def waitFor (room : Nat) (p : Pool) : Record.Checked Pool :=
  if p.active.length < room ∨ p.active = [] then .ok p
  else
    match _unbroken : p.collect.faults with
    | some faults => .error faults
    | none => waitFor room p.collect.pool
termination_by weight p.active
decreasing_by
  -- A pass over at least one worker that is not broken off lowers the weight.
  rename_i busy
  exact (weight_sweep_le p p.active).2 (fun none => busy (Or.inr none)) (by assumption)

/-- A worker for a task, started as the one of this number. It sends `message`; if it crashes it
does nothing. -/
def start (p : Pool) (number : Nat) (t : Task) (plan : Plan) (message : Json.Value) : Pool where
  active := p.active ++ [{
    number, line := t.line, request := t.request, polls := plan.polls
    message := if plan.crash then none else some message
    exitCode := if plan.crash then crashCode else 0 }]
  results := p.results
  events := p.events ++ [.started number]
  entries := p.entries ++ if plan.crash then [] else t.entries true

/-- Waits for room and starts a worker for each request; their numbers are those of the lines. -/
def startAll (room : Nat) (plans : List Plan) :
    List (Request × Nat) → Pool → Record.Checked Pool
  | [], p => .ok p
  | (r, line) :: rest, p =>
    match p.waitFor room with
    | .error faults => .error faults
    | .ok p =>
      let t : Task := ⟨r, line⟩
      startAll room plans rest (p.start line t (plans[line - 1]?.getD {}) t.message)

/-- A pool in which all requests have been handled, with at most as many workers at a time as there
are processors and requests. -/
def process (processors : Nat) (plans : List Plan) (requests : List Request) :
    Record.Checked Pool :=
  match startAll (min processors requests.length) plans (requests.zipIdx 1) .empty with
  | .error faults => .error faults
  | .ok p => p.waitFor 1

/-- The outcomes in the order of their lines. -/
def outcomes (p : Pool) : List Outcome := p.results.map (·.2)

end Pool

end Reckoner
