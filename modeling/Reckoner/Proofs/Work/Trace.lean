import Reckoner.Proofs.Work.InOrder

/-!
# Trace — the steps of a run in their order

The events of a pool show what has been done with each worker. While workers are started, asked and
joined, those started and not joined are the workers that the pool has, a worker that it has was
asked once for each poll that is no longer to come, and one that it no longer has went through all
of its steps. Since there is room for each worker that is started, there are never more than the
limit.
-/

namespace Reckoner

namespace Event

/-- The worker that a step is about. -/
def worker? : Event → Option Nat
  | .started number => some number
  | .polled number => some number
  | .joined number => some number
  | _ => none

def started? : Event → Option Nat
  | .started number => some number
  | _ => none

def joined? : Event → Option Nat
  | .joined number => some number
  | _ => none

/-- The workers that were started, in this order. -/
def starts (events : List Event) : List Nat := events.filterMap started?

/-- The workers that were joined, in this order. -/
def joins (events : List Event) : List Nat := events.filterMap joined?

/-- The workers that were started and not joined. -/
def unjoined (events : List Event) : List Nat := (starts events).filter (· ∉ joins events)

/-- The steps that are about a worker. -/
def stepsOf (number : Nat) (events : List Event) : List Event :=
  events.filter (·.worker? == some number)

/-- All steps of a worker that is found running so many times: it is asked once more than that. -/
def lifetime (number polls : Nat) : List Event :=
  .started number :: (List.replicate (polls + 1) (.polled number) ++ [.joined number])

variable {events : List Event} {number : Nat}

/-! ## One more step -/

@[simp] theorem starts_append_started :
    starts (events ++ [.started number]) = starts events ++ [number] := by
  simp [starts, started?]

@[simp] theorem starts_append_polled : starts (events ++ [.polled number]) = starts events := by
  simp [starts, started?]

@[simp] theorem starts_append_joined : starts (events ++ [.joined number]) = starts events := by
  simp [starts, started?]

@[simp] theorem unjoined_append_polled :
    unjoined (events ++ [.polled number]) = unjoined events := by
  simp [unjoined, joins, joined?]

@[simp] theorem unjoined_append_joined :
    unjoined (events ++ [.joined number]) = (unjoined events).filter (· ≠ number) := by
  simp [unjoined, joins, joined?, List.filter_filter, and_comm]

theorem unjoined_append_started (h : .joined number ∉ events) :
    unjoined (events ++ [.started number]) = unjoined events ++ [number] := by
  have hjoins : joins (events ++ [.started number]) = joins events := by simp [joins, joined?]
  have habsent : number ∉ joins events := by
    rw [joins, List.mem_filterMap]
    rintro ⟨e, hmem, he⟩
    cases e with
    | joined _ => exact h (Option.some.inj he ▸ hmem)
    | _ => exact nomatch he
  rw [unjoined, hjoins, starts_append_started, List.filter_append, unjoined]
  simp [habsent]

theorem stepsOf_append {e : Event} (h : e.worker? = some number) :
    stepsOf number (events ++ [e]) = stepsOf number events ++ [e] := by
  simp [stepsOf, h]

theorem stepsOf_append_of_ne {e : Event} (h : e.worker? ≠ some number) :
    stepsOf number (events ++ [e]) = stepsOf number events := by
  simp [stepsOf, h]

theorem unjoined_sublist (events : List Event) : (unjoined events).Sublist (starts events) :=
  List.filter_sublist

end Event

/-! ## What the steps so far show -/

/-- After so many starts, the events agree with the workers of a pool, of which there were never
more than `limit`; `polls` tells how often each worker is found running in all. -/
structure Traced (polls : Nat → Nat) (limit started : Nat) (active : List Worker)
    (events : List Event) : Prop where
  starts : Event.starts events = List.range' 1 started
  unjoined : Event.unjoined events = active.map (·.number)
  running : ∀ w ∈ active, ∃ asked, asked + w.polls = polls w.number ∧
    Event.stepsOf w.number events = .started w.number :: List.replicate asked (.polled w.number)
  ended : ∀ number ∈ List.range' 1 started, number ∉ Event.unjoined events →
    Event.stepsOf number events = Event.lifetime number (polls number)
  workers : ∀ e ∈ events, ∃ number ∈ List.range' 1 started, e.worker? = some number
  bounded : ∀ before, before <+: events → (Event.unjoined before).length ≤ limit

namespace Traced

variable {polls : Nat → Nat} {limit started : Nat} {active front back : List Worker} {w : Worker}
  {events : List Event}

theorem initial (polls : Nat → Nat) (limit : Nat) : Traced polls limit 0 [] [] where
  starts := rfl
  unjoined := rfl
  running := List.forall_mem_nil _
  ended := List.forall_mem_nil _
  workers := List.forall_mem_nil _
  bounded before h := by
    rw [List.prefix_nil.mp h]
    exact Nat.zero_le _

theorem mem_range' (h : Traced polls limit started active events) (hw : w ∈ active) :
    w.number ∈ List.range' 1 started := by
  rw [← h.starts]
  refine (Event.unjoined_sublist events).mem ?_
  rw [h.unjoined]
  exact List.mem_map_of_mem hw

-- No two workers have one number.
theorem number_ne (h : Traced polls limit started (front ++ w :: back) events) {v : Worker}
    (hv : v ∈ front ++ back) : v.number ≠ w.number := by
  have hnodup : ((front ++ w :: back).map (·.number)).Nodup := by
    rw [← h.unjoined]
    exact (h.starts ▸ Event.unjoined_sublist events).nodup List.nodup_range'
  rw [(List.perm_middle.map _).nodup_iff, List.map_cons, List.nodup_cons] at hnodup
  exact fun heq => hnodup.1 (heq ▸ List.mem_map_of_mem hv)

-- A limit that all earlier moments keep to is kept to after one more step.
theorem bounded_append {e : Event}
    (h : ∀ before, before <+: events → (Event.unjoined before).length ≤ limit)
    (hlast : (Event.unjoined (events ++ [e])).length ≤ limit) (before : List Event)
    (hbefore : before <+: events ++ [e]) : (Event.unjoined before).length ≤ limit := by
  rcases List.prefix_concat_iff.mp hbefore with rfl | hearlier
  · exact hlast
  · exact h before hearlier

theorem workers_append (h : Traced polls limit started active events) {e : Event} (hw : w ∈ active)
    (he : e.worker? = some w.number) :
    ∀ d ∈ events ++ [e], ∃ number ∈ List.range' 1 started, d.worker? = some number := by
  intro d hd
  rcases List.mem_append.mp hd with hold | hnew
  · exact h.workers d hold
  · rw [List.mem_singleton.mp hnew]
    exact ⟨w.number, h.mem_range' hw, he⟩

-- A worker that is found running.
theorem poll (h : Traced polls limit started (front ++ w :: back) events) {left : Nat}
    (hleft : w.polls = left + 1) :
    Traced polls limit started (front ++ { w with polls := left } :: back)
      (events ++ [.polled w.number]) := by
  have hmem : w ∈ front ++ w :: back := List.mem_append_right _ List.mem_cons_self
  have hothers {number : Nat} (hne : number ≠ w.number) :
      Event.stepsOf number (events ++ [.polled w.number]) = Event.stepsOf number events :=
    Event.stepsOf_append_of_ne fun heq => hne (Option.some.inj heq).symm
  constructor
  · rw [Event.starts_append_polled, h.starts]
  · rw [Event.unjoined_append_polled, h.unjoined, List.map_append, List.map_append]
    rfl
  · intro v hv
    rcases List.mem_cons.mp (List.perm_middle.mem_iff.mp hv) with rfl | hv
    · obtain ⟨asked, hasked, hsteps⟩ := h.running w hmem
      refine ⟨asked + 1, by simp only; omega, ?_⟩
      rw [Event.stepsOf_append rfl, hsteps, List.replicate_succ']
      rfl
    · rw [hothers (h.number_ne hv)]
      exact h.running v (List.perm_middle.mem_iff.mpr (List.mem_cons_of_mem w hv))
  · intro number hnumber habsent
    rw [Event.unjoined_append_polled] at habsent
    have hne : number ≠ w.number := by
      rintro rfl
      rw [h.unjoined] at habsent
      exact habsent (List.mem_map_of_mem hmem)
    rw [hothers hne]
    exact h.ended number hnumber habsent
  · exact h.workers_append hmem rfl
  · refine bounded_append h.bounded ?_
    rw [Event.unjoined_append_polled]
    exact h.bounded events (List.prefix_refl events)

-- A worker that has ended.
theorem join (h : Traced polls limit started (front ++ w :: back) events) (hleft : w.polls = 0) :
    Traced polls limit started (front ++ back)
      (events ++ [.polled w.number] ++ [.joined w.number]) := by
  have hmem : w ∈ front ++ w :: back := List.mem_append_right _ List.mem_cons_self
  have hothers {number : Nat} (hne : number ≠ w.number) :
      Event.stepsOf number (events ++ [.polled w.number] ++ [.joined w.number]) =
        Event.stepsOf number events := by
    have hworker : some w.number ≠ some number := fun heq => hne (Option.some.inj heq).symm
    rw [Event.stepsOf_append_of_ne (e := .joined w.number) hworker,
      Event.stepsOf_append_of_ne (e := .polled w.number) hworker]
  have hunjoined : Event.unjoined (events ++ [.polled w.number] ++ [.joined w.number]) =
      (Event.unjoined events).filter (· ≠ w.number) := by
    rw [Event.unjoined_append_joined, Event.unjoined_append_polled]
  constructor
  · rw [Event.starts_append_joined, Event.starts_append_polled, h.starts]
  · rw [hunjoined, h.unjoined, List.map_append, List.map_cons, List.filter_append,
      List.filter_cons_of_neg (by simp), ← List.filter_append, ← List.map_append]
    refine List.filter_eq_self.mpr fun number hnumber => ?_
    obtain ⟨v, hv, rfl⟩ := List.mem_map.mp hnumber
    exact decide_eq_true (h.number_ne hv)
  · intro v hv
    rw [hothers (h.number_ne hv)]
    exact h.running v (List.perm_middle.mem_iff.mpr (List.mem_cons_of_mem w hv))
  · intro number hnumber habsent
    by_cases heq : number = w.number
    · subst heq
      obtain ⟨asked, hasked, hsteps⟩ := h.running w hmem
      rw [Event.stepsOf_append rfl, Event.stepsOf_append rfl, hsteps, Event.lifetime, ← hasked,
        hleft, List.replicate_succ']
      simp
    · rw [hothers heq]
      refine h.ended number hnumber fun hold => habsent ?_
      rw [hunjoined]
      exact List.mem_filter.mpr ⟨hold, decide_eq_true heq⟩
  · intro d hd
    rcases List.mem_append.mp hd with hold | hnew
    · exact h.workers_append hmem rfl d hold
    · rw [List.mem_singleton.mp hnew]
      exact ⟨w.number, h.mem_range' hmem, rfl⟩
  · have hnow := h.bounded events (List.prefix_refl events)
    refine bounded_append (bounded_append h.bounded ?_) ?_
    · rwa [Event.unjoined_append_polled]
    · rw [hunjoined]
      exact (List.length_filter_le _ _).trans hnow

-- A worker that is started while there is room.
theorem start (h : Traced polls limit started active events) (hroom : active.length < limit)
    (hnumber : w.number = started + 1) (hpolls : w.polls = polls (started + 1)) :
    Traced polls limit (started + 1) (active ++ [w]) (events ++ [.started (started + 1)]) := by
  have hnew {number : Nat} (hrange : number ∈ List.range' 1 started) : number ≠ started + 1 := by
    rw [List.mem_range'_1] at hrange
    omega
  have hrange (number : Nat) :
      number ∈ List.range' 1 (started + 1) ↔
        number ∈ List.range' 1 started ∨ number = started + 1 := by
    rw [List.mem_range'_1, List.mem_range'_1]
    omega
  have hothers {number : Nat} (hne : number ≠ started + 1) :
      Event.stepsOf number (events ++ [.started (started + 1)]) = Event.stepsOf number events :=
    Event.stepsOf_append_of_ne fun heq => hne (Option.some.inj heq).symm
  have hunjoined : Event.unjoined (events ++ [.started (started + 1)]) =
      Event.unjoined events ++ [started + 1] := by
    refine Event.unjoined_append_started fun hmem => ?_
    obtain ⟨number, hmem, heq⟩ := h.workers _ hmem
    exact hnew hmem (Option.some.inj heq).symm
  constructor
  · rw [Event.starts_append_started, h.starts, List.range'_concat, Nat.one_mul, Nat.add_comm 1]
  · rw [hunjoined, h.unjoined, List.map_append, List.map_singleton, hnumber]
  · intro v hv
    rcases List.mem_append.mp hv with hold | hlast
    · rw [hothers (hnew (h.mem_range' hold))]
      exact h.running v hold
    · rw [List.mem_singleton.mp hlast, hnumber]
      have hnone : Event.stepsOf (started + 1) events = [] := by
        refine List.filter_eq_nil_iff.mpr fun e he hworker => ?_
        obtain ⟨number, hmem, heq⟩ := h.workers e he
        exact hnew hmem (Option.some.inj (heq.symm.trans (beq_iff_eq.mp hworker)))
      refine ⟨0, by rw [hpolls, Nat.zero_add], ?_⟩
      rw [Event.stepsOf_append rfl, hnone]
      rfl
  · intro number hmem habsent
    rw [hunjoined, List.mem_append, List.mem_singleton, not_or] at habsent
    rw [hothers habsent.2]
    exact h.ended number (((hrange number).mp hmem).resolve_right habsent.2) habsent.1
  · intro e he
    rcases List.mem_append.mp he with hold | hlast
    · obtain ⟨number, hmem, heq⟩ := h.workers e hold
      exact ⟨number, (hrange number).mpr (.inl hmem), heq⟩
    · rw [List.mem_singleton.mp hlast]
      exact ⟨started + 1, (hrange _).mpr (.inr rfl), rfl⟩
  · refine bounded_append h.bounded ?_
    rw [hunjoined, h.unjoined, List.length_append, List.length_map]
    exact hroom

end Traced

/-! ## Passes and runs -/

section

variable {polls : Nat → Nat} {limit started : Nat}

-- What a pass does with one worker, whether it is broken off or not.
theorem Sweep.traced_visit {front : List Worker} {s : Sweep} {w : Worker}
    (h : Traced polls limit started (front ++ w :: s.pool.active) s.pool.events) :
    Traced polls limit started (front ++ (s.visit w).pool.active) (s.visit w).pool.events := by
  rcases s with ⟨p, _ | faults⟩
  · rcases w with ⟨number, line, request, _ | left, message, exitCode⟩
    · have hjoined := h.join rfl
      rw [List.append_assoc] at hjoined
      simp only [visit]
      split <;> exact hjoined
    · exact h.poll rfl
  · exact h

theorem Sweep.traced_sweep (front : List Worker) {before : Pool} {workers : List Worker}
    (h : Traced polls limit started (front ++ workers) before.events) :
    Traced polls limit started (front ++ (sweep before workers).pool.active)
      (sweep before workers).pool.events := by
  induction workers generalizing front with
  | nil => exact h
  | cons w ws ih =>
    -- The workers after `w` are asked first, while `w` still stands with those in front.
    rw [List.append_cons] at h
    have hrest := ih (front ++ [w]) h
    rw [← List.append_cons] at hrest
    exact traced_visit hrest

namespace Pool

theorem traced_waitFor {room : Nat} {p q : Pool}
    (h : Traced polls limit started p.active p.events) (hwait : p.waitFor room = .ok q) :
    Traced polls limit started q.active q.events ∧ (q.active.length < room ∨ q.active = []) := by
  fun_induction waitFor room p with
  | case1 p hfree =>
    cases hwait
    exact ⟨h, hfree⟩
  | case2 p hbusy faults hbroken => cases hwait
  | case3 p hbusy hunbroken ih => exact ih (Sweep.traced_sweep [] h) hwait

theorem traced_startAll {plans : List Plan} {requests : List Request} {p q : Pool}
    (hroom : requests ≠ [] → 0 < limit)
    (h : Traced (fun number => (plans[number - 1]?.getD {}).polls) limit started p.active p.events)
    (hstart : startAll limit plans (requests.zipIdx (started + 1)) p = .ok q) :
    Traced (fun number => (plans[number - 1]?.getD {}).polls) limit (started + requests.length)
      q.active q.events := by
  induction requests generalizing started p with
  | nil =>
    cases hstart
    exact h
  | cons r rest ih =>
    have hlimit := hroom (List.cons_ne_nil r rest)
    rw [List.zipIdx_cons, startAll] at hstart
    cases hwait : p.waitFor limit with
    | error faults =>
      rw [hwait] at hstart
      cases hstart
    | ok free =>
      rw [hwait] at hstart
      obtain ⟨hfree, hfew⟩ := traced_waitFor h hwait
      have hless : free.active.length < limit := by
        rcases hfew with hless | hempty
        · exact hless
        · rw [hempty]
          exact hlimit
      have hnext := ih (fun _ => hlimit) (hfree.start hless rfl rfl) hstart
      rwa [List.length_cons, ← Nat.add_assoc, Nat.add_right_comm]

theorem traced_process {processors : Nat} {plans : List Plan} {requests : List Request} {p : Pool}
    (hprocessors : 0 < processors) (hrun : process processors plans requests = .ok p) :
    Traced (fun number => (plans[number - 1]?.getD {}).polls) (min processors requests.length)
      requests.length p.active p.events := by
  rw [process] at hrun
  cases hstart : startAll (min processors requests.length) plans (requests.zipIdx 1) .empty with
  | error faults =>
    rw [hstart] at hrun
    cases hrun
  | ok all =>
    rw [hstart] at hrun
    have hroom (hsome : requests ≠ []) : 0 < min processors requests.length :=
      Nat.lt_min.mpr ⟨hprocessors, List.length_pos_iff.mpr hsome⟩
    have hall := traced_startAll hroom (.initial _ _) hstart
    rw [Nat.zero_add] at hall
    exact (traced_waitFor hall hrun).1

/-- The steps of a run: the workers are started one for each request and in order; no step is about
anything else; each worker is asked once more than it is found running, and joined then; at no
moment are there more of them than processors or than requests, and in the end there are none. -/
theorem process_events (processors : Nat) (plans : List Plan) (requests : List Request)
    (hprocessors : 0 < processors) :
    ∃ p, process processors plans requests = .ok p ∧
      Event.starts p.events = List.range' 1 requests.length ∧
      (∀ e ∈ p.events, ∃ number ∈ List.range' 1 requests.length, e.worker? = some number) ∧
      (∀ number ∈ List.range' 1 requests.length,
        Event.stepsOf number p.events =
          Event.lifetime number (plans[number - 1]?.getD {}).polls) ∧
      (∀ before, before <+: p.events →
        (Event.unjoined before).length ≤ min processors requests.length) ∧
      Event.unjoined p.events = [] ∧ p.active = [] := by
  obtain ⟨p, hrun, hactive, -⟩ := process_eq_ok hprocessors plans requests
  have htraced := traced_process hprocessors hrun
  have hnone : Event.unjoined p.events = [] := by rw [htraced.unjoined, hactive, List.map_nil]
  refine ⟨p, hrun, htraced.starts, htraced.workers, fun number hnumber => ?_, htraced.bounded,
    hnone, hactive⟩
  exact htraced.ended number hnumber (hnone ▸ List.not_mem_nil)

/-- Two processors for three requests: the third worker has to wait until one of the others ends. -/
theorem process_events_three :
    let requests : List Request :=
      [⟨"1+1", Request.defaultFunction, rfl⟩, ⟨"2", "other", rfl⟩, ⟨"3", "other", rfl⟩]
    ∃ p, process 2 [{ polls := 5 }, { crash := true }] requests = .ok p ∧
      Event.stepsOf 1 p.events =
        .started 1 :: (List.replicate 6 (.polled 1) ++ [.joined 1]) ∧
      Event.stepsOf 2 p.events = [.started 2, .polled 2, .joined 2] ∧
      Event.unjoined p.events = [] := by
  obtain ⟨p, hrun, -, -, hsteps, -, hnone, -⟩ := process_events 2
    [{ polls := 5 }, { crash := true }]
    [⟨"1+1", Request.defaultFunction, rfl⟩, ⟨"2", "other", rfl⟩, ⟨"3", "other", rfl⟩] Nat.two_pos
  exact ⟨p, hrun, hsteps 1 (by decide), hsteps 2 (by decide), hnone⟩

end Pool

end

end Reckoner
