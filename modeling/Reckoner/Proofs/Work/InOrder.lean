import Reckoner.Proofs.Work.Delivery

/-!
# InOrder — one outcome for each request

A pool answers a list of requests in their order, whatever the number of processors is and however
long each worker takes. What a plan can change is only whether a worker crashes, and then only the
outcome of its own request.
-/

namespace Reckoner

/-- What becomes of a request whose worker follows a plan. -/
def Plan.outcome (plan : Plan) (r : Request) : Outcome :=
  if plan.crash then ⟨r.expression, none, some workerLost, false⟩ else .handle r

namespace Pool

variable {expected : Nat → Outcome} {room : Nat} {plans : List Plan}

theorem accounted_start {p : Pool} {line : Nat} {r : Request} (plan : Plan)
    (h : Accounted expected line p.active p.results)
    (hexpected : expected (line + 1) = plan.outcome r) :
    let t : Task := ⟨r, line + 1⟩
    Accounted expected (line + 1) (p.start (line + 1) t plan t.message).active
      (p.start (line + 1) t plan t.message).results := by
  refine h.start rfl ?_
  rw [hexpected, Plan.outcome]
  cases plan.crash with
  | true => rfl
  | false => exact Task.ofValue_message ⟨r, line + 1⟩

theorem startAll_eq_ok {requests : List Request} {line : Nat} {p : Pool} (hroom : 0 < room)
    (hexpected : ∀ entry ∈ requests.zipIdx (line + 1),
      expected entry.2 = (plans[entry.2 - 1]?.getD {}).outcome entry.1)
    (h : Accounted expected line p.active p.results) :
    ∃ q, startAll room plans (requests.zipIdx (line + 1)) p = .ok q ∧
      Accounted expected (line + requests.length) q.active q.results := by
  induction requests generalizing line p with
  | nil => exact ⟨p, rfl, h⟩
  | cons r rest ih =>
    obtain ⟨q, hwait, -, hq⟩ := waitFor_eq_ok hroom h
    rw [List.zipIdx_cons] at hexpected ⊢
    rw [List.forall_mem_cons] at hexpected
    have hstarted := accounted_start (plans[line]?.getD {}) hq hexpected.1
    obtain ⟨s, hs, hall⟩ := ih hexpected.2 hstarted
    refine ⟨s, ?_, ?_⟩
    · rw [startAll, hwait]
      exact hs
    · rw [List.length_cons, ← Nat.add_assoc, Nat.add_right_comm]
      exact hall

/-- The outcomes of a run, which its plans decide by their crashes alone. -/
def answers (plans : List Plan) (requests : List Request) : List Outcome :=
  requests.mapIdx fun i r => (plans[i]?.getD {}).outcome r

/-- The outcome that is expected on a line; the value beyond the last line does not matter. -/
def expectedOn (plans : List Plan) (requests : List Request) (line : Nat) : Outcome :=
  (answers plans requests)[line - 1]?.getD ⟨"", none, none, false⟩

theorem expectedOn_of_mem {requests : List Request} {entry : Request × Nat}
    (h : entry ∈ requests.zipIdx 1) :
    expectedOn plans requests entry.2 = (plans[entry.2 - 1]?.getD {}).outcome entry.1 := by
  have hrequest := (List.mem_zipIdx_iff_le_and_getElem?_sub.mp h).2
  rw [expectedOn, answers, List.getElem?_mapIdx, hrequest]
  rfl

theorem map_expectedOn (plans : List Plan) (requests : List Request) :
    (List.range' 1 requests.length).map (expectedOn plans requests) = answers plans requests := by
  have hlength : (answers plans requests).length = requests.length := List.length_mapIdx
  refine List.ext_getElem (by rw [List.length_map, List.length_range', hlength]) ?_
  intro i _ hi
  rw [List.getElem_map, List.getElem_range', expectedOn, Nat.one_mul, Nat.add_sub_cancel_left,
    List.getElem?_eq_getElem hi, Option.getD_some]

/-- The run over a list of requests ends without a fault and leaves no worker behind. -/
theorem process_eq_ok {processors : Nat} (hprocessors : 0 < processors) (plans : List Plan)
    (requests : List Request) :
    ∃ p, process processors plans requests = .ok p ∧ p.active = [] ∧
      p.outcomes = answers plans requests := by
  by_cases hnone : requests = []
  · subst hnone
    have hwait : waitFor 1 empty = .ok empty := by
      rw [waitFor, if_pos]
      exact Or.inr rfl
    exact ⟨empty, hwait, rfl, rfl⟩
  · have hpositive := List.length_pos_iff.mpr hnone
    have hroom : 0 < min processors requests.length := by omega
    have hinitial : Accounted (expectedOn plans requests) 0 empty.active empty.results := .initial _
    rcases startAll_eq_ok hroom (fun _ => expectedOn_of_mem) hinitial with ⟨q, hstart, hq⟩
    rcases waitFor_eq_ok Nat.one_pos hq with ⟨p, hwait, hfew, hp⟩
    have hactive : p.active = [] := List.length_eq_zero_iff.mp (by omega)
    rw [hactive, Nat.zero_add] at hp
    refine ⟨p, ?_, hactive, ?_⟩
    · rw [process, hstart]
      exact hwait
    · rw [outcomes, hp.outcomes_eq, map_expectedOn]

theorem answers_congr {plans' : List Plan} (requests : List Request)
    (h : ∀ i : Nat, (plans'[i]?.getD {}).crash = (plans[i]?.getD {}).crash) :
    answers plans' requests = answers plans requests := by
  refine List.mapIdx_eq_mapIdx_iff.mpr fun i _ => ?_
  rw [Plan.outcome, Plan.outcome, h]

/-- Every run ends, with one outcome for each request in the order of the requests: that of the
request, or the loss of its worker. Any other number of processors and any other number of polls,
and with them any other order in which the workers end, leads to the same outcomes. -/
theorem process_in_order (processors : Nat) (plans : List Plan) (requests : List Request)
    (hprocessors : 0 < processors) :
    ∃ p, process processors plans requests = .ok p ∧ p.active = [] ∧
      p.outcomes = (requests.mapIdx fun i r =>
        if (plans[i]?.getD {}).crash then ⟨r.expression, none, some workerLost, false⟩
        else Outcome.handle r) ∧
      ∀ (processors' : Nat) (plans' : List Plan), 0 < processors' →
        (∀ i : Nat, (plans'[i]?.getD {}).crash = (plans[i]?.getD {}).crash) →
        ∃ p', process processors' plans' requests = .ok p' ∧ p'.outcomes = p.outcomes := by
  rcases process_eq_ok hprocessors plans requests with ⟨p, hp, hactive, houtcomes⟩
  refine ⟨p, hp, hactive, houtcomes, ?_⟩
  intro processors' plans' hprocessors' hcrash
  rcases process_eq_ok hprocessors' plans' requests with ⟨p', hp', -, houtcomes'⟩
  exact ⟨p', hp', by rw [houtcomes', houtcomes, answers_congr requests hcrash]⟩

/-- Two processors for three requests: the first worker is the last to end, the second one is lost. -/
theorem process_in_order_three :
    let requests : List Request :=
      [⟨"1+1", Request.defaultFunction, rfl⟩, ⟨"2", "other", rfl⟩, ⟨"3", "other", rfl⟩]
    0 < 2 ∧ ∃ p, process 2 [{ polls := 5 }, { crash := true }] requests = .ok p ∧
      p.outcomes = [.handle ⟨"1+1", Request.defaultFunction, rfl⟩,
        ⟨"2", none, some workerLost, false⟩,
        ⟨"3", none, some Outcome.invalidFunction, true⟩] := by
  rcases process_in_order 2 [{ polls := 5 }, { crash := true }]
    [⟨"1+1", Request.defaultFunction, rfl⟩, ⟨"2", "other", rfl⟩, ⟨"3", "other", rfl⟩]
    Nat.two_pos with ⟨p, hp, -, houtcomes, -⟩
  exact ⟨Nat.two_pos, p, hp, houtcomes⟩

end Pool

end Reckoner
