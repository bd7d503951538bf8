import Mathlib.Data.List.Forall2
import Reckoner.Net.Client
import Reckoner.Proofs.Handling
import Reckoner.Proofs.Text.Utf8
import Reckoner.Proofs.Wire
import Reckoner.Proofs.Work.InOrder

/-!
# Session — requests there and outcomes back

A server reads the requests that a client has written, and the client reads the outcomes that the
server has written, as long as each of them stands on one line. If no worker is lost, the answer is
then what becomes of each request by itself.
-/

namespace Reckoner

open Json Text

/-! ## Lists in, lists out -/

variable {α β ε : Type} {f : α → Except ε β} {as : List α} {bs : List β}

theorem mapM_eq_ok_iff : as.mapM f = .ok bs ↔ List.Forall₂ (fun a b => f a = .ok b) as bs := by
  constructor
  · intro h
    induction as generalizing bs with
    | nil =>
      cases h
      exact .nil
    | cons a as ih =>
      rw [List.mapM_cons] at h
      cases hfirst : f a with
      | error e =>
        rw [hfirst] at h
        exact nomatch h
      | ok b =>
        cases hrest : as.mapM f with
        | error e =>
          rw [hfirst, hrest] at h
          exact nomatch h
        | ok rest =>
          rw [hfirst, hrest] at h
          cases h
          exact .cons hfirst (ih hrest)
  · intro h
    induction h with
    | nil => rfl
    | cons hfirst _ ih =>
      rw [List.mapM_cons, hfirst, ih]
      rfl

theorem mapM_map_eq_ok {write : α → β} {read : β → Except ε α}
    (h : ∀ a ∈ as, read (write a) = .ok a) : (as.map write).mapM read = .ok as := by
  rw [mapM_eq_ok_iff, List.forall₂_map_left_iff]
  exact List.forall₂_same.mpr h

theorem exists_mapM_eq_ok {R : α → β → Prop} (h : ∀ a ∈ as, ∃ b, f a = .ok b ∧ R a b) :
    ∃ bs, as.mapM f = .ok bs ∧ List.Forall₂ R as bs := by
  induction as with
  | nil => exact ⟨[], rfl, .nil⟩
  | cons a as ih =>
    rw [List.forall_mem_cons] at h
    rcases h with ⟨⟨b, hfirst, hab⟩, hrest⟩
    rcases ih hrest with ⟨bs, hbs, hall⟩
    exact ⟨b :: bs, mapM_eq_ok_iff.mpr (.cons hfirst (mapM_eq_ok_iff.mp hbs)), .cons hab hall⟩

/-! ## Outcomes of a run -/

-- The loss of a worker is told in one line as well.
theorem Plan.handled_outcome (plan : Plan) (r : Request) : Outcome.Handled r (plan.outcome r) := by
  rw [outcome]
  split
  · exact .error workerLost (by decide)
  · exact Outcome.handled_handle r

theorem Pool.exists_of_mem_answers {plans : List Plan} {requests : List Request} {o : Outcome}
    (h : o ∈ answers plans requests) : ∃ plan : Plan, ∃ r ∈ requests, o = plan.outcome r := by
  rcases List.mem_mapIdx.mp h with ⟨i, hi, rfl⟩
  exact ⟨_, _, List.getElem_mem hi, rfl⟩

theorem Plan.outcome_of_not_crash {plan : Plan} (h : plan.crash = false) (r : Request) :
    plan.outcome r = .handle r := by
  rw [outcome, h]
  rfl

-- Without crashes each request is answered by its own outcome.
theorem Pool.answers_of_not_crash {plans : List Plan} (h : ∀ plan ∈ plans, plan.crash = false)
    (requests : List Request) : answers plans requests = requests.map Outcome.handle := by
  have hcrash (i : Nat) : (plans[i]?.getD {}).crash = false := by
    cases hplan : plans[i]? with
    | none => rfl
    | some plan => exact h plan (List.mem_of_getElem? hplan)
  refine List.ext_getElem? fun i => ?_
  rw [answers, List.getElem?_mapIdx, List.getElem?_map]
  cases requests[i]? with
  | none => rfl
  | some r => exact congrArg some (Plan.outcome_of_not_crash (hcrash i) r)

namespace Net

variable {network : Network} {processors : Nat}

/-! ## The server -/

-- Each request is written with a line feed after it.
theorem Client.encode_eq (requests : List Request) :
    encode requests = (requests.map fun r => write r.toValue).flatMap fun l => l ++ ['\n'] := by
  rw [List.flatMap_map]
  rfl

-- Each outcome is written with a line feed after it.
theorem Server.encode_eq (outcomes : List Outcome) :
    encode outcomes = (outcomes.map fun o => write o.toValue).flatMap fun l => l ++ ['\n'] := by
  rw [List.flatMap_map]
  rfl

namespace Server

theorem flatten_received_singleton (bytes : List UInt8) : (received [bytes]).flatten = bytes := by
  cases bytes with
  | nil => rfl
  | cons b bytes => exact List.append_nil _

theorem request_write (s : Server) (r : Request) :
    s.request (String.ofList (write r.toValue)) = .ok r := by
  rw [request, r.ofText_write]

-- Requests that stand on a line each are read as they were written.
theorem requestsOfText_encode (s : Server) {requests : List Request}
    (h : ∀ r ∈ requests, IsContent (write r.toValue)) :
    s.requestsOfText (Client.encode requests) = .ok requests := by
  rw [requestsOfText, Client.encode_eq, contentLines_flatMap (List.forall_mem_map.mpr h)]
  exact mapM_map_eq_ok fun r _ => s.request_write r

theorem receive_encode (s : Server) {requests : List Request}
    (h : ∀ r ∈ requests, IsContent (write r.toValue)) :
    s.receive [Utf8.encode (Client.encode requests)] = .ok requests := by
  rw [receive, flatten_received_singleton, Utf8.decodeLossy_encode]
  exact s.requestsOfText_encode h

-- The reply to requests that the server reads.
theorem exists_session (s : Server) (hbinds : network.binds socketFamily s.endpoint = true)
    (hprocessors : 0 < processors) (plans : List Plan) (connected : Bool)
    {chunks : List (List UInt8)} {requests : List Request}
    (hreceive : s.receive chunks = .ok requests) :
    ∃ session, s.serve network processors plans connected chunks = .ok session ∧
      session.reply = if connected then encode (Pool.answers plans requests) else [] := by
  rcases Pool.process_eq_ok hprocessors plans requests with ⟨pool, hpool, -, houtcomes⟩
  rw [serve, if_pos hbinds, hreceive]
  simp only [hpool, houtcomes]
  exact ⟨_, rfl, rfl⟩

end Server

/-! ## The client -/

namespace Client

-- The outcomes of a reply that is text.
theorem outcomesOfReply_encodeText (expected : Nat) (reply : List Char) :
    outcomesOfReply expected (Utf8.encode reply) =
      match (nonemptyLines reply).mapM fun l => Outcome.ofText (String.ofList l) with
      | .error faults => .error (.invalid faults)
      | .ok outcomes =>
        if outcomes.length = expected then .ok outcomes
        else .error (.miscounted expected outcomes.length) := by
  rw [outcomesOfReply, Utf8.decode?_encode]
  rfl

-- Outcomes that stand on a line each are read as they were written.
theorem outcomesOfReply_encode {expected : Nat} {outcomes : List Outcome}
    (h : ∀ o ∈ outcomes, IsContent (write o.toValue)) (hcount : outcomes.length = expected) :
    outcomesOfReply expected (Utf8.encode (Server.encode outcomes)) = .ok outcomes := by
  have hlines : nonemptyLines (Server.encode outcomes) =
      outcomes.map fun o => write o.toValue := by
    rw [Server.encode_eq, nonemptyLines_flatMap, List.flatMap_map, List.map_eq_flatMap]
    exact List.flatMap_congr fun o ho => (h o ho).nonemptyLines_eq
  have hread : ((outcomes.map fun o => write o.toValue).mapM fun l =>
      Outcome.ofText (String.ofList l)) = .ok outcomes := mapM_map_eq_ok fun o _ => o.ofText_write
  rw [outcomesOfReply_encodeText, hlines, hread]
  exact if_pos hcount

-- Where no server can listen or none can be reached, nothing is sent.
theorem send_of_not_joins {server : Server} (h : network.joins server.endpoint = false)
    (plans : List Plan) (requests : List Request) :
    send server network processors plans requests = ⟨none, .error .unconnected⟩ := by
  rw [send]
  split
  · rename_i hconnects
    rw [Network.joins, hconnects, Bool.and_true] at h
    rw [Server.serve, if_neg (Bool.eq_false_iff.mp h)]
  · rfl

/-- Requests without bare breaks are answered by what becomes of each of them. -/
theorem answer_send (server : Server) (hjoins : network.joins server.endpoint = true)
    (hprocessors : 0 < processors) (plans : List Plan) {requests : List Request}
    (h : ∀ r ∈ requests, r.FreeOfBareBreaks) :
    (send server network processors plans requests).answer =
      .ok (Pool.answers plans requests) := by
  have hrequests : ∀ r ∈ requests, IsContent (write r.toValue) := fun r hr =>
    Request.isContent_write (h r hr)
  -- An outcome repeats the expression; its error brings no bare break with it.
  have houtcomes : ∀ o ∈ Pool.answers plans requests, IsContent (write o.toValue) := by
    intro o ho
    rcases Pool.exists_of_mem_answers ho with ⟨plan, r, hr, rfl⟩
    have hhandled := plan.handled_outcome r
    refine Outcome.isContent_write ⟨?_, fun e he =>
      freeOfBareBreaks_of_unbroken (hhandled.unbroken_error e he)⟩
    rw [hhandled.expression_eq]
    exact (h r hr).1
  rw [Network.joins, Bool.and_eq_true] at hjoins
  rcases server.exists_session hjoins.1 hprocessors plans true (server.receive_encode hrequests)
    with ⟨session, hsession, hreply⟩
  rw [send, if_pos hjoins.2, hsession]
  show outcomesOfReply requests.length (Utf8.encode session.reply) = _
  rw [hreply, if_pos rfl]
  exact outcomesOfReply_encode houtcomes List.length_mapIdx

end Client

end Net

end Reckoner
