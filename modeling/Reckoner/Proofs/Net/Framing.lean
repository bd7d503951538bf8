import Mathlib.Algebra.Order.BigOperators.Group.List
import Reckoner.Proofs.Net.Session

/-!
# Framing — what the lines of a connection can carry

Requests and outcomes are told apart by the lines they stand on. A bare break in one of their texts
cuts its line, and no reader puts the pieces together again: a server reads more requests than were
sent, and a client finds a line that is no outcome. So a list goes through the connection unchanged
exactly if none of its texts has a bare break.
-/

namespace Reckoner.Net

open Json Text

/-! ## Chunks -/

-- No chunk but an empty one ends the sending.
theorem Server.received_eq {chunks : List (List UInt8)} (h : ∀ chunk ∈ chunks, chunk ≠ []) :
    received chunks = chunks := by
  refine List.takeWhile_eq_self_iff.mpr fun chunk hchunk => ?_
  rw [Bool.not_eq_true', List.isEmpty_eq_false_iff]
  exact h chunk hchunk

-- The finest cutting: each byte is a chunk of its own.
theorem flatten_map_singleton (bytes : List UInt8) :
    (∀ chunk ∈ bytes.map fun b => [b], chunk ≠ []) ∧ (bytes.map fun b => [b]).flatten = bytes := by
  refine ⟨List.forall_mem_map.mpr fun b _ => List.cons_ne_nil b [], ?_⟩
  rw [← List.flatMap_def, List.flatMap_singleton']

/-! ## Counting lines -/

namespace Server

theorem contentLines_encode (requests : List Request) :
    contentLines (Client.encode requests) =
      requests.flatMap fun r => contentLines (write r.toValue) := by
  rw [Client.encode_eq, contentLines_flatMap_newline, List.flatMap_map]

-- Requests that are not all on one line have more lines than there are requests.
theorem length_lt_contentLines_encode {requests : List Request}
    (h : ¬∀ r ∈ requests, r.FreeOfBareBreaks) :
    requests.length < (contentLines (Client.encode requests)).length := by
  simp only [not_forall] at h
  rcases h with ⟨broken, hmem, hbroken⟩
  have hone (r : Request) : 1 ≤ (contentLines (write r.toValue)).length := by
    by_cases hfree : r.FreeOfBareBreaks
    · rw [(Request.isContent_write hfree).contentLines_eq]
      exact Nat.le_refl 1
    · exact Nat.le_of_lt (Request.one_lt_length_contentLines hfree)
  have hsum := List.sum_lt_sum (l := requests) (fun _ => 1)
    (fun r => (contentLines (write r.toValue)).length) (fun r _ => hone r)
    ⟨broken, hmem, Request.one_lt_length_contentLines hbroken⟩
  rw [List.map_const', List.sum_replicate, smul_eq_mul, Nat.mul_one] at hsum
  rwa [contentLines_encode, List.length_flatMap]

-- Requests with bare breaks are not read as they were written: there are too many lines.
theorem length_lt_of_requestsOfText (s : Server) {requests : List Request}
    (h : ¬∀ r ∈ requests, r.FreeOfBareBreaks) {read : List Request}
    (hread : s.requestsOfText (Client.encode requests) = .ok read) :
    requests.length < read.length := by
  rw [← (mapM_eq_ok_iff.mp hread).length_eq]
  exact length_lt_contentLines_encode h

/-- However the bytes are cut into chunks, a server reads the requests that were sent exactly if none
of their texts has a bare break. -/
theorem receive_eq_ok_iff (s : Server) {chunks : List (List UInt8)} {requests : List Request}
    (hchunks : ∀ chunk ∈ chunks, chunk ≠ [])
    (hpayload : chunks.flatten = Utf8.encode (Client.encode requests)) :
    s.receive chunks = .ok requests ↔
      ∀ r ∈ requests, FreeOfBareBreaks r.expression ∧ FreeOfBareBreaks r.function := by
  rw [receive, received_eq hchunks, hpayload, Utf8.decodeLossy_encode]
  constructor
  · intro hread
    by_contra hbroken
    exact Nat.lt_irrefl _ (s.length_lt_of_requestsOfText hbroken hread)
  · exact fun hfree => s.requestsOfText_encode fun r hr => Request.isContent_write (hfree r hr)

/-- Bytes that come one at a time, with a character of two bytes among them. A bare break makes the
difference. -/
theorem receive_bytewise :
    let accented : Request := ⟨"é", "\n\"", by decide⟩
    let broken : Request := ⟨"1\u2028+1", Request.defaultFunction, by decide⟩
    let chunks (requests : List Request) : List (List UInt8) :=
      (Utf8.encode (Client.encode requests)).map fun b => [b]
    ((∀ chunk ∈ chunks [accented], chunk ≠ []) ∧
      (chunks [accented]).flatten = Utf8.encode (Client.encode [accented]) ∧
      receive default (chunks [accented]) = .ok [accented]) ∧
    (∀ chunk ∈ chunks [accented, broken], chunk ≠ []) ∧
      (chunks [accented, broken]).flatten = Utf8.encode (Client.encode [accented, broken]) ∧
      receive default (chunks [accented, broken]) ≠ .ok [accented, broken] := by
  intro accented broken chunks
  rcases flatten_map_singleton (Utf8.encode (Client.encode [accented])) with ⟨hwhole, hflatten⟩
  rcases flatten_map_singleton (Utf8.encode (Client.encode [accented, broken])) with
    ⟨hwhole', hflatten'⟩
  refine ⟨⟨hwhole, hflatten, ?_⟩, hwhole', hflatten', ?_⟩
  · exact (receive_eq_ok_iff default hwhole hflatten).mpr (by decide)
  · exact (receive_eq_ok_iff default hwhole' hflatten').not.mpr (by decide)

end Server

/-! ## Outcomes -/

namespace Client

theorem nonemptyLines_encode (outcomes : List Outcome) :
    nonemptyLines (Server.encode outcomes) =
      outcomes.flatMap fun o => nonemptyLines (write o.toValue) := by
  rw [Server.encode_eq, nonemptyLines_flatMap, List.flatMap_map]

-- The first outcome with a bare break ends the reading.
theorem mapM_nonemptyLines_eq_error {outcomes : List Outcome}
    (h : ¬∀ o ∈ outcomes, o.FreeOfBareBreaks) :
    ((outcomes.flatMap fun o => nonemptyLines (write o.toValue)).mapM fun l =>
      Outcome.ofText (String.ofList l)) = .error [⟨none, .notJson⟩] := by
  induction outcomes with
  | nil => exact absurd (List.forall_mem_nil _) h
  | cons o outcomes ih =>
    rw [List.forall_mem_cons] at h
    rw [List.flatMap_cons]
    by_cases hfree : o.FreeOfBareBreaks
    · rw [(Outcome.isContent_write hfree).nonemptyLines_eq, List.singleton_append,
        List.mapM_cons, o.ofText_write, ih fun hrest => h ⟨hfree, hrest⟩]
      rfl
    · rcases Outcome.exists_nonemptyLines hfree with ⟨l, ls, hlines, herror⟩
      rw [hlines, List.cons_append, List.mapM_cons, herror]
      rfl

theorem outcomesOfReply_encode_eq_error (expected : Nat) {outcomes : List Outcome}
    (h : ¬∀ o ∈ outcomes, o.FreeOfBareBreaks) :
    outcomesOfReply expected (Utf8.encode (Server.encode outcomes)) =
      .error (.invalid [⟨none, .notJson⟩]) := by
  rw [outcomesOfReply_encodeText, nonemptyLines_encode, mapM_nonemptyLines_eq_error h]

/-- However the bytes are cut into chunks, a client reads the outcomes that were sent if none of their
texts has a bare break, and refuses the reply otherwise. -/
theorem outcomesOfReply_received {chunks : List (List UInt8)} {outcomes : List Outcome}
    (hchunks : ∀ chunk ∈ chunks, chunk ≠ [])
    (hreply : chunks.flatten = Utf8.encode (Server.encode outcomes)) :
    ((∀ o ∈ outcomes, FreeOfBareBreaks o.expression ∧ ∀ e ∈ o.error, FreeOfBareBreaks e) →
      outcomesOfReply outcomes.length (Server.received chunks).flatten = .ok outcomes) ∧
    ((¬∀ o ∈ outcomes, FreeOfBareBreaks o.expression ∧ ∀ e ∈ o.error, FreeOfBareBreaks e) →
      outcomesOfReply outcomes.length (Server.received chunks).flatten =
        .error (.invalid [⟨none, .notJson⟩])) := by
  rw [Server.received_eq hchunks, hreply]
  constructor
  · intro hfree
    exact outcomesOfReply_encode (fun o ho => Outcome.isContent_write (hfree o ho)) rfl
  · exact fun hbroken => outcomesOfReply_encode_eq_error outcomes.length hbroken

/-- An outcome of all that is hard to write, and one that is cut, each byte a chunk of its own. -/
theorem outcomesOfReply_bytewise :
    let whole : List Outcome :=
      [⟨"", some Number.Binary64.notANumber, some "\u0000\"é", true⟩,
        ⟨"1\n", some (Number.Binary64.infinity true), none, false⟩]
    let cut : List Outcome := whole ++ [⟨"1", none, some "{}\u0085", false⟩]
    let chunks (outcomes : List Outcome) : List (List UInt8) :=
      (Utf8.encode (Server.encode outcomes)).map fun b => [b]
    ((∀ chunk ∈ chunks whole, chunk ≠ []) ∧
      (chunks whole).flatten = Utf8.encode (Server.encode whole) ∧
      outcomesOfReply 2 (Server.received (chunks whole)).flatten = .ok whole) ∧
    (∀ chunk ∈ chunks cut, chunk ≠ []) ∧
      (chunks cut).flatten = Utf8.encode (Server.encode cut) ∧
      outcomesOfReply 3 (Server.received (chunks cut)).flatten =
        .error (.invalid [⟨none, .notJson⟩]) := by
  intro whole cut chunks
  rcases flatten_map_singleton (Utf8.encode (Server.encode whole)) with ⟨hwhole, hflatten⟩
  rcases flatten_map_singleton (Utf8.encode (Server.encode cut)) with ⟨hwhole', hflatten'⟩
  have hfree : ∀ o ∈ whole, FreeOfBareBreaks o.expression ∧ ∀ e ∈ o.error, FreeOfBareBreaks e := by
    refine List.forall_mem_cons.mpr ⟨⟨by decide, ?_⟩,
      List.forall_mem_singleton.mpr ⟨by decide, fun e he => nomatch he⟩⟩
    rintro _ ⟨⟩
    decide
  have hbroken : ¬∀ o ∈ cut, FreeOfBareBreaks o.expression ∧ ∀ e ∈ o.error, FreeOfBareBreaks e := by
    intro h
    have hlast := (h ⟨"1", none, some "{}\u0085", false⟩ List.mem_concat_self).2 _ rfl
    exact absurd hlast (by decide)
  refine ⟨⟨hwhole, hflatten, ?_⟩, hwhole', hflatten', ?_⟩
  · exact (outcomesOfReply_received hwhole hflatten).1 hfree
  · exact (outcomesOfReply_received hwhole' hflatten').2 hbroken

/-! ## The exchange -/

-- No outcome is without a line.
theorem length_le_nonemptyLines_encode (outcomes : List Outcome) :
    outcomes.length ≤ (nonemptyLines (Server.encode outcomes)).length := by
  have hone (o : Outcome) : 1 ≤ (nonemptyLines (write o.toValue)).length := by
    by_cases hfree : o.FreeOfBareBreaks
    · rw [(Outcome.isContent_write hfree).nonemptyLines_eq]
      exact Nat.le_refl 1
    · rcases Outcome.exists_nonemptyLines hfree with ⟨l, ls, hlines, -⟩
      rw [hlines, List.length_cons]
      exact Nat.le_add_left 1 _
  have hsum := List.length_le_sum_of_one_le
    (outcomes.map fun o => (nonemptyLines (write o.toValue)).length)
    (List.forall_mem_map.mpr fun o _ => hone o)
  rwa [List.length_map, ← List.length_flatMap, ← nonemptyLines_encode] at hsum

theorem length_nonemptyLines_of_outcomesOfReply {expected : Nat} {reply : List Char}
    {outcomes : List Outcome} (h : outcomesOfReply expected (Utf8.encode reply) = .ok outcomes) :
    (nonemptyLines reply).length = expected := by
  rw [outcomesOfReply_encodeText] at h
  split at h
  · exact nomatch h
  · rename_i read hread
    split at h
    · rename_i hcount
      rw [(mapM_eq_ok_iff.mp hread).length_eq, hcount]
    · exact nomatch h

variable {network : Network} {processors : Nat} {plans : List Plan}

/-- Requests with bare breaks have no answer. -/
theorem answer_send_ne_ok (server : Server) (hprocessors : 0 < processors) (plans : List Plan)
    {requests : List Request} (h : ¬∀ r ∈ requests, r.FreeOfBareBreaks) (outcomes : List Outcome) :
    (send server network processors plans requests).answer ≠ .ok outcomes := by
  intro hanswer
  cases hjoins : network.joins server.endpoint with
  | false =>
    rw [send_of_not_joins hjoins] at hanswer
    cases hanswer
  | true =>
    rw [Network.joins, Bool.and_eq_true] at hjoins
    have hreceive : server.receive [Utf8.encode (encode requests)] =
        server.requestsOfText (encode requests) := by
      rw [Server.receive, Server.flatten_received_singleton, Utf8.decodeLossy_encode]
    cases hread : server.requestsOfText (encode requests) with
    | error faults =>
      -- No reply is none to any request.
      rw [send, if_pos hjoins.2, Server.serve, if_pos hjoins.1, hreceive, hread] at hanswer
      have hcount : (nonemptyLines []).length = requests.length :=
        length_nonemptyLines_of_outcomesOfReply hanswer
      have hnone : requests = [] := List.length_eq_zero_iff.mp hcount.symm
      exact h (hnone ▸ List.forall_mem_nil _)
    | ok read =>
      rcases server.exists_session hjoins.1 hprocessors plans true (hreceive.trans hread) with
        ⟨session, hsession, hreply⟩
      rw [send, if_pos hjoins.2, hsession] at hanswer
      have hcount := length_nonemptyLines_of_outcomesOfReply hanswer
      have hmore := server.length_lt_of_requestsOfText h hread
      have hlines := length_le_nonemptyLines_encode (Pool.answers plans read)
      rw [hreply, if_pos rfl] at hcount
      rw [hcount, Pool.answers, List.length_mapIdx] at hlines
      omega

/-- Requests are answered by what becomes of each of them exactly if the server can listen and be
reached and none of their texts has a bare break; otherwise there is no answer. -/
theorem answer_send_eq_ok_iff (server : Server) (network : Network) (hprocessors : 0 < processors)
    (hplans : ∀ plan ∈ plans, plan.crash = false) (requests : List Request)
    (outcomes : List Outcome) :
    (send server network processors plans requests).answer = .ok outcomes ↔
      network.joins server.endpoint = true ∧
        (∀ r ∈ requests, FreeOfBareBreaks r.expression ∧ FreeOfBareBreaks r.function) ∧
        outcomes = requests.map Outcome.handle := by
  rw [← Pool.answers_of_not_crash hplans]
  constructor
  · intro hanswer
    cases hjoins : network.joins server.endpoint with
    | false =>
      rw [send_of_not_joins hjoins] at hanswer
      cases hanswer
    | true =>
      by_cases hfree : ∀ r ∈ requests, r.FreeOfBareBreaks
      · rw [answer_send server hjoins hprocessors plans hfree] at hanswer
        exact ⟨rfl, hfree, (Except.ok.inj hanswer).symm⟩
      · exact absurd hanswer (answer_send_ne_ok server hprocessors plans hfree outcomes)
  · rintro ⟨hjoins, hfree, rfl⟩
    exact answer_send server hjoins hprocessors plans hfree

/-- Two requests for one processor, the second one with the same break escaped in its text. -/
theorem answer_send_two_requests :
    let requests : List Request := [⟨"2\n*\"3\"", Request.defaultFunction, by decide⟩,
      ⟨"é\\u2028", "\u0000", by decide⟩]
    let plans : List Plan := [{ polls := 2 }, { polls := 1 }]
    let server : Server := ⟨⟨.loopback, Endpoint.defaultPort⟩, Request.defaultFunction⟩
    0 < 1 ∧ (∀ plan ∈ plans, plan.crash = false) ∧
      (send server .ofOwnFamily 1 plans requests).answer =
        .ok [⟨"2\n*\"3\"", none, some "Invalid characters in expression", false⟩,
          ⟨"é\\u2028", none, some Outcome.invalidFunction, true⟩] := by
  intro requests plans server
  have hplans : ∀ plan ∈ plans, plan.crash = false :=
    List.forall_mem_cons.mpr ⟨rfl, List.forall_mem_singleton.mpr rfl⟩
  refine ⟨Nat.one_pos, hplans, ?_⟩
  refine (answer_send_eq_ok_iff server .ofOwnFamily Nat.one_pos hplans requests _).mpr
    ⟨rfl, ?_, rfl⟩
  exact List.forall_mem_cons.mpr ⟨by decide, List.forall_mem_singleton.mpr (by decide)⟩

/-- One bare break in the name of a function, and the request comes to the server as two. -/
theorem answer_send_broken_function :
    let server : Server := ⟨⟨.loopback, Endpoint.defaultPort⟩, Request.defaultFunction⟩
    let r : Request := ⟨"1+1", "f\u2028g", by decide⟩
    (send server .ofOwnFamily 4 [] [r]).answer = .error (.miscounted 1 2) ∧
      (send server .ofOwnFamily 4 [] [r]).answer ≠ .ok [Outcome.handle r] := by
  intro server r
  have hanswer : (send server .ofOwnFamily 4 [] [r]).answer = .error (.miscounted 1 2) := by
    decide +kernel
  refine ⟨hanswer, ?_⟩
  rw [hanswer]
  exact fun heq => nomatch heq

end Client

end Reckoner.Net
