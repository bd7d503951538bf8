import Reckoner.Proofs.Net.Readers
import Reckoner.Proofs.Net.Report

/-!
# Answers — when a file has an answer

The lines of a file have no breaks in them, so all that can keep its requests from being read as they
were sent is the name of the function. If that has no bare break, or there is no line to send it with,
the file has an answer, and each outcome in it can be summed up.
-/

namespace Reckoner.Net.Client

open Json Text

variable {server : Server} {network : Network} {processors : Nat} {plans : List Plan}
  {file : List UInt8} {function : String}

-- The requests of a file have no line breaks in their expressions, and its function.
theorem exists_requestsOfFile {text : List Char} (hfile : Utf8.decode? file = some text)
    (function : String) :
    ∃ requests, requestsOfFile file (.string function) = .ok requests ∧
      (requests.map fun r => (r.expression, r.function)) =
        (contentLines text).map (fun l => (String.ofList l, function)) ∧
      ∀ r ∈ requests, Unbroken r.expression.toList ∧ r.function = function := by
  have hcontent : ∀ l ∈ contentLines text, IsContent l :=
    fun l hl => isContent_of_mem_contentLines hl
  rcases exists_requests hcontent function with ⟨requests, hrequests, hfields⟩
  refine ⟨requests, by rw [requestsOfFile_of_decode? hfile, hrequests]; rfl, hfields, ?_⟩
  intro r hr
  have hmem := List.mem_map_of_mem (f := fun r : Request => (r.expression, r.function)) hr
  rw [hfields] at hmem
  rcases List.mem_map.mp hmem with ⟨l, hl, heq⟩
  rcases Prod.mk.inj heq with ⟨hexpression, hname⟩
  rw [← hexpression, String.toList_ofList]
  exact ⟨(hcontent l hl).unbroken, hname.symm⟩

/-- An exchange over a file has an answer if the file can be decoded and the name of the function is
not cut in two, or is not sent at all. -/
def Answerable (file : List UInt8) (function : String) : Prop :=
  ∃ text, Utf8.decode? file = some text ∧
    (contentLines text = [] ∨ FreeOfBareBreaks function)

/-- A file is answered with what becomes of each of its lines in the run of the server, and the
outcomes can all be summed up. -/
theorem exists_answer_exchangeFile (hjoins : network.joins server.endpoint = true)
    (hprocessors : 0 < processors) (plans : List Plan) {text : List Char}
    (hfile : Utf8.decode? file = some text)
    (hfunction : contentLines text = [] ∨ FreeOfBareBreaks function) :
    ∃ (requests : List Request) (shown : List String),
      requestsOfFile file (.string function) = .ok requests ∧
      (exchangeFile server network processors plans file (.string function)).answer =
        .ok (Pool.answers plans requests) ∧
      (requests.map fun r => (r.expression, r.function)) =
        (contentLines text).map (fun l => (String.ofList l, function)) ∧
      (Pool.answers plans requests).map Outcome.summary? = shown.map some ∧
      ∀ line ∈ shown, Unbroken line.toList := by
  rcases exists_requestsOfFile hfile function with ⟨requests, hrequests, hfields, hrequest⟩
  have hfree : ∀ r ∈ requests, r.FreeOfBareBreaks := by
    intro r hr
    refine ⟨freeOfBareBreaks_of_unbroken (hrequest r hr).1, ?_⟩
    rcases hfunction with hnone | hfunction
    · rw [hnone, List.map_nil, List.map_eq_nil_iff] at hfields
      rw [hfields] at hr
      exact nomatch hr
    · rw [(hrequest r hr).2]
      exact hfunction
  rcases exists_shown_answers plans fun r hr => (hrequest r hr).1 with ⟨shown, hshown, hunbroken⟩
  refine ⟨requests, shown, hrequests, ?_, hfields, hshown, hunbroken⟩
  rw [exchangeFile, hrequests]
  exact answer_send server hjoins hprocessors plans hfree

-- Otherwise there is no answer.
theorem answerable_of_answer_exchangeFile (hprocessors : 0 < processors) {outcomes : List Outcome}
    (h : (exchangeFile server network processors plans file (.string function)).answer =
      .ok outcomes) : network.joins server.endpoint = true ∧ Answerable file function := by
  cases hfile : Utf8.decode? file with
  | none =>
    rw [exchangeFile, requestsOfFile, hfile] at h
    cases h
  | some text =>
    rcases exists_requestsOfFile hfile function with ⟨requests, hrequests, hfields, hrequest⟩
    rw [exchangeFile, hrequests] at h
    change (send server network processors plans requests).answer = _ at h
    constructor
    · by_contra hjoins
      rw [send_of_not_joins (Bool.eq_false_iff.mpr hjoins)] at h
      cases h
    · refine ⟨text, hfile, ?_⟩
      by_contra hbroken
      rw [not_or] at hbroken
      -- There is a line, and its request has the function with the bare break.
      have hsome : requests ≠ [] := by
        rintro rfl
        exact hbroken.1 (List.map_eq_nil_iff.mp hfields.symm)
      rcases List.exists_mem_of_ne_nil _ hsome with ⟨r, hr⟩
      refine answer_send_ne_ok server hprocessors plans (fun hfree => hbroken.2 ?_) outcomes h
      rw [← (hrequest r hr).2]
      exact (hfree r hr).2

-- Whatever the answer, there is something to show for each outcome in it.
theorem exists_shown_of_answer_exchangeFile (hprocessors : 0 < processors)
    {outcomes : List Outcome}
    (h : (exchangeFile server network processors plans file (.string function)).answer =
      .ok outcomes) :
    ∃ shown : List String, outcomes.map Outcome.summary? = shown.map some := by
  rcases answerable_of_answer_exchangeFile hprocessors h with ⟨hjoins, text, hfile, hfunction⟩
  rcases exists_answer_exchangeFile hjoins hprocessors plans hfile hfunction with
    ⟨requests, shown, -, hanswer, -, hshown, -⟩
  cases h.symm.trans hanswer
  exact ⟨shown, hshown⟩

end Reckoner.Net.Client
