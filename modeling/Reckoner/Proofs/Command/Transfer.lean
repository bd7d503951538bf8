import Reckoner.Command.Transfer
import Reckoner.Proofs.Command.Disk
import Reckoner.Proofs.Net.Answers

/-!
# Transfer — a file there and its report back

What a client takes from a server for a file is what becomes of each of its lines by itself: the file
is read into requests, the requests and the outcomes survive the connection, and each outcome has one
line in the file that is written. Of the disk nothing else is changed.
-/

namespace Reckoner.Command.Transfer

open Json Net Text

variable {d : Disk} {output : Path} {x : Client.Exchange}

/-! ## The results file -/

theorem finish_of_error {failure : Client.Failure} (h : x.answer = .error failure) :
    finish d output x = ⟨x.session, .error (.exchange failure), d⟩ := by
  rw [finish, h]

theorem finish_of_unwritable {outcomes : List Outcome} {error : Disk.WriteError}
    (h : x.answer = .ok outcomes) (herror : d.writable output = .error error) :
    finish d output x = ⟨x.session, .error (.write error), d⟩ := by
  rw [finish, h]
  simp only [writeSummaries, herror]

theorem finish_of_writable {outcomes : List Outcome} {shown : List String} {place : Place}
    (h : x.answer = .ok outcomes) (hshown : outcomes.map Outcome.summary? = shown.map some)
    (hplace : d.writable output = .ok place) :
    finish d output x = ⟨x.session, .ok outcomes,
      d.write place (Utf8.encode (Client.report shown).toList)⟩ := by
  have hlength : shown.length = outcomes.length := by
    rw [← List.length_map some, ← hshown, List.length_map]
  rw [finish, h]
  simp only [writeSummaries, hplace, Client.leadingSummaries_eq hshown, if_pos hlength]

/-- Only an outcome with nothing to show can have a transfer fail with a part of its results
written. -/
theorem disk_finish_of_error {failure : Failure}
    (hshown : ∀ outcomes, x.answer = .ok outcomes →
      ∃ shown : List String, outcomes.map Outcome.summary? = shown.map some)
    (h : (finish d output x).answer = .error failure) : (finish d output x).disk = d := by
  cases hanswer : x.answer with
  | error failure => rw [finish_of_error hanswer]
  | ok outcomes =>
    cases hwritable : d.writable output with
    | error error => rw [finish_of_unwritable hanswer hwritable]
    | ok place =>
      rcases hshown outcomes hanswer with ⟨shown, hshown⟩
      rw [finish_of_writable hanswer hshown hwritable] at h
      exact nomatch h

/-! ## The transfer -/

/-- For a file that can be decoded, a function without bare breaks, and a path that lets a file be
written, a transfer succeeds if the server can listen and be reached and no worker is lost. The
outcomes that are given back are those of the lines with content, in the order of the file. What is
written are their summaries, each with a line feed after it, so there is one line for each of them;
every other file is as before. -/
theorem sendFile_of_writable (server : Server) {network : Network}
    (hjoins : network.joins server.endpoint = true) {processors : Nat}
    (hprocessors : 0 < processors) {plans : List Plan}
    (hplans : ∀ plan ∈ plans, plan.crash = false) (d : Disk) {file : List UInt8} {text : List Char}
    (hfile : Utf8.decode? file = some text) {function : String}
    (hfunction : FreeOfBareBreaks function) {output : Path} {place : Place}
    (hplace : d.writable output = .ok place) :
    let t := sendFile server network processors plans d file output (.string function)
    ∃ (requests : List Request) (shown : List String),
      Client.requestsOfFile file (.string function) = .ok requests ∧
      (requests.map fun r => (r.expression, r.function)) =
        (contentLines (plainBreaks text)).map (fun l => (String.ofList l, function)) ∧
      t.answer = .ok (requests.map Outcome.handle) ∧
      (requests.map Outcome.handle).map Outcome.summary? = shown.map some ∧
      (∀ other, t.disk.read? other =
        if other = place then
          some (Utf8.encode (shown.flatMap fun line => line.toList ++ ['\n']))
        else d.read? other) ∧
      t.disk.directories = d.directories ∧
      lines (shown.flatMap fun line => line.toList ++ ['\n']) = shown.map String.toList ∧
      shown.length = (contentLines (plainBreaks text)).length := by
  intro t
  rcases Client.exists_answer_exchangeFile hjoins hprocessors plans hfile (.inr hfunction) with
    ⟨requests, shown, hrequests, hanswer, hfields, hshown, hunbroken⟩
  rw [Pool.answers_of_not_crash hplans] at hanswer hshown
  have ht : t = _ := finish_of_writable hanswer hshown hplace
  have hcount : shown.length = (contentLines text).length := by
    have hlength := congrArg List.length hshown
    have hlines := congrArg List.length hfields
    simp only [List.length_map] at hlength hlines
    omega
  rw [contentLines_plainBreaks]
  refine ⟨requests, shown, hrequests, hfields, by rw [ht], hshown, fun other => ?_,
    by rw [ht]; rfl, ?_, hcount⟩
  · rw [ht, ← Client.toList_report]
    exact d.read?_write place other _
  · rw [← Client.toList_report]
    exact Client.lines_report hunbroken

/-- A file with a blank line between two that have no value, and an old results file. -/
theorem sendFile_two_lines :
    let server : Server := ⟨⟨.loopback, Endpoint.defaultPort⟩, Request.defaultFunction⟩
    let file : List UInt8 := Utf8.encode "(\r\n \r $ \n".toList
    let plans : List Plan := [{ polls := 3 }]
    let output : Path := ⟨[], ["..".toList, "out".toList]⟩
    let d : Disk := ⟨[(["out".toList], Utf8.encode "old".toList)], [], ["work".toList]⟩
    let t := sendFile server .ofOwnFamily 2 plans d file output (.string Request.defaultFunction)
    Network.ofOwnFamily.joins server.endpoint = true ∧ 0 < 2 ∧
      (∀ plan ∈ plans, plan.crash = false) ∧
      Utf8.decode? file = some "(\r\n \r $ \n".toList ∧
      FreeOfBareBreaks Request.defaultFunction ∧ d.writable output = .ok ["out".toList] ∧
      t.answer = .ok [⟨"(", none, some "Mismatched parentheses", false⟩,
        ⟨"$", none, some "Invalid characters in expression", false⟩] ∧
      t.disk.read? ["out".toList] = some (Utf8.encode
        (["( -> Error: Mismatched parentheses",
          "$ -> Error: Invalid characters in expression"].flatMap fun line =>
            line.toList ++ ['\n'])) := by
  intro server file plans output d t
  have hjoins : Network.ofOwnFamily.joins server.endpoint = true := rfl
  have hplans : ∀ plan ∈ plans, plan.crash = false := List.forall_mem_singleton.mpr rfl
  have hfile := Utf8.decode?_encode "(\r\n \r $ \n".toList
  have hfunction : FreeOfBareBreaks Request.defaultFunction := by decide
  have hplace : d.writable output = .ok ["out".toList] := by decide +kernel
  refine ⟨hjoins, Nat.two_pos, hplans, hfile, hfunction, hplace, ?_⟩
  rcases sendFile_of_writable server hjoins Nat.two_pos hplans d hfile hfunction hplace with
    ⟨requests, shown, hrequests, -, hanswer, hshown, hread, -⟩
  have hboth : Client.requestsOfFile file (.string Request.defaultFunction) =
      .ok [⟨"(", Request.defaultFunction, by decide⟩, ⟨"$", Request.defaultFunction, by decide⟩] := by
    decide +kernel
  have hrequests := Except.ok.inj (hrequests.symm.trans hboth)
  have houtcomes : requests.map Outcome.handle = [⟨"(", none, some "Mismatched parentheses", false⟩,
      ⟨"$", none, some "Invalid characters in expression", false⟩] := by
    rw [hrequests]
    rfl
  have hsummaries : [⟨"(", none, some "Mismatched parentheses", false⟩,
      ⟨"$", none, some "Invalid characters in expression", false⟩].map Outcome.summary? =
        ["( -> Error: Mismatched parentheses",
          "$ -> Error: Invalid characters in expression"].map some := by decide +kernel
  rw [houtcomes] at hanswer hshown
  have hlines := List.map_injective_iff.mpr (Option.some_injective _) (hshown.symm.trans hsummaries)
  refine ⟨hanswer, (hread _).trans ?_⟩
  rw [if_pos rfl, hlines]

end Reckoner.Command.Transfer
