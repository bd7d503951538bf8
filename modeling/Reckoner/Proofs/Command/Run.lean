import Reckoner.Command.Run
import Reckoner.Proofs.Command.Transfer
import Reckoner.Proofs.Work.Trace

/-!
# Run — all of a run or nothing of it

A run that comes to start the server process ends it as well, whatever becomes of the exchange in
between. The results file is written while outcomes are summed up, so a run could leave a part of it
behind; but what a server answers can all be summed up. So a run that fails leaves the disk as it
was, and one that does not fail changes the results file only.
-/

namespace Reckoner

open Json Text

/-! ## Steps of the server process -/

namespace Event

/-- Whether a step starts or ends the server process. -/
def isSupervision : Event → Bool
  | .launched | .terminated | .awaited => true
  | _ => false

theorem isSupervision_of_worker? {e : Event} {number : Nat} (h : e.worker? = some number) :
    e.isSupervision = false := by
  cases e with
  | launched | terminated | awaited => cases h
  | _ => rfl

end Event

namespace Net

variable {network : Network} {processors : Nat} {plans : List Plan} {session : Server.Session}

-- What a server does on a connection neither starts nor ends its own process.
theorem Server.isSupervision_of_serve {s : Server} {connected : Bool} {chunks : List (List UInt8)}
    (hprocessors : 0 < processors)
    (h : s.serve network processors plans connected chunks = .ok session) :
    ∀ e ∈ session.events, e.isSupervision = false := by
  rw [serve] at h
  split at h
  swap
  · cases h
  cases hread : s.receive chunks with
  | error faults =>
    rw [hread] at h
    cases h
  | ok requests =>
    simp only [hread] at h
    cases hpool : Pool.process processors plans requests with
    | error faults =>
      rw [hpool] at h
      cases h
    | ok pool =>
      rw [hpool] at h
      cases h
      refine List.forall_mem_cons.mpr ⟨rfl, List.forall_mem_cons.mpr ⟨rfl, fun e he => ?_⟩⟩
      rcases (Pool.traced_process hprocessors hpool).workers e he with ⟨number, -, hnumber⟩
      exact Event.isSupervision_of_worker? hnumber

theorem Client.isSupervision_of_exchangeFile {server : Server} {file : List UInt8}
    {function : Json.Value} (hprocessors : 0 < processors)
    (h : (exchangeFile server network processors plans file function).session = some session) :
    ∀ e ∈ session.events, e.isSupervision = false := by
  rw [exchangeFile] at h
  split at h
  · cases h
  · rw [send] at h
    split at h
    · split at h
      · cases h
      · cases h
      · rename_i session' hserve
        cases h
        exact Server.isSupervision_of_serve hprocessors hserve
    · cases h

end Net

namespace Command

open Net

/-! ## The server process -/

/-- The server process is launched once, and it is terminated and waited for once, at the end. -/
structure Supervised (events : List Event) : Prop where
  launched : events.count .launched = 1
  terminated : events.count .terminated = 1
  awaited : events.count .awaited = 1
  ends : [.terminated, .awaited] <:+ events

variable {d : Disk} {e : Endpoint} {output : Path} {x : Client.Exchange}

/-- A run around an exchange, whatever becomes of that. -/
def runAround (d : Disk) (e : Endpoint) (output : Path) (x : Client.Exchange) : Run :=
  runOf e output (Transfer.finish d output x)

theorem session_finish (d : Disk) (output : Path) (x : Client.Exchange) :
    (Transfer.finish d output x).session = x.session := by
  rw [Transfer.finish]
  split <;> rfl

/-- Whatever becomes of an exchange, the server process is ended. -/
theorem supervised_runAround (d : Disk) (e : Endpoint) (output : Path)
    (hsession : ∀ session ∈ x.session, ∀ event ∈ session.events, event.isSupervision = false) :
    Supervised (runAround d e output x).events := by
  have hevents : ∀ event ∈ transferEvents e (Transfer.finish d output x),
      event.isSupervision = false := by
    rw [transferEvents, session_finish]
    cases hx : x.session with
    | none => exact List.forall_mem_nil _
    | some session =>
      refine List.forall_mem_append.mpr ⟨?_, hsession session hx⟩
      exact List.forall_mem_cons.mpr ⟨rfl, List.forall_mem_singleton.mpr rfl⟩
  have hcount {event : Event} (h : event.isSupervision = true) :
      (transferEvents e (Transfer.finish d output x)).count event = 0 := by
    refine List.count_eq_zero.mpr fun hmem => ?_
    rw [hevents event hmem] at h
    exact nomatch h
  constructor
  · rw [runAround, runOf, List.count_append, List.count_append, hcount rfl]
    rfl
  · rw [runAround, runOf, List.count_append, List.count_append, hcount rfl]
    rfl
  · rw [runAround, runOf, List.count_append, List.count_append, hcount rfl]
    rfl
  · exact List.suffix_append _ _

/-! ## The results file -/

theorem failure_runOf {t : Transfer} :
    (runOf e output t).failure = none ↔ ∃ outcomes, t.answer = .ok outcomes := by
  rw [runOf]
  cases t.answer with
  | error failure => simp
  | ok outcomes => simp

theorem failure_runAround_of_error {failure : Transfer.Failure}
    (h : (Transfer.finish d output x).answer = .error failure) :
    (runAround d e output x).failure ≠ none := by
  rw [runAround, Ne, failure_runOf, h]
  rintro ⟨outcomes, hok⟩
  cases hok

theorem disk_runAround_of_failure {e : Endpoint}
    (hshown : ∀ outcomes, x.answer = .ok outcomes →
      ∃ shown : List String, outcomes.map Outcome.summary? = shown.map some)
    (hfailure : (runAround d e output x).failure ≠ none) : (runAround d e output x).disk = d := by
  rw [runAround, Ne, failure_runOf] at hfailure
  show (Transfer.finish d output x).disk = d
  cases hanswer : (Transfer.finish d output x).answer with
  | error failure => exact Transfer.disk_finish_of_error hshown hanswer
  | ok outcomes => exact absurd ⟨outcomes, hanswer⟩ hfailure

theorem locate?_of_writable {place : Place} (h : d.writable output = .ok place) :
    d.locate? output = some place := by
  rw [Disk.writable] at h
  split at h
  · exact nomatch h
  · rename_i found hfound
    split_ifs at h
    rw [hfound, Except.ok.inj h]

-- The file of checked arguments can be read.
theorem Arguments.exists_of_ofList {argv : List String} {a : Arguments}
    (h : Arguments.ofList d argv = .ok a) : ∃ bytes, d.readPath? a.file = some bytes := by
  rw [ofList] at h
  split at h
  · rename_i taken htaken
    rw [ofTaken] at h
    split at h
    · exact nomatch h
    · exact nomatch h
    · simp only at h
      split at h
      · rename_i bytes endpoint function hread _ _
        cases h
        exact ⟨bytes, hread⟩
      · exact nomatch h
  · exact nomatch h

/-! ## The whole run -/

variable {network : Network} {processors : Nat} {plans : List Plan}

/-- What a run that succeeds leaves behind: `shown` is written to `place`, which the path for the
results leads to, and nothing else is changed, the file itself least of all. There is one summary for
each line with content, and each stands on a line of its own. They are those of what becomes of each
line by itself, where no worker is lost. -/
structure Reported (plans : List Plan) (d : Disk) (a : Arguments) (place : Place)
    (shown : List String) (after : Disk) : Prop where
  located : ∃ output, a.file.results? = some output ∧ d.locate? output = some place
  apart : d.locate? a.file ≠ some place
  directories : after.directories = d.directories
  files : ∀ other, after.read? other =
    if other = place then some (Utf8.encode (Client.report shown).toList) else d.read? other
  lines : Text.lines (Client.report shown).toList = shown.map String.toList
  summaries : ∃ file text, d.readPath? a.file = some file ∧ Utf8.decode? file = some text ∧
    ∃ requests : List Request, (requests.map fun r => (r.expression, r.function)) =
        (contentLines text).map (fun l => (String.ofList l, a.function)) ∧
      (Pool.answers plans requests).map Outcome.summary? = shown.map some ∧
      ((∀ plan ∈ plans, plan.crash = false) →
        Pool.answers plans requests = requests.map Outcome.handle)

/-- What a run needs to succeed: the server can listen and be reached, an exchange over its file has an
answer, and the path for the results lets a file be written. -/
structure Reportable (network : Network) (d : Disk) (a : Arguments) : Prop where
  joined : network.joins a.endpoint = true
  answerable : ∃ file, d.readPath? a.file = some file ∧ Client.Answerable file a.function
  writable : ∃ output place, a.file.results? = some output ∧ d.writable output = .ok place

-- The results file is there just if there are an answer and a place to write it to.
theorem finish_exchangeFile (hprocessors : 0 < processors) (htree : d.IsTree) {a : Arguments}
    {file : List UInt8} (hfile : d.readPath? a.file = some file)
    (houtput : a.file.results? = some output)
    (hx : Client.exchangeFile ⟨a.endpoint, Request.defaultFunction⟩ network processors plans file
      (.string a.function) = x) :
    ((runAround d e output x).failure = none →
        ∃ place shown, Reported plans d a place shown (runAround d e output x).disk) ∧
      ((runAround d e output x).failure = none ↔ Reportable network d a) := by
  cases hanswer : x.answer with
  | error failure =>
    have hno : (runAround d e output x).failure ≠ none :=
      failure_runAround_of_error (by rw [Transfer.finish_of_error hanswer])
    refine ⟨fun h => absurd h hno, fun h => absurd h hno, fun hreportable => ?_⟩
    rcases hreportable.answerable with ⟨file', hfile', text, hdecode, hfunction⟩
    cases hfile.symm.trans hfile'
    have hjoins : network.joins (Server.mk a.endpoint Request.defaultFunction).endpoint = true :=
      hreportable.joined
    rcases Client.exists_answer_exchangeFile hjoins hprocessors plans hdecode hfunction with
      ⟨requests, shown, -, hok, -⟩
    rw [hx, hanswer] at hok
    cases hok
  | ok outcomes =>
    rcases Client.answerable_of_answer_exchangeFile hprocessors (hx ▸ hanswer) with
      ⟨hjoins, text, hdecode, hfunction⟩
    cases hwritable : d.writable output with
    | error error =>
      have hno : (runAround d e output x).failure ≠ none :=
        failure_runAround_of_error (by rw [Transfer.finish_of_unwritable hanswer hwritable])
      refine ⟨fun h => absurd h hno, fun h => absurd h hno, fun hreportable => ?_⟩
      rcases hreportable.writable with ⟨output', place, houtput', hplace⟩
      cases houtput.symm.trans houtput'
      cases hwritable.symm.trans hplace
    | ok place =>
      rcases Client.exists_answer_exchangeFile hjoins hprocessors plans hdecode hfunction with
        ⟨requests, shown, -, hok, hfields, hshown, hunbroken⟩
      rw [hx, hanswer] at hok
      cases hok
      rw [runAround, Transfer.finish_of_writable hanswer hshown hwritable]
      have hplace := locate?_of_writable hwritable
      refine ⟨fun _ => ⟨place, shown, ?_⟩, fun _ => ?_, fun _ => rfl⟩
      · exact {
          located := ⟨output, houtput, hplace⟩
          apart := htree.locate?_ne_of_results? hfile houtput hplace
          directories := rfl
          files := fun other => d.read?_write place other _
          lines := Client.lines_report hunbroken
          summaries := ⟨file, text, hfile, hdecode, requests, hfields, hshown,
            fun hplans => Pool.answers_of_not_crash hplans requests⟩ }
      · exact ⟨hjoins, ⟨file, hfile, text, hdecode, hfunction⟩, ⟨output, place, houtput, hwritable⟩⟩

/-- All or nothing. Arguments that are refused start no process and leave the disk as it is. With
others the server process is started once, and ended in any case. If the run fails then, the disk is
as before, and otherwise there is the results file and no other change. It fails just if there is no
connection, its file or its function cannot be sent, or the results cannot be written. Around any other
exchange, with a peer that sends whatever it likes, the process is ended as well, and as long as there
is something to show for each outcome, a failure leaves the disk as it was. -/
theorem run_all_or_nothing (network : Network) {processors : Nat} (hprocessors : 0 < processors)
    (plans : List Plan) (d : Disk) (htree : d.IsTree) (argv : List String) :
    let r := run network processors plans d argv
    (∀ e, Arguments.ofList d argv = .error e →
      r.failure = some (Failure.exit e) ∧ r.events = [] ∧ r.disk = d) ∧
    (∀ a, Arguments.ofList d argv = .ok a →
      Supervised r.events ∧ (r.failure ≠ none → r.disk = d) ∧
        (r.failure = none → ∃ place shown, Reported plans d a place shown r.disk) ∧
        (r.failure = none ↔ Reportable network d a)) ∧
    ∀ e output x,
      ((∀ session ∈ x.session, ∀ event ∈ session.events, event.isSupervision = false) →
        Supervised (runAround d e output x).events) ∧
      ((∀ outcomes, x.answer = .ok outcomes → ∀ o ∈ outcomes, o.summary? ≠ none) →
        (runAround d e output x).failure ≠ none → (runAround d e output x).disk = d) := by
  intro r
  refine ⟨?_, ?_, fun e output x => ⟨supervised_runAround d e output, fun hsome => ?_⟩⟩
  · intro e he
    have hr : r = ⟨some (Failure.exit e), d, [], []⟩ := by
      show run network processors plans d argv = _
      rw [run, he]
    rw [hr]
    exact ⟨rfl, rfl, rfl⟩
  · intro a ha
    rcases Arguments.exists_of_ofList ha with ⟨file, hfile⟩
    rcases htree.exists_results? hfile with ⟨output, houtput⟩
    have hr : r = runAround d a.endpoint output (Client.exchangeFile
        ⟨a.endpoint, Request.defaultFunction⟩ network processors plans file
        (.string a.function)) := by
      show run network processors plans d argv = _
      rw [run, ha]
      simp only [houtput, hfile]
      rfl
    rw [hr]
    refine ⟨supervised_runAround d a.endpoint output fun session hsession => ?_,
      disk_runAround_of_failure fun outcomes houtcomes => ?_,
      finish_exchangeFile hprocessors htree hfile houtput rfl⟩
    · exact Client.isSupervision_of_exchangeFile hprocessors hsession
    · exact Client.exists_shown_of_answer_exchangeFile hprocessors houtcomes
  · refine disk_runAround_of_failure fun outcomes houtcomes => ?_
    have hlines : ∀ o ∈ outcomes, ∃ line, o.summary? = some line ∧ True := fun o ho => by
      simpa using Option.ne_none_iff_exists'.mp (hsome outcomes houtcomes o ho)
    rcases Client.exists_shown hlines with ⟨shown, hshown, -⟩
    exact ⟨shown, hshown⟩

/-- A file next to the directory that the run starts in, with two lines that have no value. Where the
path for the results is that of a directory, there is the same exchange and no trace of it on the disk.
A reply with an outcome too few leaves none either. -/
theorem run_all_or_nothing_twice :
    let argv : List String := ["../in.v2.txt"]
    let text : List Char := "(\r\n\n 2$".toList
    let disk (directories : List Place) : Disk :=
      ⟨[(["in.v2.txt".toList], Utf8.encode text)], ["work".toList] :: directories, ["work".toList]⟩
    let taken : List Place := [["in_v2_txt_results.txt".toList]]
    let plans : List Plan := [{ polls := 2 }, { crash := true }]
    let a : Arguments := ⟨⟨[], ["..".toList, "in.v2.txt".toList]⟩,
      ⟨.loopback, Endpoint.defaultPort⟩, Request.defaultFunction⟩
    let output : Path := ⟨[], ["..".toList, "in_v2_txt_results.txt".toList]⟩
    let free : Run := run .ofOwnFamily 2 plans (disk []) argv
    let blocked : Run := run .ofOwnFamily 2 plans (disk taken) argv
    let short : Run := runAround (disk []) a.endpoint output ⟨none, .error (.miscounted 2 1)⟩
    0 < 2 ∧
    ((disk []).IsTree ∧ Arguments.ofList (disk []) argv = .ok a ∧
      Supervised free.events ∧ free.failure = none ∧
      ∃ place shown, Reported plans (disk []) a place shown free.disk) ∧
    ((disk taken).IsTree ∧ Arguments.ofList (disk taken) argv = .ok a ∧
      Supervised blocked.events ∧ blocked.failure ≠ none ∧ blocked.disk = disk taken) ∧
    Supervised short.events ∧ short.failure ≠ none ∧ short.disk = disk [] := by
  intro argv text disk taken plans a output free blocked short
  have hfree : (disk []).IsTree := by decide +kernel
  have htaken : (disk taken).IsTree := by decide +kernel
  have ha : Arguments.ofList (disk []) argv = .ok a := by decide +kernel
  have ha' : Arguments.ofList (disk taken) argv = .ok a := by decide +kernel
  rcases run_all_or_nothing .ofOwnFamily Nat.two_pos plans _ hfree argv with
    ⟨-, haccepted, hexchange⟩
  rcases haccepted a ha with ⟨hevents, -, hreported, hsuccess⟩
  rcases (run_all_or_nothing .ofOwnFamily Nat.two_pos plans _ htaken argv).2.1 a ha' with
    ⟨hevents', hnothing, -, hsuccess'⟩
  rcases hexchange a.endpoint output ⟨none, .error (.miscounted 2 1)⟩ with ⟨hshort, hshort'⟩
  have houtput : a.file.results? = some output := by decide +kernel
  have hfunction : FreeOfBareBreaks a.function := by decide
  have hwritable : (disk []).writable output = .ok ["in_v2_txt_results.txt".toList] := by
    decide +kernel
  have hunwritable : (disk taken).writable output = .error .isDirectory := by decide +kernel
  have hreportable : Reportable .ofOwnFamily (disk []) a :=
    ⟨rfl, ⟨Utf8.encode text, by decide +kernel, text, Utf8.decode?_encode text, .inr hfunction⟩,
      output, _, houtput, hwritable⟩
  have hfailure : blocked.failure ≠ none := by
    rw [Ne, hsuccess']
    rintro ⟨-, -, output', place, houtput', hplace⟩
    cases houtput.symm.trans houtput'
    cases hunwritable.symm.trans hplace
  have hmiscounted : short.failure ≠ none := Option.some_ne_none _
  exact ⟨Nat.two_pos,
    ⟨hfree, ha, hevents, hsuccess.mpr hreportable, hreported (hsuccess.mpr hreportable)⟩,
    ⟨htaken, ha', hevents', hfailure, hnothing hfailure⟩,
    hshort (fun _ hsession => nomatch hsession), hmiscounted,
    hshort' (fun _ hok => nomatch hok) hmiscounted⟩

end Command

end Reckoner
