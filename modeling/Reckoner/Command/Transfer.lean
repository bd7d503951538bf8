import Reckoner.Command.Disk
import Reckoner.Net.Client

/-!
# Transfer — a file of expressions, and another one of their results

A client sends the requests of a file and writes the summaries of what it gets back to another one.
The results file is opened once the reply has been read; outcomes are summed up while it is written.
-/

namespace Reckoner.Command

open Reckoner.Net

/-- Why a file is not answered as a whole. -/
inductive Transfer.Failure where
  | exchange (failure : Client.Failure)
  | write (e : Disk.WriteError)
  deriving DecidableEq, Repr, Inhabited

/-- What sending a file has brought about: the session that the server had, if it came to one, the
outcomes that are given back, and the disk with the results file. -/
structure Transfer where
  session : Option Server.Session
  answer : Except Transfer.Failure (List Outcome)
  disk : Disk

namespace Transfer

/-- Writes the summaries of outcomes, if the path lets a file be written. What stands before an outcome
with nothing to show has been written by then, and stays. -/
def writeSummaries (d : Disk) (output : Path) (outcomes : List Outcome) :
    Except Failure (List Outcome) × Disk :=
  match d.writable output with
  | .error e => (.error (.write e), d)
  | .ok place =>
    let shown := Client.leadingSummaries outcomes
    let answer :=
      if shown.length = outcomes.length then .ok outcomes else .error (.exchange .unprintable)
    (answer, d.write place (Text.Utf8.encode (Client.report shown).toList))

/-- What becomes of an exchange: its failure, or the results file. -/
def finish (d : Disk) (output : Path) (x : Client.Exchange) : Transfer :=
  match x.answer with
  | .error failure => ⟨x.session, .error (.exchange failure), d⟩
  | .ok outcomes =>
    let (answer, disk) := writeSummaries d output outcomes
    ⟨x.session, answer, disk⟩

/-- Sends a file that has these bytes to a server, and writes the results to the disk. -/
def sendFile (server : Server) (network : Network) (processors : Nat) (plans : List Plan)
    (d : Disk) (file : List UInt8) (output : Path) (function : Json.Value) : Transfer :=
  finish d output (Client.exchangeFile server network processors plans file function)

end Transfer

end Reckoner.Command
