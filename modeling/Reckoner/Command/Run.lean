import Reckoner.Command.Arguments
import Reckoner.Command.Transfer

/-!
# Run — the whole program

A server process is started, a client sends the file to it and writes the summaries next to the file,
and the server process is ended, whatever has become of the exchange.
-/

namespace Reckoner.Command

open Reckoner.Net

inductive Failure where
  | exit (e : Exit)
  /-- The path has no name to make a results file of. -/
  | unnamed (p : Path)
  | transfer (failure : Transfer.Failure)
  deriving DecidableEq, Repr, Inhabited

/-- What a run has brought about. -/
structure Run where
  failure : Option Failure
  disk : Disk
  events : List Event
  entries : List Log.Entry

/-- The line about the end. -/
def writtenEntry (p : Path) : Log.Entry := ⟨.info, "📄 Results written to " ++ p.text⟩

/-- What happens between the start and the end of the server process. -/
def transferEvents (e : Endpoint) (t : Transfer) : List Event :=
  match t.session with
  | some session => Client.events e ++ session.events
  | none => []

/-- A run in which this becomes of the file. -/
def runOf (e : Endpoint) (output : Path) (t : Transfer) : Run :=
  let before : List Event := [.prepared e.host.text e.port, .launched, .paused 1]
  let failure := match t.answer with
    | .ok _ => none
    | .error failure => some (.transfer failure)
  let entries := match t.session with
    | some session => session.entries
    | none => []
  { failure
    disk := t.disk
    events := before ++ transferEvents e t ++ [.terminated, .awaited]
    entries := entries ++ if failure.isNone then [writtenEntry output] else [] }

/-- A run with checked arguments over a file that has these bytes. -/
def runWith (network : Network) (processors : Nat) (plans : List Plan) (d : Disk) (a : Arguments)
    (output : Path) (file : List UInt8) : Run :=
  let server : Server := ⟨a.endpoint, Request.defaultFunction⟩
  runOf a.endpoint output
    (Transfer.sendFile server network processors plans d file output (.string a.function))

/-- A run with the arguments of a command line. -/
def run (network : Network) (processors : Nat) (plans : List Plan) (d : Disk)
    (argv : List String) : Run :=
  match Arguments.ofList d argv with
  | .error e => ⟨some (.exit e), d, [], []⟩
  | .ok a =>
    match a.file.results?, d.readPath? a.file with
    | some output, some file => runWith network processors plans d a output file
    | _, _ => ⟨some (.unnamed a.file), d, [], []⟩

end Reckoner.Command
