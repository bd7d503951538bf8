import Reckoner.Command.Run
import Reckoner.Log.Level

/-!
# Main — the program on a real disk

Reads the file that the command line names, runs the exchange over it, writes the results file, and
logs to standard error what matters enough.
-/

namespace Reckoner

open Command

/-- The number of a severity among the levels. -/
def Log.Severity.number : Log.Severity → Nat
  | .debug => 10
  | .info => 20
  | .error => 40

/-- The variable of the environment that names the least level of the lines that are logged. -/
def levelVariable : String := "EXPRESSION_CALCULATOR_LOG_LEVEL"

/-- The disk as far as a run needs it: the file that the command line names, if it can be read. -/
def diskFor (argv : List String) : IO Disk := do
  let start := (Path.ofText (← IO.currentDir).toString).names
  match Arguments.take argv with
  | .error _ => return ⟨[], [], start⟩
  | .ok taken =>
    let path := Path.ofText (String.ofList (taken.file.getD []))
    try return Disk.around start path (← IO.FS.readBinFile path.text).toList
    catch _ => return ⟨[], [], start⟩

/-- What is said of a run that has failed. -/
def failureText : Command.Failure → String
  | .exit .help => "usage: reckoner [-h] [--host HOST] [--port PORT] [--function FUNCTION] file_path"
  | .exit .refused => "the arguments are not valid"
  | .unnamed p => p.emptyNameMessage
  | .transfer (.exchange .undecodable) => "the file is not valid UTF-8"
  | .transfer (.exchange .unconnected) => "the server cannot be reached"
  | .transfer (.exchange (.invalid _)) => "a request or a result is not valid"
  | .transfer (.exchange (.miscounted expected received)) =>
    Net.Client.miscountedMessage expected received
  | .transfer (.exchange .unprintable) => "a result has nothing to show"
  | .transfer (.write _) => "the results file cannot be written"

/-- The code that the program ends with. -/
def exitCode : Option Command.Failure → UInt32
  | none => 0
  | some (.exit e) => UInt32.ofNat e.code
  | some _ => 1

/-- Writes the results file of a run, if there is one; a run may have failed after it. -/
def writeResults (r : Run) (argv : List String) : IO Unit := do
  match Arguments.ofList r.disk argv with
  | .error _ => return
  | .ok a =>
    match a.file.results?.bind fun output => (r.disk.readPath? output).map (output, ·) with
    | some (output, bytes) => IO.FS.writeBinFile output.text ⟨bytes.toArray⟩
    | none => return

/-- How many processors a run counts on. -/
def processors : Nat := 4

/-- Runs the program on the arguments of a command line, logging lines of at least a level. -/
def perform (least : Nat) (argv : List String) : IO UInt32 := do
  let r := Command.run .ofOwnFamily processors [] (← diskFor argv) argv
  for e in r.entries do
    if least ≤ e.severity.number then IO.eprintln e.line
  writeResults r argv
  if let some failure := r.failure then
    IO.eprintln (failureText failure)
  return exitCode r.failure

end Reckoner

/-- Runs the program; the environment names the level of its log. -/
def main (argv : List String) : IO UInt32 := do
  let name := (← IO.getEnv Reckoner.levelVariable).getD Reckoner.Log.defaultLevel
  match Reckoner.Log.level name with
  | .ok least => Reckoner.perform least argv
  | .error capitals =>
    IO.eprintln (Reckoner.Log.unknownLevel capitals)
    return 1
