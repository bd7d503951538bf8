/-!
# Event — what happens outside a computation

The steps at which processes and connections come in, in the order in which they happen.
-/

namespace Reckoner

/-- A step of a run. Workers are numbered in the order in which they are started. -/
inductive Event where
  /-- A server process is prepared for this host and port. -/
  | prepared (host : String) (port : Nat)
  /-- The server process starts. -/
  | launched
  /-- So many seconds are waited. -/
  | paused (seconds : Nat)
  | connected (host : String) (port : Nat)
  | finishedSending
  | bound (host : String) (port : Nat)
  | listening
  | started (worker : Nat)
  | polled (worker : Nat)
  | joined (worker : Nat)
  /-- The server process is told to stop. -/
  | terminated
  /-- The server process is waited for. -/
  | awaited
  deriving DecidableEq, Repr, Inhabited

end Reckoner
