import Reckoner.Text.Quoted
import Reckoner.Text.Uppercase

/-!
# Level — configuring loggers

A logger has a name, a level and the formats of its handlers. Configuring it gives it a handler if it
has none, and sets its level by name; a name that is not known leaves the level as it was.
-/

namespace Reckoner.Log

/-- How a line of the log is laid out. -/
def lineFormat : String := "%(asctime)s - %(name)s - %(levelname)s - %(message)s"

def levels : List (String × Nat) := [
  ("CRITICAL", 50), ("FATAL", 50), ("ERROR", 40), ("WARNING", 30), ("WARN", 30), ("INFO", 20),
  ("DEBUG", 10), ("NOTSET", 0)]

/-- The level that is meant when none is named. -/
def defaultLevel : String := "INFO"

/-- The level of a name, in any case; of an unknown one the name in capital letters. -/
def level (name : String) : Except String Nat :=
  let capitals := Text.uppercase name
  match levels.find? (·.1 == capitals) with
  | some found => .ok found.2
  | none => .error capitals

def unknownLevel (capitals : String) : String := "Unknown level: " ++ Text.quoted capitals

/-- A logger. At first it has no level and no handlers. -/
structure Logger where
  level : Nat
  formats : List String
  deriving DecidableEq, Repr, Inhabited

namespace Logger

def fresh : Logger := ⟨0, []⟩

/-- A logger with a handler. -/
def equip (l : Logger) : Logger := if l.formats.isEmpty then { l with formats := [lineFormat] } else l

/-- A logger configured with the name of a level. -/
def configure (l : Logger) (name : Option String) : Logger :=
  match Log.level (name.getD defaultLevel) with
  | .ok n => { l.equip with level := n }
  | .error _ => l.equip

end Logger

/-- The name that a logger is kept under. The logger without a name is the root of all. -/
def loggerName (name : String) : String := if name.isEmpty then "root" else name

abbrev Registry : Type := List (String × Logger)

namespace Registry

/-- The logger of a name; one that is not known yet is fresh. -/
def find (r : Registry) (name : String) : Logger := (r.lookup (loggerName name)).getD .fresh

/-- The registry with the logger of a name configured. -/
def configure (r : Registry) (name : String) (level : Option String) : Registry :=
  (loggerName name, (r.find name).configure level) :: r

end Registry

end Reckoner.Log
