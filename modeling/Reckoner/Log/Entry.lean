import Reckoner.Number.Layout
import Reckoner.Text.Quoted

/-!
# Entry — lines of the log
-/

namespace Reckoner.Log

/-- How much a line matters. -/
inductive Severity where
  | debug
  | info
  | error
  deriving DecidableEq, Repr, Inhabited

def Severity.name : Severity → String
  | .debug => "DEBUG"
  | .info => "INFO"
  | .error => "ERROR"

structure Entry where
  severity : Severity
  message : String
  deriving DecidableEq, Repr, Inhabited

def Entry.line (e : Entry) : String := e.severity.name ++ " " ++ e.message

/-- Values in the log. -/
def number : Number.Layout := .usual

example : number.ofBinary64 (.finite false 3 0) = "3.0".toList := by decide +kernel

example : number.ofBinary64 (.finite false (5 * 10 ^ 15) 1) = "1e+16".toList := by decide +kernel

end Reckoner.Log
