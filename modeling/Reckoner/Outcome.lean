import Reckoner.Expr.Evaluation
import Reckoner.Request

/-!
# Outcome — what has become of a request

An outcome has the value of the expression, or says why there is none. `handle` is the whole of the
service for one request; how an outcome is shown follows it.
-/

namespace Reckoner

open Record

/-- The answer to a request. Read from data it may have both a value and an error, or neither. -/
structure Outcome where
  expression : String
  result : Option Float
  error : Option String
  /-- Whether the request named no function of this service. -/
  rejected : Bool
  deriving DecidableEq

/-- Values are shown with up to 14 significant digits, without zeros at their end; from `1E+14` up
and below `0.0001` they have an exponent. -/
def amount : Number.Layout where
  precision := some 14
  lowest := -4
  highest := 14
  keepsPoint := false
  mark := 'E'
  exponentWidth := 2
  nan := "NAN"
  infinity := "INF"

example : amount.ofBinary64 (.finite false 3 0) = ['3'] := by decide +kernel

example : amount.ofBinary64 (.finite true 0 0) = "-0".toList := by decide +kernel

example : amount.ofBinary64 (.finite false 1 (-1)) = "0.5".toList := by decide +kernel

example : amount.ofBinary64 (.finite false (10 ^ 14) 0) = "1E+14".toList := by decide +kernel

example : amount.ofBinary64 (.infinite true) = "-INF".toList := by decide +kernel

/-- What there is to show of an outcome. -/
inductive Display where
  | text (s : String)
  /-- A rejection without a reason. -/
  | nothing
  /-- Neither a value nor an error nor a rejection. -/
  | undefined
  deriving DecidableEq

namespace Outcome

/-- The error of a request whose function is not known. -/
def invalidFunction : String := "Please select a valid evaluator function."

/-- The outcome of an evaluation. -/
def ofEvaluation (expression : String) : Except Expr.EvalError Float → Outcome
  | .ok x => ⟨expression, some x, none, false⟩
  | .error e => ⟨expression, none, some e.message, false⟩

/-- The answer to a request. -/
def handle (r : Request) : Outcome :=
  if r.function = Request.defaultFunction then
    ofEvaluation r.expression (Expr.evaluate r.expression)
  else ⟨r.expression, none, some invalidFunction, true⟩

def succeeded (o : Outcome) : Bool := o.error.isNone

/-- The value or the error, as it is shown. -/
def display (o : Outcome) : Display :=
  match o.rejected, o.error, o.result with
  | true, some e, _ => .text e
  | true, none, _ => .nothing
  | false, some e, _ => .text ("Error: " ++ e)
  | false, none, some x => .text (amount.write x)
  | false, none, none => .undefined

/-- One line of output, if there is something to show. -/
def summary? (o : Outcome) : Option String :=
  let line := fun shown =>
    o.expression ++ (if o.succeeded then " = " else " -> ") ++ shown
  match o.display with
  | .text s => some (line s)
  | .nothing => some (line "None")
  | .undefined => none

/-- An outcome from the members of an object; others than its four fields are ignored. -/
def ofMembers (members : List (String × Json.Value)) : Checked Outcome :=
  let expression := (required members "expression" text).map Outcome.mk
  let result := Checked.apply expression (withDefault members "result" none (optional double))
  let error := Checked.apply result (withDefault members "error" none (optional text))
  Checked.apply error (withDefault members "rejected" false flag)

def ofValue (v : Json.Value) : Checked Outcome := record ofMembers v

def ofText (s : String) : Checked Outcome := recordOfText ofMembers s

def members (o : Outcome) : List (String × Json.Value) := [
  ("expression", .string o.expression),
  ("result", .ofDouble? o.result),
  ("error", .ofText? o.error),
  ("rejected", .bool o.rejected)]

def toValue (o : Outcome) : Json.Value := .object o.members

end Outcome

end Reckoner
