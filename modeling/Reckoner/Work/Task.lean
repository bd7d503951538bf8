import Reckoner.Log.Entry
import Reckoner.Outcome

/-!
# Task — one request of a payload, for one worker

A task is a request with the number of its line. A worker handles it, sends the outcome with the line
number, and logs what it does.
-/

namespace Reckoner

open Record

/-- What a worker is given. Lines are counted from one. -/
structure Task where
  request : Request
  line : Nat
  deriving DecidableEq

namespace Task

/-- A task from the members of an object; others than its three fields are ignored. -/
def ofMembers (members : List (String × Json.Value)) : Checked Task :=
  Checked.apply ((Request.ofMembers members).map Task.mk)
    (required members "line_number" fun v => (integerWithin 1 none v).map Int.toNat)

def ofValue (v : Json.Value) : Checked Task := record ofMembers v

/-- The task for a request on a line. -/
def ofRequest (r : Request) (line : Json.Value) : Checked Task :=
  ofMembers [("expression", .string r.expression), ("function", .string r.function),
    ("line_number", line)]

def outcome (t : Task) : Outcome := Outcome.handle t.request

/-- The message that carries the outcome. -/
def message (t : Task) : Json.Value := .object (("line", .int t.line) :: t.outcome.members)

def startEntry (t : Task) : Log.Entry :=
  ⟨.info, "👷🏁 Worker started on line " ++ toString t.line ++ ": " ++ t.request.expression⟩

/-- The line about an evaluation that has a value: the text, its normal form and the value. -/
def evaluationLine? (expression : String) : Option Log.Entry :=
  match Expr.normalForm expression.toList, Expr.evaluate expression with
  | .ok normal, .ok x => some ⟨.debug, "🧮 " ++ Text.quoted expression ++ " normalized to "
      ++ Text.quoted (String.ofList normal) ++ " = " ++ Log.number.write x⟩
  | _, _ => none

/-- The lines about an evaluation; there is none if the function of the request is not known. -/
def evaluationEntries (t : Task) : List Log.Entry :=
  if t.outcome.rejected then [] else (evaluationLine? t.request.expression).toList

def endEntry (t : Task) : Log.Entry :=
  let o := t.outcome
  match o.error with
  | none => ⟨.info, "👷✅ Worker finished on line " ++ toString t.line ++ ": "
      ++ (o.result.map Log.number.write).getD "None"⟩
  | some e => ⟨.error, "👷❌ Worker failed on line " ++ toString t.line ++ ": " ++ e
      ++ "\nCould not evaluate arithmetic expression: " ++ Text.quoted t.request.expression⟩

/-- What a worker logs. One that cannot send its message logs no end. -/
def entries (t : Task) (canSend : Bool) : List Log.Entry :=
  t.startEntry :: (t.evaluationEntries ++ if canSend then [t.endEntry] else [])

end Task

end Reckoner
