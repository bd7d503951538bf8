import Reckoner.Record.Fields
import Reckoner.Json.Writer

/-!
# Request — an expression and the function to evaluate it with
-/

namespace Reckoner

open Record

/-- What one asks for. The expression is not blank. -/
structure Request where
  expression : String
  function : String
  notBlank : Text.isBlankText expression = false
  deriving DecidableEq

namespace Request

/-- The function that is meant when none is named. -/
def defaultFunction : String := "evaluate_expression"

/-- A request from the members of an object; others than its two fields are ignored. -/
def ofMembers (members : List (String × Json.Value)) : Checked Request :=
  let expression := (required members "expression" Record.expression).map fun e function =>
    Request.mk e.1 function e.2
  Checked.apply expression (withDefault members "function" defaultFunction text)

def ofValue (v : Json.Value) : Checked Request := record ofMembers v

def ofText (s : String) : Checked Request := recordOfText ofMembers s

/-- A request for an expression as it stands. -/
def bare (expression : String) (function : Json.Value) : Checked Request :=
  ofMembers [("expression", .string expression), ("function", function)]

def toValue (r : Request) : Json.Value :=
  .object [("expression", .string r.expression), ("function", .string r.function)]

end Request

end Reckoner
