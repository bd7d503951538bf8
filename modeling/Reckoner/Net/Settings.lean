import Reckoner.Json.Plain
import Reckoner.Net.Server

/-!
# Settings — changing a server or a client after the fact

A server takes any value for its fields once it is built; a client takes none. A name that is no field
is refused, unless it begins with an underscore: such names are free for anyone's use.
-/

namespace Reckoner.Net

open Record

/-- The fields of a server as they stand. -/
structure Settings where
  host : Json.Value
  port : Json.Value
  function : Json.Value
  deriving Inhabited

/-- Why a setting is refused. -/
inductive Refusal where
  | unknownField (name : String)
  | frozen (name : String)
  deriving DecidableEq, Repr, Inhabited

def unknownFieldMessage (name : String) : String :=
  "\"CalculatorServer\" object has no field \"" ++ name ++ "\""

/-- Whether a name is free for anyone's use. -/
def isPrivateName (name : String) : Bool := name.toList.head? == some '_'

namespace Settings

/-- The settings of a server as it is built. -/
def ofServer (s : Server) : Settings where
  host := .string s.endpoint.host.text
  port := .int s.endpoint.port
  function := .string s.function

def hostText (s : Settings) : String := Json.plain s.host

/-- The settings with one changed. -/
def set (s : Settings) (name : String) (v : Json.Value) : Except Refusal Settings :=
  if name = "host" then .ok { s with host := v }
  else if name = "port" then .ok { s with port := v }
  else if name = "function" then .ok { s with function := v }
  else if isPrivateName name then .ok s
  else .error (.unknownField name)

/-- The settings after an attempt to change one, which may be refused. -/
def afterChange (s : Settings) (change : String × Json.Value) : Settings :=
  (s.set change.1 change.2).toOption.getD s

def afterChanges (s : Settings) (changes : List (String × Json.Value)) : Settings :=
  changes.foldl afterChange s

end Settings

/-- What becomes of an attempt to change a client. -/
def Endpoint.set (e : Endpoint) (name : String) : Except Refusal Endpoint :=
  if isPrivateName name then .ok e else .error (.frozen name)

namespace Endpoint

/-- A client after an attempt to change it, which may be refused. -/
def afterChange (e : Endpoint) (name : String) : Endpoint := (e.set name).toOption.getD e

def afterChanges (e : Endpoint) (names : List String) : Endpoint := names.foldl afterChange e

end Endpoint

/-- The fault of an attempt to change what is fixed. -/
def frozenFault (name : String) : Fault := ⟨some name, .frozen⟩

end Reckoner.Net
