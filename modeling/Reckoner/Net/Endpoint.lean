import Reckoner.Net.Address
import Reckoner.Record.Fields

/-!
# Endpoint — address and port
-/

namespace Reckoner.Net

open Record

/-- Where to connect to. -/
structure Endpoint where
  host : Address
  port : Nat
  deriving DecidableEq, Repr, Inhabited

namespace Endpoint

def defaultPort : Nat := 9000

/-- A port: 1 to 65535. -/
def portOfValue (v : Json.Value) : Except Cause Nat := (integerWithin 1 (some 65535) v).map Int.toNat

/-- Host and port among the members of an object. -/
def ofMembers (members : List (String × Json.Value)) : Checked Endpoint :=
  let host := (withDefault members "host" Address.loopback Address.ofValue).map Endpoint.mk
  Checked.apply host (withDefault members "port" defaultPort portOfValue)

def ofValue (v : Json.Value) : Checked Endpoint := record ofMembers v

end Endpoint

end Reckoner.Net
