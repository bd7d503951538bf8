import Reckoner.Net.Endpoint

/-!
# Network — what sockets can do

Whether a socket can be bound to an endpoint, and whether one can be connected to an endpoint where a
server listens, is for the system to say. That depends on the family of the socket as well.
-/

namespace Reckoner.Net

/-- The version of the internet protocol that a socket or an address belongs to. -/
inductive Family where
  | version4
  | version6
  deriving DecidableEq, Repr, Inhabited

def Address.family : Address → Family
  | .v4 _ => .version4
  | .v6 _ _ => .version6

/-- What a system allows sockets of a family. -/
structure Network where
  binds : Family → Endpoint → Bool
  connects : Family → Endpoint → Bool

namespace Network

/-- A socket can be bound and connected to the endpoints of its own family, and to no others. -/
def ofOwnFamily : Network where
  binds family e := e.host.family == family
  connects family e := e.host.family == family

end Network

/-- The family of the sockets of server and client, whatever the address. -/
def socketFamily : Family := .version4

/-- Whether a server can listen on an endpoint and a client reach it there. -/
def Network.joins (n : Network) (e : Endpoint) : Bool :=
  n.binds socketFamily e && n.connects socketFamily e

end Reckoner.Net
