import Reckoner.Net.Network
import Reckoner.Text.Lines
import Reckoner.Text.Utf8
import Reckoner.Work.Pool

/-!
# Server — one connection, from bytes to bytes

A server reads all that the client sends, takes each line that is not blank as a request, has a pool
handle them, and answers with one line of JSON for each, in the order of the requests. A line is a
request in JSON or, if it is not one, an expression for the server's own function.
-/

namespace Reckoner.Net

open Record

/-- Where a server listens, and the function for lines that name none. -/
structure Server where
  endpoint : Endpoint
  function : String
  deriving DecidableEq, Repr, Inhabited

namespace Server

/-- A server from the members of an object; others than its three fields are ignored. -/
def ofMembers (members : List (String × Json.Value)) : Checked Server :=
  Checked.apply ((Endpoint.ofMembers members).map Server.mk)
    (withDefault members "function" Request.defaultFunction text)

def ofValue (v : Json.Value) : Checked Server := record ofMembers v

def request (s : Server) (line : String) : Checked Request :=
  match Request.ofText line with
  | .ok r => .ok r
  | .error _ => Request.bare line (.string s.function)

/-- The requests of the lines that are not blank, without the blanks around them. -/
def requestsOfText (s : Server) (text : List Char) : Checked (List Request) :=
  (Text.contentLines text).mapM fun line => s.request (String.ofList line)

/-- The chunks up to the first empty one, which ends the sending. -/
def received (chunks : List (List UInt8)) : List (List UInt8) := chunks.takeWhile (!·.isEmpty)

/-- How many chunks are left after the one that ends the sending. -/
def unread (chunks : List (List UInt8)) : Nat :=
  ((chunks.dropWhile (!·.isEmpty)).drop 1).length

/-- The requests in what a client sends. Malformed bytes are replaced, so their line fails later. -/
def receive (s : Server) (chunks : List (List UInt8)) : Checked (List Request) :=
  s.requestsOfText (Text.Utf8.decodeLossy (received chunks).flatten)

/-- Outcomes as lines of JSON. -/
def encode (outcomes : List Outcome) : List Char :=
  outcomes.flatMap fun o => Json.write o.toValue ++ ['\n']

/-- What a connection has brought about. -/
structure Session where
  reply : List Char
  events : List Event
  entries : List Log.Entry

/-- The line about the start. -/
def startEntry (s : Server) : Log.Entry :=
  ⟨.info, "🖥️ Starting server on " ++ s.endpoint.host.text ++ ":" ++ toString s.endpoint.port⟩

/-- The line about the address being taken. -/
def listenEntry : Log.Entry := ⟨.info, "🖥️ Server listening"⟩

/-- The line about the requests. -/
def receivedEntry (count : Nat) : Log.Entry :=
  ⟨.info, "📥 Received " ++ toString count ++ " request(s)"⟩

/-- The line about the reply, which fails if the client has gone. -/
def replyEntry (connected : Bool) : Log.Entry :=
  if connected then ⟨.info, "✉️ Results sent to client"⟩
  else ⟨.error, "🔌❌ Client disconnected before receiving results: Broken pipe"⟩

/-- Why a server does not come to the end of a connection. -/
inductive Failure where
  /-- The system does not let its socket be bound to the endpoint. -/
  | unbound
  | invalid (faults : List Fault)
  deriving DecidableEq, Repr, Inhabited

/-- One connection: the client sends `chunks`, and is still there for the reply or not. -/
def serve (s : Server) (network : Network) (processors : Nat) (plans : List Plan)
    (connected : Bool) (chunks : List (List UInt8)) : Except Failure Session :=
  if network.binds socketFamily s.endpoint then
    match s.receive chunks with
    | .error faults => .error (.invalid faults)
    | .ok requests =>
      match Pool.process processors plans requests with
      | .error faults => .error (.invalid faults)
      | .ok pool => .ok {
          reply := if connected then encode pool.outcomes else []
          events := .bound s.endpoint.host.text s.endpoint.port :: .listening :: pool.events
          entries := s.startEntry :: listenEntry :: receivedEntry requests.length ::
            (pool.entries ++ [replyEntry connected]) }
  else .error .unbound

end Server

end Reckoner.Net
