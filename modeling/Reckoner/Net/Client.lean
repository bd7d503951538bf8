import Reckoner.Net.Server

/-!
# Client — a file of expressions, sent and answered

A client makes a request of each line of a file that is not blank, sends the requests as lines of
JSON, and reads one outcome from each line of the reply. It is strict where the server is not: bytes
that are malformed, a line that is no outcome, or a wrong number of outcomes fail the whole exchange.
-/

namespace Reckoner.Net

open Record

namespace Client

/-- Why an exchange fails. -/
inductive Failure where
  | undecodable
  /-- No server can be reached. -/
  | unconnected
  /-- A request or an outcome with faults. -/
  | invalid (faults : List Fault)
  | miscounted (expected received : Nat)
  /-- An outcome with nothing to show. -/
  | unprintable
  deriving DecidableEq, Repr, Inhabited

def miscountedMessage (expected received : Nat) : String :=
  "🔌❌ Expected " ++ toString expected ++ " result(s), received " ++ toString received

/-- What a checked value is worth in an exchange. -/
def check {α : Type} : Checked α → Except Failure α
  | .ok a => .ok a
  | .error faults => .error (.invalid faults)

/-- The requests of a file: one for each line that is not blank, without the blanks around it. -/
def requestsOfFile (file : List UInt8) (function : Json.Value) : Except Failure (List Request) :=
  match Text.Utf8.decode? file with
  | none => .error .undecodable
  | some text =>
    check ((Text.contentLines (Text.plainBreaks text)).mapM fun line =>
      Request.bare (String.ofList line) function)

/-- Requests as lines of JSON. -/
def encode (requests : List Request) : List Char :=
  requests.flatMap fun r => Json.write r.toValue ++ ['\n']

/-- What happens when a client connects and sends. -/
def events (e : Endpoint) : List Event :=
  [.connected e.host.text e.port, .finishedSending]

/-- The outcomes in a reply, one from each line that is not empty; there are to be `expected`. -/
def outcomesOfReply (expected : Nat) (reply : List UInt8) : Except Failure (List Outcome) :=
  match Text.Utf8.decode? reply with
  | none => .error .undecodable
  | some text =>
    -- A line of blanks is not skipped here: it is no outcome.
    let lines := (Text.lines text).filter (!·.isEmpty)
    match lines.mapM fun line => Outcome.ofText (String.ofList line) with
    | .error faults => .error (.invalid faults)
    | .ok outcomes =>
      if outcomes.length = expected then .ok outcomes
      else .error (.miscounted expected outcomes.length)

/-- The summaries of the outcomes in front of the first one with nothing to show. -/
def leadingSummaries : List Outcome → List String
  | [] => []
  | o :: outcomes =>
    match o.summary? with
    | some line => line :: leadingSummaries outcomes
    | none => []

/-- The text of the file that summaries are written to. -/
def report (summaries : List String) : String :=
  summaries.foldl (fun text line => text ++ line ++ "\n") ""

/-- What an exchange has brought about: the session that the server had, if it came to one, and the
answer that the client takes from it. -/
structure Exchange where
  session : Option Server.Session
  answer : Except Failure (List Outcome)

/-- Sends requests to a server and reads its reply. Where no server listens there is none to be
reached, and from one that fails later there is no reply. -/
def send (server : Server) (network : Network) (processors : Nat) (plans : List Plan)
    (requests : List Request) : Exchange :=
  if network.connects socketFamily server.endpoint then
    match server.serve network processors plans true [Text.Utf8.encode (encode requests)] with
    | .error .unbound => ⟨none, .error .unconnected⟩
    | .error (.invalid _) => ⟨none, outcomesOfReply requests.length []⟩
    | .ok session =>
      ⟨some session, outcomesOfReply requests.length (Text.Utf8.encode session.reply)⟩
  else ⟨none, .error .unconnected⟩

/-- Sends the requests of a file to a server and reads its reply. Without requests that can be sent
there is no session. -/
def exchangeFile (server : Server) (network : Network) (processors : Nat) (plans : List Plan)
    (file : List UInt8) (function : Json.Value) : Exchange :=
  match requestsOfFile file function with
  | .error failure => ⟨none, .error failure⟩
  | .ok requests => send server network processors plans requests

end Client

end Reckoner.Net
