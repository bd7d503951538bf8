import Reckoner.Command.Disk
import Reckoner.Net.Endpoint
import Reckoner.Request

/-!
# Arguments — the command line

One file, and three options with a value each: `--host`, `--port` and `--function`; `--help` and `-h`
end the program at once. A long option may be shortened as far as it stays unambiguous, and may have
its value after an equals sign. All arguments are classified before any of them takes effect, so an
ambiguous option is refused before anything else. After `--` there are no options.
-/

namespace Reckoner.Command

open Reckoner.Record

inductive Choice where
  | help
  | host
  | port
  | function
  deriving DecidableEq, Repr, Inhabited

def spellings : List (List Char × Choice) := [
  ("-h".toList, .help), ("--help".toList, .help), ("--host".toList, .host),
  ("--port".toList, .port), ("--function".toList, .function)]

inductive Argument where
  /-- The file, or the value of an option. -/
  | plain (text : List Char)
  /-- An option, as it is spelled in full, and the text that is attached to it. -/
  | option (spelling : List Char) (choice : Choice) (attached : Option (List Char))
  | unknown
  /-- A shortened option that may be several. -/
  | ambiguous
  deriving DecidableEq, Repr, Inhabited

namespace Argument

/-- The text before the first equals sign, and the text after it if there is one. -/
def splitValue (cs : List Char) : List Char × Option (List Char) :=
  match cs.dropWhile (· != '=') with
  | _ :: value => (cs.takeWhile (· != '='), some value)
  | [] => (cs, none)

/-- Whether a character is a decimal digit of any script. -/
def isAnyDigit (c : Char) : Bool := (Text.decimalValue? c).isSome

/-- Whether a text is a negative number, whole or with digits after a point; a line feed may end
it. -/
def isNegativeNumber (cs : List Char) : Bool :=
  match if cs.getLast? = some '\n' then cs.dropLast else cs with
  | '-' :: digits =>
    (!digits.isEmpty && digits.all isAnyDigit)
      || match digits.dropWhile isAnyDigit with
        | '.' :: fraction => !fraction.isEmpty && fraction.all isAnyDigit
        | _ => false
  | _ => false

/-- The options that a shortened or joined spelling may mean. -/
def candidates (cs : List Char) : List Argument :=
  match cs with
  | '-' :: '-' :: _ =>
    let (start, value) := splitValue cs
    (spellings.filter fun s => start.isPrefixOf s.1).map fun s => option s.1 s.2 value
  | _ =>
    spellings.filterMap fun s =>
      if s.1 = cs.take 2 then some (option s.1 s.2 (some (cs.drop 2)))
      else if cs.isPrefixOf s.1 then some (option s.1 s.2 none)
      else none

/-- What an argument is, other than `--`. -/
def classify (cs : List Char) : Argument :=
  match cs with
  | '-' :: _ :: _ =>
    match spellings.lookup cs with
    | some choice => option cs choice none
    | none =>
      let (name, value) := splitValue cs
      match if value.isSome then spellings.lookup name else none with
      | some choice => option name choice value
      | none =>
        match candidates cs with
        | [found] => found
        | _ :: _ :: _ => ambiguous
        | [] => if isNegativeNumber cs || cs.contains ' ' then plain cs else unknown
  | _ => plain cs

end Argument

/-- The values that have been taken from the arguments. The value of an option that was attached as
`--` is empty. -/
structure Taken where
  file : Option (List Char)
  host : Json.Value
  port : Json.Value
  function : Json.Value
  /-- Whether there was an argument that nothing takes. -/
  surplus : Bool
  deriving Inhabited

/-- What the command line comes to. -/
inductive Exit where
  | help
  | refused
  deriving DecidableEq, Repr, Inhabited

/-- The code that the program ends with. -/
def Exit.code : Exit → Nat
  | .help => 0
  | .refused => 2

namespace Taken

def initial : Taken where
  file := none
  host := .string Net.Address.loopback.text
  port := .int Net.Endpoint.defaultPort
  function := .string Request.defaultFunction
  surplus := false

/-- An option takes its value. -/
def give (t : Taken) (choice : Choice) (value : List Char) : Except Exit Taken :=
  let isEmpty := value = ['-', '-']
  let text := if isEmpty then Json.Value.array [] else .string (String.ofList value)
  match choice with
  | .help => .error .help
  | .host => .ok { t with host := text }
  | .function => .ok { t with function := text }
  | .port =>
    if isEmpty then .ok { t with port := text }
    else match Number.intOfAnyScript? value with
      | some n => .ok { t with port := .int n }
      | none => .error .refused

/-- A file is taken; all but the first are surplus. -/
def takeFile (t : Taken) (text : List Char) : Taken :=
  match t.file with
  | none => { t with file := some text }
  | some _ => { t with surplus := true }

/-- What comes of an option for help with text attached: more of the same letter is help as well. -/
def helpWith (spelling attached : List Char) : Exit :=
  if spelling = "-h".toList ∧ !attached.isEmpty ∧ attached.all (· == 'h') then .help else .refused

/-- Takes the arguments before `--` one after the other. Also tells whether the last one was taken as
the file. -/
def takeAll (t : Taken) (justTookFile : Bool) : List Argument → Except Exit (Taken × Bool)
  | [] => .ok (t, justTookFile)
  | .plain text :: rest => takeAll (t.takeFile text) t.file.isNone rest
  | .unknown :: rest => takeAll { t with surplus := true } false rest
  | .ambiguous :: _ => .error .refused
  | .option spelling .help (some attached) :: _ => .error (helpWith spelling attached)
  | .option _ choice (some attached) :: rest =>
    match t.give choice attached with
    | .ok t => takeAll t false rest
    | .error e => .error e
  | .option _ .help none :: _ => .error .help
  | .option _ choice none :: .plain value :: rest =>
    match t.give choice value with
    | .ok t => takeAll t false rest
    | .error e => .error e
  | .option _ _ none :: _ => .error .refused

/-- Takes what follows `--`: the file, if there was none yet. The mark itself is surplus where no file
is next to it. -/
def takeRest (t : Taken) (justTookFile : Bool) (rest : List (List Char)) : Taken :=
  match t.file, rest with
  | none, file :: more => { t with file := some file, surplus := t.surplus || !more.isEmpty }
  | none, [] => { t with surplus := true }
  | some _, rest => { t with surplus := t.surplus || !justTookFile || !rest.isEmpty }

end Taken

/-- What a run is asked for. -/
structure Arguments where
  file : Path
  endpoint : Net.Endpoint
  function : String
  deriving DecidableEq, Repr, Inhabited

namespace Arguments

/-- The values of the arguments, or why the program ends. -/
def take (argv : List String) : Except Exit Taken :=
  let texts := argv.map String.toList
  let before := (texts.takeWhile (· != ['-', '-'])).map Argument.classify
  if before.contains .ambiguous then .error .refused
  else
    match Taken.initial.takeAll false before with
    | .error e => .error e
    | .ok (t, justTookFile) =>
      match texts.dropWhile (· != ['-', '-']) with
      | [] => .ok t
      | _ :: rest => .ok (t.takeRest justTookFile rest)

/-- The arguments, with a file that exists and the rest in range. -/
def ofTaken (d : Disk) (t : Taken) : Except Exit Arguments :=
  match t.surplus, t.file with
  | true, _ => .error .refused
  | false, none => .error .refused
  | false, some file =>
    let path := Path.ofText (String.ofList file)
    let endpoint := Net.Endpoint.ofMembers [("host", t.host), ("port", t.port)]
    match d.readPath? path, endpoint, text t.function with
    | some _, .ok endpoint, .ok function => .ok ⟨path, endpoint, function⟩
    | _, _, _ => .error .refused

/-- The arguments of a command line. -/
def ofList (d : Disk) (argv : List String) : Except Exit Arguments :=
  match take argv with
  | .ok t => ofTaken d t
  | .error e => .error e

end Arguments

end Reckoner.Command
