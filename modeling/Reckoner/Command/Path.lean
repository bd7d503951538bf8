import Reckoner.Text.Quoted
import Reckoner.Text.Split

/-!
# Path — names of files, and the name of a results file

A path is a root and the names below it. Empty names and single dots are dropped when it is read; two
dots stay. The results of a file are written next to it, under its name with the dots of its suffixes
made underscores.
-/

namespace Reckoner.Command

/-- A path: nothing, one slash or two, and the names after that. -/
structure Path where
  root : List Char
  names : List (List Char)
  deriving DecidableEq, Repr, Inhabited

namespace Path

/-- The root of a text. Exactly two slashes are a root of their own. -/
def rootOf (cs : List Char) : List Char :=
  let slashes := (cs.takeWhile (· == '/')).length
  if slashes = 0 then [] else if slashes = 2 then ['/', '/'] else ['/']

/-- The path that a text spells. -/
def ofText (s : String) : Path where
  root := rootOf s.toList
  names := (Text.splitAt '/' s.toList).filter fun name => !name.isEmpty && name != ['.']

/-- The text of a path; that of no names and no root is a dot. -/
def text (p : Path) : String :=
  match p.root, p.names with
  | [], [] => "."
  | root, names => String.ofList (root ++ Text.join ['/'] names)

def name? (p : Path) : Option (List Char) := p.names.getLast?

/-- The suffixes of a name: after the dots in front, each dot begins one. A name that ends in a dot
has none. -/
def suffixes (name : List Char) : List (List Char) :=
  if name.getLast? = some '.' then []
  else ((Text.splitAt '.' (name.dropWhile (· == '.'))).drop 1).map ('.' :: ·)

/-- What a name has before its suffixes. -/
def stem (name : List Char) : List Char :=
  name.take (name.length - (suffixes name).flatten.length)

/-- The name for the results of a file of this name. -/
def resultsName (name : List Char) : List Char :=
  let ending := (suffixes name).flatten.map fun c => if c = '.' then '_' else c
  stem name ++ ending ++ "_results.txt".toList

/-- The path for the results of a file; a path without a name has none. -/
def results? (p : Path) : Option Path :=
  p.name?.map fun name => { p with names := p.names.dropLast ++ [resultsName name] }

/-- What is said of a path without a name. -/
def emptyNameMessage (p : Path) : String :=
  "PosixPath(" ++ Text.quoted p.text ++ ") has an empty name"

end Path

end Reckoner.Command
