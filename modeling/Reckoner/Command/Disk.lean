import Reckoner.Command.Path

/-!
# Disk — files and directories

A place is the list of names that leads to it from the root. Paths lead to places from there or from
where a program runs, by way of directories that exist; two dots lead back, and at the root nowhere
else.
-/

namespace Reckoner.Command

/-- The names that lead from the root to a file or a directory. -/
abbrev Place : Type := List (List Char)

/-- Files with their bytes, directories, and the one where a program runs. Directories that contain one
of these exist as well. -/
structure Disk where
  files : List (Place × List UInt8)
  directories : List Place
  start : Place
  deriving Inhabited

namespace Disk

def read? (d : Disk) (place : Place) : Option (List UInt8) := d.files.lookup place

/-- Whether one place is another one or leads to it. -/
def leadsTo (place other : Place) : Bool := other.take place.length == place

def isDirectory (d : Disk) (place : Place) : Bool :=
  leadsTo place d.start || d.directories.any (leadsTo place)
    || d.files.any fun file => file.1 != place && leadsTo place file.1

/-- Where a name leads from a directory, given by its names, last one first. The root is its own
parent. -/
def step (back : Place) (name : List Char) : Place :=
  if name = ['.', '.'] then back.drop 1 else name :: back

/-- The place that names lead to from a directory on, given by its names, last one first. All but
the last of the names must lead to a directory. -/
def follow (d : Disk) (back : Place) : Place → Option Place
  | [] => some back.reverse
  | name :: rest => if d.isDirectory back.reverse then d.follow (step back name) rest else none

/-- Where a path begins, if programs run at this place: there, or at the root. -/
def origin (start : Place) (p : Path) : Place := if p.root.isEmpty then start else []

/-- The place that a path leads to. -/
def locate? (d : Disk) (p : Path) : Option Place := d.follow (origin d.start p).reverse p.names

def readPath? (d : Disk) (p : Path) : Option (List UInt8) :=
  match d.locate? p with
  | some place => d.read? place
  | none => none

def write (d : Disk) (place : Place) (bytes : List UInt8) : Disk :=
  { d with files := d.files.filter (·.1 != place) ++ [(place, bytes)] }

/-- The disk of which nothing more is known than where a program runs and that a path leads to a file
from there. -/
def around (start : Place) (p : Path) (bytes : List UInt8) : Disk :=
  let (back, passed) := p.names.foldl
    (fun (back, passed) name => (step back name, back.reverse :: passed))
    ((origin start p).reverse, [])
  ⟨[(back.reverse, bytes)], passed, start⟩

/-- How many bytes a name may have. -/
def maxNameSize : Nat := 255

/-- Why a file cannot be written. -/
inductive WriteError where
  | isDirectory
  | other
  deriving DecidableEq, Repr, Inhabited

/-- The place where a path lets a file be written. -/
def writable (d : Disk) (p : Path) : Except WriteError Place :=
  match d.locate? p with
  | none => .error .other
  | some place =>
    if d.isDirectory place then .error .isDirectory
    else if p.names.any fun name => maxNameSize < (String.ofList name).utf8ByteSize then
      .error .other
    else .ok place

end Disk

end Reckoner.Command
