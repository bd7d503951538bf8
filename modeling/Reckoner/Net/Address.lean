import Reckoner.Json.Reader
import Reckoner.Record.Fault
import Reckoner.Text.Split

/-!
# Address — where a server can be reached

Addresses of version 4 and 6 of the internet protocol, as text and as numbers. A text of version 4 is
four decimal numbers without zeros in front. A text of version 6 is eight groups of hexadecimal
digits, of which one run of zeros may be left out, the last two may be a version 4 address, and a zone
may follow. Written out, the first of the longest runs of at least two zero groups is left out.
-/

namespace Reckoner.Net

open Reckoner.Text

inductive Address where
  | v4 (number : Nat)
  | v6 (number : Nat) (zone : Option String)
  deriving DecidableEq, Repr, Inhabited

namespace Address

/-- The address of the machine itself. -/
def loopback : Address := .v4 0x7F000001

/-- The number of a version 4 address. -/
def octet? (cs : List Char) : Option Nat :=
  if cs.isEmpty || !cs.all Char.isDigit || 3 < cs.length then none
  else if cs.head? == some '0' && cs != ['0'] then none
  else
    let n := Number.ofDigits cs
    if n ≤ 255 then some n else none

/-- Digits of a number in a base, the most significant first. -/
def ofGroups (base : Nat) (groups : List Nat) : Nat := groups.foldl (fun n g => n * base + g) 0

/-- The number that a version 4 text spells. -/
def number4? (cs : List Char) : Option Nat :=
  let parts := splitAt '.' cs
  if parts.length = 4 then (parts.mapM octet?).map (ofGroups 256) else none

/-- A group of a version 6 address. -/
def group? (cs : List Char) : Option Nat :=
  if cs.isEmpty || 4 < cs.length then none
  else (cs.mapM Json.hexValue?).map (ofGroups 16)

/-- The groups of a version 6 text between its colons, `none` for a gap. A version 4 address at the
end is two groups. -/
def groups? (cs : List Char) : Option (List (Option Nat)) :=
  let group := fun part => if part.isEmpty then some none else (group? part).map some
  let parts := splitAt ':' cs
  let last := parts.getLast?.getD []
  if parts.length < 3 then none
  else if last.contains '.' then
    match parts.dropLast.mapM group, number4? last with
    | some before, some n => some (before ++ [some (n / 65536), some (n % 65536)])
    | _, _ => none
  else parts.mapM group

/-- The groups on one side of the run left out: none at the edge, and no further gaps. -/
def side? (groups : List (Option Nat)) : Option (List Nat) :=
  if groups = [none] then some [] else groups.mapM id

/-- Where groups are left out: the first gap that is not at an edge. -/
def gapIndex? (groups : List (Option Nat)) : Option Nat :=
  (List.range groups.length).find? fun i =>
    0 < i && i + 1 < groups.length && groups[i]? == some none

/-- The number that a version 6 text without zone spells. -/
def number6? (cs : List Char) : Option Nat :=
  match groups? cs with
  | none => none
  | some groups =>
    match gapIndex? groups with
    | none => if groups.length = 8 then (groups.mapM id).map (ofGroups 65536) else none
    | some i =>
      match side? (groups.take i), side? (groups.drop (i + 1)) with
      | some before, some after =>
        let kept := before.length + after.length
        if kept < 8 then some (ofGroups 65536 (before ++ List.replicate (8 - kept) 0 ++ after))
        else none
      | _, _ => none

/-- A version 6 text with or without zone. -/
def ofText6? (cs : List Char) : Option Address :=
  match splitAt '%' cs with
  | [plain] => (number6? plain).map (.v6 · none)
  | [plain, zone] =>
    if zone.isEmpty || zone.contains '/' then none
    else (number6? plain).map (.v6 · (some (String.ofList zone)))
  | _ => none

def ofText? (s : String) : Option Address :=
  match number4? s.toList with
  | some n => some (.v4 n)
  | none => ofText6? s.toList

/-- The address with a number; small numbers are of version 4. -/
def ofInt? (n : Int) : Option Address :=
  if n < 0 then none
  else if n < 0x100000000 then some (.v4 n.toNat)
  else if n < 0x100000000000000000000000000000000 then some (.v6 n.toNat none)
  else none

/-- The groups of a number, the most significant first. -/
def toGroups (base count number : Nat) : List Nat :=
  (List.range count).reverse.map fun i => number / base.pow i % base

/-- The start and the length of the first of the longest runs of zeros. -/
def longestZeros (groups : List Nat) : Nat × Nat :=
  (List.range groups.length).foldl
    (fun best i =>
      let length := ((groups.drop i).takeWhile (· == 0)).length
      if best.2 < length then (i, length) else best)
    (0, 0)

/-- Groups in hexadecimal with colons between them. -/
def joinGroups (groups : List Nat) : List Char := join [':'] (groups.map (Nat.toDigits 16))

/-- The shortest text of a version 6 number. -/
def text6 (number : Nat) : List Char :=
  let groups := toGroups 65536 8 number
  let (start, length) := longestZeros groups
  if 1 < length then
    joinGroups (groups.take start) ++ ':' :: ':' :: joinGroups (groups.drop (start + length))
  else joinGroups groups

def text : Address → String
  | .v4 number => String.ofList (join ['.'] ((toGroups 256 4 number).map (Nat.toDigits 10)))
  | .v6 number none => String.ofList (text6 number)
  | .v6 number (some zone) => String.ofList (text6 number ++ '%' :: zone.toList)

/-- The address that a field holds: a text or a number. -/
def ofValue (v : Json.Value) : Except Record.Cause Address :=
  let found := match v with
    | .string s => ofText? s
    | .int n => ofInt? n
    | .bool b => ofInt? b.toInt
    | _ => none
  match found with
  | some address => .ok address
  | none => .error .notAddress

end Address

end Reckoner.Net
