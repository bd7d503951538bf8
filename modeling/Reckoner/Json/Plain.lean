import Reckoner.Json.Value
import Reckoner.Text.Quoted

/-!
# Plain — a value as it is shown in a setting

A string shows as it is; inside an array or an object it is quoted. Of members with the same name the
last one shows, in the place of the first.
-/

namespace Reckoner.Json

/-- Members with each name once. -/
def mergeMembers {α : Type} (members : List (String × α)) : List (String × α) :=
  members.foldl
    (fun kept m =>
      if kept.any (·.1 == m.1) then kept.map fun k => if k.1 == m.1 then m else k
      else kept ++ [m])
    []

mutual

/-- A value inside another one. -/
def inner : Value → String
  | .null => "None"
  | .bool true => "True"
  | .bool false => "False"
  | .int n => toString n
  | .float x => Number.Layout.usual.write x
  | .string s => Text.quoted s
  | .array elements => "[" ++ ", ".intercalate (innerElements elements) ++ "]"
  | .object members =>
    let shown := (mergeMembers (innerMembers members)).map fun m =>
      Text.quoted m.1 ++ ": " ++ m.2
    "\x7b" ++ ", ".intercalate shown ++ "\x7d"

def innerElements : List Value → List String
  | [] => []
  | v :: rest => inner v :: innerElements rest

def innerMembers : List (String × Value) → List (String × String)
  | [] => []
  | (name, v) :: rest => (name, inner v) :: innerMembers rest

end

/-- A value on its own. -/
def plain : Value → String
  | .string s => s
  | v => inner v

end Reckoner.Json
