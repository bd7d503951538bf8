import Reckoner.Json.Value
import Reckoner.Text.Quoted

/-!
# Writer — JSON data as text

No blanks. Of a string only the quote, the backslash and the control characters below U+0020 are
escaped, so that every other character, and with it some that end a line, stands as it is.
-/

namespace Reckoner.Json

def escape (c : Char) : List Char :=
  if c = '"' then ['\\', '"']
  else if c = '\\' then ['\\', '\\']
  else if c = '\x08' then ['\\', 'b']
  else if c = '\t' then ['\\', 't']
  else if c = '\n' then ['\\', 'n']
  else if c = '\x0c' then ['\\', 'f']
  else if c = '\r' then ['\\', 'r']
  else if c.toNat < 0x20 then '\\' :: 'u' :: Text.Quoted.hex 4 c.toNat
  else [c]

/-- The characters of a string between its quotes, and the closing quote. -/
def writeString (s : String) : List Char := '"' :: (s.toList.flatMap escape ++ ['"'])

/-- A whole number in decimal digits. -/
def writeInt (n : Int) : List Char :=
  (if n < 0 then ['-'] else []) ++ Nat.toDigits 10 n.natAbs

mutual

/-- The text of a value. -/
def write : Value → List Char
  | .null => "null".toList
  | .bool true => "true".toList
  | .bool false => "false".toList
  | .int n => writeInt n
  | .float x => number.ofBinary64 (Number.Binary64.ofFloat x)
  | .string s => writeString s
  | .array elements => '[' :: (writeElements elements ++ [']'])
  | .object members => '{' :: (writeMembers members ++ ['}'])

def writeElements : List Value → List Char
  | [] => []
  | [v] => write v
  | v :: rest => write v ++ ',' :: writeElements rest

def writeMembers : List (String × Value) → List Char
  | [] => []
  | [(name, v)] => writeString name ++ ':' :: write v
  | (name, v) :: rest => writeString name ++ ':' :: (write v ++ ',' :: writeMembers rest)

end

def render (v : Value) : String := String.ofList (write v)

end Reckoner.Json
