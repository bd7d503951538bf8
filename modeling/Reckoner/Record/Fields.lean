import Reckoner.Record.Fault
import Reckoner.Json.Reader

/-!
# Fields — the fields of a record, out of JSON data

What a field of each type accepts. Text is text only; numbers and flags may be written as text; a
whole number may come as a double without fraction; `true` and `false` count as one and zero.
-/

namespace Reckoner.Record

open Reckoner.Json Reckoner.Text

def text : Value → Except Cause String
  | .string s => .ok s
  | _ => .error .notText

def expression (v : Value) : Except Cause { s : String // isBlankText s = false } :=
  match text v with
  | .error cause => .error cause
  | .ok s => if h : isBlankText s = false then .ok ⟨s, h⟩ else .error .blankExpression

/-- The double that a text spells. White space may stand around it, unless it has underscores. -/
def doubleOfText (cs : List Char) : Except Cause Float :=
  let spelled :=
    if cs.contains '_' then (Number.dropUnderscores? cs).bind Number.float?
    else Number.float? (trimBy isWhiteSpace cs)
  match spelled with
  | some x => .ok x
  | none => .error .unreadableNumber

/-- A double. A whole number that no double comes near is none. -/
def double : Value → Except Cause Float
  | .float x => .ok x
  | .int n =>
    if Value.exceedsDoubles n then .error .notNumber else .ok (Number.Binary64.ofInt n)
  | .bool b => .ok (Number.Binary64.ofInt b.toInt)
  | .string s => doubleOfText s.toList
  | _ => .error .notNumber

/-- A value, or null. -/
def optional {α : Type} (read : Value → Except Cause α) : Value → Except Cause (Option α)
  | .null => .ok none
  | v => (read v).map some

/-- The whole numbers of 64 bits. -/
def fitsWord (n : Int) : Bool := -0x8000000000000000 ≤ n && n < 0x8000000000000000

/-- The whole number that a double without fraction is; the least one of 64 bits is out of range. -/
def integerOfDouble (x : Float) : Except Cause Int :=
  let meaning := Number.Binary64.ofFloat x
  if meaning.isFinite then
    match meaning.toInt? with
    | none => .error .fractional
    | some n => if fitsWord n && n != -0x8000000000000000 then .ok n else .error .integerTooLong
  else .error .notFinite

/-- Digits without the zeros in front; one stays if nothing or a point follows. -/
def stripZeros? (cs : List Char) : Option (List Char) :=
  match cs with
  | '0' :: _ =>
    match cs.dropWhile (· == '0') with
    | [] => some ['0']
    | '.' :: rest => some ('0' :: '.' :: rest)
    | c :: rest => if c.isDigit then some (c :: rest) else none
  | c :: _ => if c.isDigit then some cs else none
  | [] => none

/-- A text without a point and the zeros after it, if it ends in these. A point with nothing after
it stays. -/
def stripFraction (cs : List Char) : List Char :=
  match cs.dropWhile (· != '.') with
  | _ :: '0' :: zeros => if zeros.all (· == '0') then cs.takeWhile (· != '.') else cs
  | _ => cs

/-- The whole number that a minus, if there is one, and digits spell. No zero stands in front of
other digits. Too many digits are a fault of their own, whatever follows them; the minus counts as
one of them. -/
def integerOfDigits (cs : List Char) : Except Cause Int :=
  let negative := cs.head? == some '-'
  let unsigned := if negative then cs.drop 1 else cs
  let digits := unsigned.takeWhile Char.isDigit
  if digits.isEmpty || (1 < digits.length && digits.head? == some '0') then
    .error .unreadableInteger
  else if maxDigits < digits.length + negative.toNat then .error .integerTooLong
  else if digits.length < unsigned.length then .error .unreadableInteger
  else
    let n : Int := Number.ofDigits digits
    .ok (if negative then -n else n)

/-- A text made ready to be read as a whole number: without the white space around it, without a
plus, without the zeros in front, without a point and zeros at the end, and without underscores. A
minus stays. -/
def tidyInteger? (cs : List Char) : Option (List Char) :=
  let (negative, unsigned) := Number.splitSign (trimBy isWhiteSpace cs)
  (stripZeros? unsigned).map fun cs =>
    let whole := stripFraction cs
    let digits := (Number.dropUnderscores? whole).getD whole
    if negative then '-' :: digits else digits

/-- The whole number that a text spells, as it stands or else made ready. -/
def integerOfText (cs : List Char) : Except Cause Int :=
  match integerOfDigits cs with
  | .error .unreadableInteger =>
    match tidyInteger? cs with
    | some tidy => integerOfDigits tidy
    | none => .error .unreadableInteger
  | found => found

example : integerOfText " +007.00 ".toList = .ok 7 := by rfl

example : integerOfText "-07".toList = .ok (-7) := by rfl

example : integerOfText "80.".toList = .error .unreadableInteger := by rfl

example : integerOfText "-_5".toList = .error .unreadableInteger := by rfl

def integer : Value → Except Cause Int
  | .int n => .ok n
  | .bool b => .ok b.toInt
  | .float x => integerOfDouble x
  | .string s => integerOfText s.toList
  | _ => .error .notInteger

/-- A whole number with a lower and perhaps an upper bound. -/
def integerWithin (least : Int) (greatest : Option Int) (v : Value) : Except Cause Int :=
  match integer v with
  | .error cause => .error cause
  | .ok n =>
    if n < least then .error .tooSmall
    else if greatest.any (· < n) then .error .tooLarge
    else .ok n

/-- The words for true and false, in lower case. -/
def flagWords : List (String × Bool) := [
  ("0", false), ("f", false), ("n", false), ("no", false), ("off", false), ("false", false),
  ("1", true), ("t", true), ("y", true), ("yes", true), ("on", true), ("true", true)]

/-- The flag that a whole number is. -/
def flagOfInteger (n : Int) : Except Cause Bool :=
  if n = 0 then .ok false else if n = 1 then .ok true else .error .unreadableFlag

/-- A flag: one of its words in any case, or a number that is zero or one. -/
def flag : Value → Except Cause Bool
  | .bool b => .ok b
  | .int n => if fitsWord n then flagOfInteger n else .error .notFlag
  | .float x =>
    match integerOfDouble x with
    | .ok n => flagOfInteger n
    | .error _ => .error .notFlag
  | .string s =>
    match flagWords.find? fun word => word.1.toList == s.toList.map Char.toLower with
    | some word => .ok word.2
    | none => .error .unreadableFlag
  | _ => .error .notFlag

/-- The field of a name, which must be there. -/
def required {α : Type} (members : List (String × Value)) (name : String)
    (read : Value → Except Cause α) : Checked α :=
  match Value.lookup? name members with
  | some v => .ofField name (read v)
  | none => .error [⟨some name, .missing⟩]

/-- The field of a name, with the value that it has when it is missing. -/
def withDefault {α : Type} (members : List (String × Value)) (name : String) (absent : α)
    (read : Value → Except Cause α) : Checked α :=
  match Value.lookup? name members with
  | some v => .ofField name (read v)
  | none => .ok absent

/-- A record out of a value, by its members; what is not an object is no record. -/
def record {α : Type} (read : List (String × Value) → Checked α) : Value → Checked α
  | .object members => read members
  | _ => .refuse .notRecord

/-- A record out of JSON text. A numeral in text may be beyond the doubles, and is infinite then. -/
def recordOfText {α : Type} (read : List (String × Value) → Checked α) (s : String) : Checked α :=
  match Json.parse? s with
  | some v => record (fun members => read (members.map fun m => (m.1, m.2.saturate))) v
  | none => .refuse .notJson

end Reckoner.Record
