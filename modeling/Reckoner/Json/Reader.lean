import Reckoner.Json.Value
import Reckoner.Number.Reading

/-!
# Reader — JSON data out of text

The strict form, and the three names `NaN`, `Infinity` and `-Infinity`. A text is either one value
with white space around it, or refused; there is no other outcome. Values may be nested two hundred
deep, and what is empty does not count.
-/

namespace Reckoner.Json

/-- The white space between the parts of a text. -/
def isSpace (c : Char) : Bool := c == ' ' || c == '\t' || c == '\n' || c == '\r'

def skipSpace (cs : List Char) : List Char := cs.dropWhile isSpace

/-- What follows a word at the start of a text. -/
def afterWord? : List Char → List Char → Option (List Char)
  | [], rest => some rest
  | w :: word, c :: rest => if w = c then afterWord? word rest else none
  | _ :: _, [] => none

def hexValue? (c : Char) : Option Nat :=
  if c.isDigit then some (c.toNat - '0'.toNat)
  else if 'a' ≤ c ∧ c ≤ 'f' then some (c.toNat - 'a'.toNat + 10)
  else if 'A' ≤ c ∧ c ≤ 'F' then some (c.toNat - 'A'.toNat + 10)
  else none

/-- The number that four hexadecimal digits spell. -/
def codeUnit? (a b c d : Char) : Option Nat :=
  match hexValue? a, hexValue? b, hexValue? c, hexValue? d with
  | some a, some b, some c, some d => some (((a * 16 + b) * 16 + c) * 16 + d)
  | _, _, _, _ => none

/-- The character that a backslash and one more character stand for. -/
def escaped? : Char → Option Char
  | '"' => some '"'
  | '\\' => some '\\'
  | '/' => some '/'
  | 'b' => some '\x08'
  | 'f' => some '\x0c'
  | 'n' => some '\n'
  | 'r' => some '\r'
  | 't' => some '\t'
  | _ => none

/-- The string that the rest of the text continues, and what follows its closing quote; `done` is
what it has so far, last character first. Two halves of a surrogate pair are one character; a half
on its own is refused, and so is a control character that is not escaped. -/
def stringRest (done : List Char) : List Char → Option (String × List Char)
  | [] => none
  | '"' :: rest => some (String.ofList done.reverse, rest)
  | '\\' :: 'u' :: a :: b :: c :: d :: rest =>
    match codeUnit? a b c d with
    | none => none
    | some unit =>
      -- The first half of a pair needs the second one right after it.
      if 0xD800 ≤ unit ∧ unit < 0xDC00 then
        match rest with
        | '\\' :: 'u' :: a :: b :: c :: d :: rest =>
          match codeUnit? a b c d with
          | none => none
          | some low =>
            if 0xDC00 ≤ low ∧ low < 0xE000 then
              stringRest (Char.ofNat (0x10000 + (unit - 0xD800) * 0x400 + (low - 0xDC00)) :: done)
                rest
            else none
        | _ => none
      else if 0xDC00 ≤ unit ∧ unit < 0xE000 then none
      else stringRest (Char.ofNat unit :: done) rest
  | '\\' :: c :: rest =>
    match escaped? c with
    | some c => stringRest (c :: done) rest
    | none => none
  | c :: rest => if c = '\\' ∨ c.toNat < 0x20 then none else stringRest (c :: done) rest

/-- The digits after a point, if there is one, and the rest of the text; a point needs a digit. -/
def fraction? : List Char → Option (List Char × List Char)
  | '.' :: rest =>
    let digits := rest.takeWhile Char.isDigit
    if digits.isEmpty then none else some (digits, rest.dropWhile Char.isDigit)
  | rest => some ([], rest)

/-- The exponent, if there is one, and the rest of the text; a mark needs a digit. -/
def exponentRest? : List Char → Option (Option Int × List Char)
  | [] => some (none, [])
  | c :: rest =>
    if c = 'e' ∨ c = 'E' then
      let (negative, rest) := Number.splitSign rest
      let digits := rest.takeWhile Char.isDigit
      if digits.isEmpty then none
      else
        let x : Int := Number.ofDigits digits
        some (some (if negative then -x else x), rest.dropWhile Char.isDigit)
    else some (none, c :: rest)

/-- How many digits a number may have before its point; a minus counts as one of them. -/
def maxDigits : Nat := 4300

/-- A whole number or, with a fraction or an exponent, a double, and the rest of the text. -/
def number? (cs : List Char) : Option (Value × List Char) :=
  let negative := cs.head? == some '-'
  let cs := if negative then cs.drop 1 else cs
  let whole := cs.takeWhile Char.isDigit
  if whole.isEmpty || (1 < whole.length && whole.head? == some '0') then none
  else if maxDigits < whole.length + negative.toNat then none
  else
    match fraction? (cs.dropWhile Char.isDigit) with
    | none => none
    | some (fraction, rest) =>
      match exponentRest? rest with
      | none => none
      | some (none, rest) =>
        if fraction.isEmpty then
          let n : Int := Number.ofDigits whole
          some (.int (if negative then -n else n), rest)
        else some (.float (doubleOf negative whole fraction 0), rest)
      | some (some x, rest) => some (.float (doubleOf negative whole fraction x), rest)
where
  /-- The double nearest to the number with these digits and this exponent. -/
  doubleOf (negative : Bool) (whole fraction : List Char) (x : Int) : Float :=
    Number.Decimal.toFloat negative ⟨Number.ofDigits (whole ++ fraction), x - fraction.length⟩

def words : List (List Char × Value) := [
  ("null".toList, .null), ("true".toList, .bool true), ("false".toList, .bool false),
  ("NaN".toList, .float Number.Binary64.notANumber),
  ("Infinity".toList, .float (Number.Binary64.infinity false)),
  ("-Infinity".toList, .float (Number.Binary64.infinity true))]

/-- A word or a number, and the rest of the text. -/
def wordOrNumber? (cs : List Char) : Option (Value × List Char) :=
  match words.findSome? fun word => (afterWord? word.1 cs).map fun rest => (word.2, rest) with
  | some found => some found
  | none => number? cs

mutual

/-- A value, with nothing in front of it, and the rest of the text. Each part of the value takes
one of `fuel`, each array and object with something in it one of `depth`. -/
def value? (fuel depth : Nat) (cs : List Char) : Option (Value × List Char) :=
  match fuel with
  | 0 => none
  | fuel + 1 =>
    match cs with
    | '"' :: rest => (stringRest [] rest).map fun found => (.string found.1, found.2)
    | '[' :: rest =>
      match skipSpace rest with
      | ']' :: rest => some (.array [], rest)
      | rest =>
        match depth with
        | 0 => none
        | depth + 1 => elements? fuel depth [] rest
    | '{' :: rest =>
      match skipSpace rest with
      | '}' :: rest => some (.object [], rest)
      | rest =>
        match depth with
        | 0 => none
        | depth + 1 => members? fuel depth [] rest
    | cs => wordOrNumber? cs

/-- The further elements of an array, up to its end; `done` are those before them, last first. -/
def elements? (fuel depth : Nat) (done : List Value) (cs : List Char) :
    Option (Value × List Char) :=
  match fuel with
  | 0 => none
  | fuel + 1 =>
    match value? fuel depth cs with
    | none => none
    | some (v, rest) =>
      match skipSpace rest with
      | ',' :: rest => elements? fuel depth (v :: done) (skipSpace rest)
      | ']' :: rest => some (.array (v :: done).reverse, rest)
      | _ => none

/-- The further members of an object, up to its end; `done` are those before them, last first. -/
def members? (fuel depth : Nat) (done : List (String × Value)) (cs : List Char) :
    Option (Value × List Char) :=
  match fuel with
  | 0 => none
  | fuel + 1 =>
    match cs with
    | '"' :: rest =>
      match stringRest [] rest with
      | none => none
      | some (name, rest) =>
        match skipSpace rest with
        | ':' :: rest =>
          match value? fuel depth (skipSpace rest) with
          | none => none
          | some (v, rest) =>
            match skipSpace rest with
            | ',' :: rest => members? fuel depth ((name, v) :: done) (skipSpace rest)
            | '}' :: rest => some (.object ((name, v) :: done).reverse, rest)
            | _ => none
        | _ => none
    | _ => none

end

/-- How deep values with something in them may be nested. -/
def maxDepth : Nat := 200

/-- The value that a text is. Every part of a value takes at least half a character. -/
def read? (cs : List Char) : Option Value :=
  match value? (2 * cs.length + 2) maxDepth (skipSpace cs) with
  | some (v, rest) => if (skipSpace rest).isEmpty then some v else none
  | none => none

def parse? (s : String) : Option Value := read? s.toList

end Reckoner.Json
