import Reckoner.Json.Value

/-!
# Grammar — what JSON is

What texts are JSON and what they say, by the forms of their parts and apart from any reader. Each
relation is between a text, the part that it begins with, and what follows that part. A string is a
list of code units here, as its characters and escapes give them one after another: an escape may
give half of a surrogate pair, with or without the other half beside it.
-/

namespace Reckoner.Json

/-- What a text in JSON says. Of a number only is kept that it is one. -/
inductive Datum where
  | null
  | bool (b : Bool)
  | number
  | string (units : List Nat)
  | array (elements : List Datum)
  | object (members : List (List Nat × Datum))

/-! ## Strings -/

/-- A character as code units of sixteen bits: itself, or the two halves of a surrogate pair. -/
def unitsOfChar (c : Char) : List Nat :=
  if c.toNat < 0x10000 then [c.toNat]
  else [0xD800 + (c.toNat - 0x10000) / 0x400, 0xDC00 + (c.toNat - 0x10000) % 0x400]

def unitsOf (cs : List Char) : List Nat := cs.flatMap unitsOfChar

/-- The letters that may stand after a backslash, and the characters that they stand for. -/
def letters : List (Char × Char) := [
  ('"', '"'), ('\\', '\\'), ('/', '/'), ('b', '\x08'), ('f', '\x0c'), ('n', '\n'), ('r', '\r'),
  ('t', '\t')]

/-- A hexadecimal digit, small or capital, and its value. -/
def IsHexDigit (c : Char) (n : Nat) : Prop :=
  "0123456789abcdef".toList[n]? = some c ∨ "0123456789ABCDEF".toList[n]? = some c

/-- A string from behind its opening quote, the code units in it, and what follows its closing
quote. -/
inductive Closes : List Char → List Nat → List Char → Prop
  | quote (rest : List Char) : Closes ('"' :: rest) [] rest
  | plain {c : Char} {cs rest : List Char} {us : List Nat} (hquote : c ≠ '"') (hslash : c ≠ '\\')
      (hprintable : 0x20 ≤ c.toNat) (h : Closes cs us rest) :
      Closes (c :: cs) (unitsOfChar c ++ us) rest
  | letter {l c : Char} {cs rest : List Char} {us : List Nat} (hletter : (l, c) ∈ letters)
      (h : Closes cs us rest) : Closes ('\\' :: l :: cs) (c.toNat :: us) rest
  | unit {a b c d : Char} {i j k l : Nat} {cs rest : List Char} {us : List Nat}
      (ha : IsHexDigit a i) (hb : IsHexDigit b j) (hc : IsHexDigit c k) (hd : IsHexDigit d l)
      (h : Closes cs us rest) :
      Closes ('\\' :: 'u' :: a :: b :: c :: d :: cs) ((((i * 16 + j) * 16 + k) * 16 + l) :: us) rest

/-! ## Numbers -/

/-- Digits, at least one of them. -/
def IsDigits (cs : List Char) : Prop := cs ≠ [] ∧ ∀ c ∈ cs, c.isDigit = true

inductive IsFraction : List Char → Prop
  | absent : IsFraction []
  | present {digits : List Char} (h : IsDigits digits) : IsFraction ('.' :: digits)

inductive IsExponent : List Char → Prop
  | absent : IsExponent []
  | present {mark : Char} {sign digits : List Char} (hmark : mark = 'e' ∨ mark = 'E')
      (hsign : sign = [] ∨ sign = ['+'] ∨ sign = ['-']) (h : IsDigits digits) :
      IsExponent (mark :: (sign ++ digits))

/-- The text of a number, which has so many characters up to its fraction. There are no zeros in
front. -/
inductive IsNumber : Nat → List Char → Prop
  | intro {sign whole fraction exponent : List Char} (hsign : sign = [] ∨ sign = ['-'])
      (hwhole : IsDigits whole) (hzero : whole.head? = some '0' → whole = ['0'])
      (hfraction : IsFraction fraction) (hexponent : IsExponent exponent) :
      IsNumber (sign.length + whole.length) (sign ++ (whole ++ (fraction ++ exponent)))

/-! ## Values -/

/-- The words that are values. The last three are an addition to JSON. -/
def constants : List (List Char × Datum) := [
  ("null".toList, .null), ("true".toList, .bool true), ("false".toList, .bool false),
  ("NaN".toList, .number), ("Infinity".toList, .number), ("-Infinity".toList, .number)]

/-- White space in front of what follows it. -/
inductive Skips : List Char → List Char → Prop
  | none (cs : List Char) : Skips cs cs
  | one {c : Char} {cs rest : List Char} (hc : c ∈ [' ', '\t', '\n', '\r']) (h : Skips cs rest) :
      Skips (c :: cs) rest

/-- What a text can begin with: a value, a member of an object, or the rest of an array or an object
up to its closing bracket. -/
inductive Part where
  | value (d : Datum)
  | member (name : List Nat) (d : Datum)
  | elements (ds : List Datum)
  | members (ms : List (List Nat × Datum))

/-- What is not every reader's: numbers that go on for long before their fraction, and strings with
halves of pairs in them. -/
structure Limits where
  number : Nat → Prop
  string : List Nat → Prop

/-- All that the grammar allows. -/
def Limits.none : Limits := ⟨fun _ => True, fun _ => True⟩

/-- A number has at most 4300 characters before its fraction, and a string is a text. -/
def Limits.reader : Limits := ⟨fun size => size ≤ 4300, fun us => ∃ cs, us = unitsOf cs⟩

/-- A text begins with a part in which arrays and objects that are not empty are nested at most so
deep. -/
inductive Begins (l : Limits) : Nat → List Char → Part → List Char → Prop
  | constant {n : Nat} {word : List Char} {d : Datum} (h : (word, d) ∈ constants)
      (rest : List Char) : Begins l n (word ++ rest) (.value d) rest
  | number {n size : Nat} {text : List Char} (h : IsNumber size text) (hsize : l.number size)
      (rest : List Char) : Begins l n (text ++ rest) (.value .number) rest
  | string {n : Nat} {cs rest : List Char} {us : List Nat} (h : Closes cs us rest)
      (hunits : l.string us) : Begins l n ('"' :: cs) (.value (.string us)) rest
  | emptyArray {n : Nat} {cs rest : List Char} (h : Skips cs (']' :: rest)) :
      Begins l n ('[' :: cs) (.value (.array [])) rest
  | array {n : Nat} {cs start rest : List Char} {ds : List Datum} (hstart : Skips cs start)
      (h : Begins l n start (.elements ds) rest) :
      Begins l (n + 1) ('[' :: cs) (.value (.array ds)) rest
  | emptyObject {n : Nat} {cs rest : List Char} (h : Skips cs ('}' :: rest)) :
      Begins l n ('{' :: cs) (.value (.object [])) rest
  | object {n : Nat} {cs start rest : List Char} {ms : List (List Nat × Datum)}
      (hstart : Skips cs start) (h : Begins l n start (.members ms) rest) :
      Begins l (n + 1) ('{' :: cs) (.value (.object ms)) rest
  | lastElement {n : Nat} {cs after rest : List Char} {d : Datum}
      (hvalue : Begins l n cs (.value d) after) (hafter : Skips after (']' :: rest)) :
      Begins l n cs (.elements [d]) rest
  | element {n : Nat} {cs after more start rest : List Char} {d : Datum} {ds : List Datum}
      (hvalue : Begins l n cs (.value d) after) (hafter : Skips after (',' :: more))
      (hmore : Skips more start) (h : Begins l n start (.elements ds) rest) :
      Begins l n cs (.elements (d :: ds)) rest
  | member {n : Nat} {cs after more start rest : List Char} {us : List Nat} {d : Datum}
      (hname : Closes cs us after) (hunits : l.string us) (hafter : Skips after (':' :: more))
      (hmore : Skips more start) (h : Begins l n start (.value d) rest) :
      Begins l n ('"' :: cs) (.member us d) rest
  | lastMember {n : Nat} {cs after rest : List Char} {us : List Nat} {d : Datum}
      (hmember : Begins l n cs (.member us d) after) (hafter : Skips after ('}' :: rest)) :
      Begins l n cs (.members [(us, d)]) rest
  | moreMembers {n : Nat} {cs after more start rest : List Char} {us : List Nat} {d : Datum}
      {ms : List (List Nat × Datum)} (hmember : Begins l n cs (.member us d) after)
      (hafter : Skips after (',' :: more)) (hmore : Skips more start)
      (h : Begins l n start (.members ms) rest) : Begins l n cs (.members ((us, d) :: ms)) rest

/-- A text is JSON for this: a value with nothing but white space around it. -/
def Says (l : Limits) (depth : Nat) (cs : List Char) (d : Datum) : Prop :=
  ∃ start rest, Skips cs start ∧ Begins l depth start (.value d) rest ∧ Skips rest []

/-- The last member of a name counts. -/
def lastNamed? (name : List Char) (members : List (List Nat × Datum)) : Option Datum :=
  members.reverse.lookup (unitsOf name)

/-! ## What a value says -/

mutual

/-- What a value says. -/
def Value.datum : Value → Datum
  | .null => .null
  | .bool b => .bool b
  | .int _ => .number
  | .float _ => .number
  | .string s => .string (unitsOf s.toList)
  | .array elements => .array (elementData elements)
  | .object members => .object (memberData members)

def elementData : List Value → List Datum
  | [] => []
  | v :: rest => v.datum :: elementData rest

def memberData : List (String × Value) → List (List Nat × Datum)
  | [] => []
  | (name, v) :: rest => (unitsOf name.toList, v.datum) :: memberData rest

end

end Reckoner.Json
