import Reckoner.Number.Decimal
import Reckoner.Text.Blank
import Reckoner.Text.DecimalDigit

/-!
# Reading — numbers out of text

The form of a number: a sign, digits with at most one point among them, an exponent. Infinity and the
value that is not a number have names, in any case. Underscores may help the eye, by one of two rules:
`joinDigits?` wants each between two digits, `dropUnderscores?` only wants them apart. Digits of other
scripts count where `foldDigit` is applied first.
-/

namespace Reckoner.Number

open Reckoner.Text

/-- The sign in front of a number, `true` for a minus, and what follows it. -/
def splitSign : List Char → Bool × List Char
  | '-' :: rest => (true, rest)
  | '+' :: rest => (false, rest)
  | rest => (false, rest)

/-- The number that a run of ASCII digits spells. -/
def ofDigits (digits : List Char) : Nat := Nat.ofDigitChars 10 digits 0

/-- Digits and nothing else, at least one. -/
def isDigitRun (cs : List Char) : Bool := !cs.isEmpty && cs.all Char.isDigit

/-- The exponent at the end of a number; there may be none. -/
def exponent? : List Char → Option Int
  | [] => some 0
  | c :: rest =>
    let (negative, digits) := splitSign rest
    if (c = 'e' ∨ c = 'E') ∧ isDigitRun digits then
      some (if negative then -(ofDigits digits : Int) else ofDigits digits)
    else none

/-- What follows the whole digits of a number: the digits after a point, if there is one, and the
rest. -/
def splitFraction : List Char → List Char × List Char
  | '.' :: rest => (rest.takeWhile Char.isDigit, rest.dropWhile Char.isDigit)
  | rest => ([], rest)

/-- A number without sign; there is a digit before or after the point. -/
def decimal? (cs : List Char) : Option Decimal :=
  let whole := cs.takeWhile Char.isDigit
  let (fraction, rest) := splitFraction (cs.dropWhile Char.isDigit)
  if whole.isEmpty && fraction.isEmpty then none
  else (exponent? rest).map fun x => ⟨ofDigits (whole ++ fraction), x - fraction.length⟩

/-- Whether each underscore stands between two digits; `previous` precedes the text. -/
def separatesDigits (previous : Char) : List Char → Bool
  | [] => true
  | c :: rest =>
    (c != '_' || (previous.isDigit && rest.head?.any Char.isDigit)) && separatesDigits c rest

/-- The text without its underscores, if each stands between two digits. -/
def joinDigits? (cs : List Char) : Option (List Char) :=
  if separatesDigits ' ' cs then some (cs.filter (· != '_')) else none

/-- Whether no underscore stands at the end or right after another one; `previous` precedes the
text. -/
def keepsApart (previous : Char) : List Char → Bool
  | [] => true
  | c :: rest => (c != '_' || (previous != '_' && !rest.isEmpty)) && keepsApart c rest

/-- The text without its underscores, if none of them stands at an end or next to another one. This
is a weaker demand than that of `joinDigits?`: a sign or a point may be their neighbour. -/
def dropUnderscores? (cs : List Char) : Option (List Char) :=
  if keepsApart '_' cs then some (cs.filter (· != '_')) else none

example : joinDigits? "1_0".toList = some "10".toList := by decide

example : joinDigits? "._5".toList = none := by decide

example : dropUnderscores? "-._5".toList = some "-.5".toList := by decide

example : dropUnderscores? "1__0".toList = none ∧ dropUnderscores? "1_".toList = none := by decide

/-- A number or the name of a special value, without sign. -/
def magnitude? (negative : Bool) (cs : List Char) : Option Float :=
  let word := cs.map Char.toLower
  if word = "inf".toList ∨ word = "infinity".toList then some (Binary64.infinity negative)
  else if word = "nan".toList then some Binary64.notANumber
  else (decimal? cs).map (Decimal.toFloat negative)

/-- The double nearest to the number that a text in ASCII digits spells as it stands. -/
def float? (cs : List Char) : Option Float :=
  let (negative, rest) := splitSign cs
  magnitude? negative rest

/-- The double nearest to the number that a text in digits of any script spells. -/
def floatOfAnyScript? (cs : List Char) : Option Float :=
  (joinDigits? (trimBy isWhiteSpace (cs.map foldDigit))).bind float?

/-- The whole number that a text in digits of any script spells. -/
def intOfAnyScript? (cs : List Char) : Option Int :=
  match joinDigits? (trimBy isWhiteSpace (cs.map foldDigit)) with
  | none => none
  | some joined =>
    let (negative, digits) := splitSign joined
    if isDigitRun digits then
      some (if negative then -(ofDigits digits : Int) else ofDigits digits)
    else none

end Reckoner.Number
