import Reckoner.Number.Layout

/-!
# Value — JSON data

Whole numbers and doubles are kept apart, because a field may accept one and refuse the other. An
object keeps all of its members in the order in which they stand; the last one of a name counts.
-/

namespace Reckoner.Json

inductive Value where
  | null
  | bool (b : Bool)
  | int (n : Int)
  | float (x : Float)
  | string (s : String)
  | array (elements : List Value)
  | object (members : List (String × Value))
  deriving Inhabited

namespace Value

def members? : Value → Option (List (String × Value))
  | .object members => some members
  | _ => none

/-- The last member of a name. -/
def lookup? (name : String) (members : List (String × Value)) : Option Value :=
  (members.reverse.find? (·.1 == name)).map (·.2)

/-- The member of a name, if the value is an object that has one. -/
def member? (name : String) : Value → Option Value
  | .object members => lookup? name members
  | _ => none

/-- Whether the double nearest to a whole number is infinite. -/
def exceedsDoubles (n : Int) : Bool :=
  Number.Binary64.nearestBits (Number.Ratio.ofNat n.natAbs) == Number.Binary64.infinityBits

/-- A whole number beyond the doubles as the infinity of its sign; other values stay. -/
def saturate : Value → Value
  | .int n =>
    if exceedsDoubles n then .float (Number.Binary64.infinity (decide (n < 0))) else .int n
  | v => v

def ofDouble? : Option Float → Value
  | some x => .float x
  | none => .null

def ofText? : Option String → Value
  | some s => .string s
  | none => .null

end Value

/-- Doubles have their fewest digits; from `0.00001` up to below `1e+16` they stand without
exponent, and a whole number keeps ".0". -/
def number : Number.Layout where
  precision := none
  lowest := -5
  highest := 16
  keepsPoint := true
  mark := 'e'
  exponentWidth := 1
  nan := "NaN"
  infinity := "Infinity"

example : number.ofBinary64 (.finite false 3 0) = "3.0".toList := by decide +kernel

example : number.ofBinary64 (.finite false 1 (-1074)) = "5e-324".toList := by decide +kernel

example : number.ofBinary64 (.finite true (5 * 10 ^ 15) 1) = "-1e+16".toList := by decide +kernel

end Reckoner.Json
