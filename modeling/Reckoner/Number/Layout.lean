import Reckoner.Number.Decimal

/-!
# Layout — writing a double as text

A `Layout` holds the decisions of one number format: how many digits, which orders of magnitude
are written without an exponent, whether a whole number keeps a point, and how the exponent and the
two kinds of special values look. One function writes a double in any of them.
-/

namespace Reckoner.Number

/-- The decisions of a number format. -/
structure Layout where
  /-- How many significant digits; without a count, the fewest that read back. -/
  precision : Option Nat
  /-- The least exponent of the leading digit that is written positionally. -/
  lowest : Int
  /-- The exponents of the leading digit from here on are written out. -/
  highest : Int
  /-- Whether a whole number written positionally ends in ".0". -/
  keepsPoint : Bool
  /-- The mark before the exponent. -/
  mark : Char
  /-- The least number of digits of the exponent. -/
  exponentWidth : Nat
  nan : String
  /-- The text of infinity; the negative one has a minus before it. -/
  infinity : String

namespace Layout

/-- The usual decisions: the fewest digits; an exponent from `1e+16` up and below `0.0001`; and ".0"
at the end of a whole number. -/
def usual : Layout where
  precision := none
  lowest := -4
  highest := 16
  keepsPoint := true
  mark := 'e'
  exponentWidth := 2
  nan := "nan"
  infinity := "inf"

/-- The digits without the zeros at their end; a leading digit stays. -/
def significant (digits : Nat) : List Char :=
  match ((Nat.toDigits 10 digits).reverse.dropWhile (· == '0')).reverse with
  | [] => ['0']
  | kept => kept

/-- An exponent: a sign, and digits up to the least width. -/
def exponentText (width : Nat) (x : Int) : List Char :=
  let digits := Nat.toDigits 10 x.natAbs
  (if x < 0 then '-' else '+') :: (List.replicate (width - digits.length) '0' ++ digits)

/-- One digit before the point and an exponent after the rest. -/
def scientific (n : Layout) (digits : List Char) (x : Int) : List Char :=
  let fraction := match digits.drop 1 with
    | [] => []
    | rest => '.' :: rest
  digits.take 1 ++ fraction ++ n.mark :: exponentText n.exponentWidth x

/-- Digits with the point where the exponent `x` of the leading one puts it. -/
def positional (n : Layout) (digits : List Char) (x : Int) : List Char :=
  if x < 0 then '0' :: '.' :: (List.replicate (-x - 1).toNat '0' ++ digits)
  else
    let whole := x.toNat + 1
    match digits.drop whole with
    | [] => digits ++ List.replicate (whole - digits.length) '0'
        ++ (if n.keepsPoint then ['.', '0'] else [])
    | rest => digits.take whole ++ '.' :: rest

/-- A decimal number in this layout. -/
def ofDecimal (n : Layout) (d : Decimal) : List Char :=
  let digits := significant d.digits
  let x := ((Nat.toDigits 10 d.digits).length : Int) - 1 + d.exponent
  if n.lowest ≤ x ∧ x < n.highest then n.positional digits x else n.scientific digits x

/-- The decimal number that stands for `mantissa * 2 ^ exponent`. -/
def choose (n : Layout) (mantissa : Nat) (exponent : Int) : Decimal :=
  if mantissa = 0 then ⟨0, 0⟩
  else match n.precision with
    | none => Decimal.shortest mantissa exponent
    | some count => Decimal.rounded count (Binary64.magnitude mantissa exponent)

/-- The text of a value taken apart. A negative zero keeps its sign. -/
def ofBinary64 (n : Layout) : Binary64 → List Char
  | .nan => n.nan.toList
  | .infinite negative => (if negative then ['-'] else []) ++ n.infinity.toList
  | .finite negative mantissa exponent =>
    (if negative then ['-'] else []) ++ n.ofDecimal (n.choose mantissa exponent)

def write (n : Layout) (x : Float) : String := String.ofList (n.ofBinary64 (Binary64.ofFloat x))

end Layout

end Reckoner.Number
