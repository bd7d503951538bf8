import Reckoner.Number.Binary64

/-!
# Decimal — choosing the digits of a double

`Decimal.shortest` picks the fewest digits that read back as the same double, and of those the
nearest; `Decimal.rounded` picks a fixed number of significant digits. Both work on the exact value,
so no error enters before the one rounding. `Decimal.toFloat` reads digits back.
-/

namespace Reckoner.Number

/-- The number `digits * 10 ^ exponent`. -/
structure Decimal where
  digits : Nat
  exponent : Int
  deriving DecidableEq, Repr, Inhabited

namespace Decimal

def value (d : Decimal) : Ratio := (Ratio.ofNat d.digits).scaleTen d.exponent

/-- Above `10 ^ 310` every number reads as infinity and below `10 ^ -330` as zero; the powers of ten
in between are the only ones that are ever computed. -/
def nearestBits (d : Decimal) : Nat :=
  if d.digits = 0 then 0
  else
    let order := decimalSize d.digits + d.exponent
    if 310 < order then Binary64.infinityBits
    else if order < -330 then 0
    else Binary64.nearestBits d.value

/-- The double nearest to `± digits * 10 ^ exponent`. -/
def toFloat (negative : Bool) (d : Decimal) : Float := Binary64.toFloat negative d.nearestBits

/-- The numbers that round to the double `mantissa * 2 ^ exponent`, in quarters of its last place:
the half way marks to its two neighbours. Below a power of two the neighbour is half as far. -/
def neighbourhood (mantissa : Nat) (exponent : Int) : Nat × Nat :=
  let narrow := mantissa = 1 <<< 52 ∧ Binary64.leastExponent < exponent
  (if narrow then 4 * mantissa - 1 else 4 * mantissa - 2, 4 * mantissa + 2)

/-- Whether `point` lies between the marks; the marks themselves round to an even mantissa. -/
def between (even : Bool) (low point high : Nat) : Bool :=
  if even then low ≤ point && point ≤ high else low < point && point < high

/-- A point of the grid of multiples of `10 ^ place` that rounds to the double, if its one or the
other neighbour on the grid does: the nearer one, or of two equally near ones the even one. -/
def onGrid? (mantissa : Nat) (exponent place : Int) : Option Decimal :=
  let marks := neighbourhood mantissa exponent
  -- A quarter of the last place, in units of the grid.
  let quarter := ((Ratio.ofNat 1).scaleTwo (exponent - 2)).scaleTen (-place)
  let value := 4 * mantissa * quarter.num
  let below := value / quarter.den
  let even := mantissa % 2 == 0
  let fits := fun n : Nat =>
    between even (marks.1 * quarter.num) (n * quarter.den) (marks.2 * quarter.num)
  if fits below then
    if fits (below + 1) then
      -- Both neighbours read back, so the distance decides.
      let middle := (2 * below + 1) * quarter.den
      if 2 * value < middle then some ⟨below, place⟩
      else if 2 * value = middle then some ⟨below + below % 2, place⟩
      else some ⟨below + 1, place⟩
    else some ⟨below, place⟩
  else if fits (below + 1) then some ⟨below + 1, place⟩
  else none

/-- The fewest digits that read back as `mantissa * 2 ^ exponent`. Seventeen always do. -/
def shortest (mantissa : Nat) (exponent : Int) : Decimal :=
  let order := (Binary64.magnitude mantissa exponent).decimalOrder
  -- The grid of the leading digit first, then finer and finer ones.
  ((List.range 17).findSome? fun n : Nat => onGrid? mantissa exponent (order - 1 - n)).getD ⟨0, 0⟩

/-- A positive value to `count` significant digits, a half going to the even neighbour. -/
def rounded (count : Nat) (r : Ratio) : Decimal :=
  let place := r.decimalOrder - count
  ⟨(r.scaleTen (-place)).roundHalfEven, place⟩

end Decimal

end Reckoner.Number
