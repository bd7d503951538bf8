import Reckoner.Number.Binary64

/-!
# Power — raising to a power, with every case defined

A power routine leaves two kinds of cases undecided: a result too large to hold, and a pair of
arguments for which there is no result at all. `Attempt` tells them apart, and `power` gives each
its value, by the sign of the base and by whether the exponent is an odd whole number.
-/

namespace Reckoner.Number

/-- What a power routine says of one pair of arguments. -/
inductive Attempt where
  | value (x : Float)
  | tooLarge
  | undefined

/-- Two finite arguments with no finite result are refused: as too large if the result is infinite
and the base is not zero, as undefined otherwise. All else is a value. -/
def Attempt.ofRaw (a b raw : Float) : Attempt :=
  if a.isFinite && b.isFinite && !raw.isFinite then
    if raw.isInf && !(a == 0) then .tooLarge else .undefined
  else .value raw

/-- Whether a double is negative; neither `-0.0` nor what is not a number is. -/
def isBelowZero (x : Float) : Bool := x < 0

/-- Whether the sign bit is set. -/
def hasSign (x : Float) : Bool := 1 <<< 63 ≤ x.toBits.toNat

/-- `a` to the power `b`, by the routine `raw` where that has a value. A result too large is the
infinity with the sign that the power has. A zero base, which then has a negative exponent, gives
an infinity, and a negative base with a fractional exponent gives no number. -/
def powerBy (raw : Float → Float → Float) (a b : Float) : Float :=
  let odd := (Binary64.ofFloat b).isOdd
  match Attempt.ofRaw a b (raw a b) with
  | .value x => x
  | .tooLarge => Binary64.infinity (isBelowZero a && odd)
  | .undefined => if a == 0 then Binary64.infinity (odd && hasSign a) else Binary64.notANumber

/-- `a` to the power `b`, by the routine of the system. -/
def power (a b : Float) : Float := powerBy Float.pow a b

end Reckoner.Number
