import Reckoner.Number.Ratio

/-!
# Binary64 — what a double stands for

A double is taken apart into sign, mantissa and power of two, and put together again from an exact
quotient. The magnitude bits of the non-negative doubles, read as a natural number, grow with the
value they stand for; the rounding below uses that, so a mantissa that rounds up to the next power
of two needs no second step.
-/

namespace Reckoner.Number

/-- A double by its meaning: not a number, an infinity, or `± mantissa * 2 ^ exponent`. -/
inductive Binary64 where
  | nan
  | infinite (negative : Bool)
  | finite (negative : Bool) (mantissa : Nat) (exponent : Int)
  deriving DecidableEq, Repr, Inhabited

namespace Binary64

/-- The exponent that the smallest doubles have. -/
def leastExponent : Int := -1074

/-- The magnitude bits of infinity: every smaller number is the magnitude of a finite double. -/
def infinityBits : Nat := 2047 <<< 52

/-- Mantissa and exponent of the finite magnitude with these bits. -/
def unpack (bits : Nat) : Nat × Int :=
  let field := bits >>> 52
  if field = 0 then (bits % (1 <<< 52), leastExponent)
  else (1 <<< 52 + bits % (1 <<< 52), leastExponent + (field - 1 : Nat))

/-- The magnitude bits of `mantissa * 2 ^ (leastExponent + step)`, for a mantissa of at most 53
binary digits, or of `2 ^ 53`. -/
def pack (mantissa step : Nat) : Nat := step <<< 52 + mantissa

/-- The meaning of the 64 bits. -/
def ofBits (bits : Nat) : Binary64 :=
  let negative := decide (1 <<< 63 ≤ bits)
  let magnitude := bits % (1 <<< 63)
  if magnitude < infinityBits then .finite negative (unpack magnitude).1 (unpack magnitude).2
  else if magnitude = infinityBits then .infinite negative
  else .nan

def ofFloat (x : Float) : Binary64 := ofBits x.toBits.toNat

/-- The exact magnitude `mantissa * 2 ^ exponent`. -/
def magnitude (mantissa : Nat) (exponent : Int) : Ratio :=
  (Ratio.ofNat mantissa).scaleTwo exponent

/-- The magnitude bits of the double nearest to `r`, a half going to the even neighbour. From
`2 ^ 1024 - 2 ^ 970` on that is infinity. -/
def nearestBits (r : Ratio) : Nat :=
  if r.num = 0 then 0
  else
    -- The step is zero for subnormal numbers: they share the least exponent.
    let step := (r.binaryOrder - 53 - leastExponent).toNat
    let mantissa := (r.scaleTwo (-(leastExponent + step))).roundHalfEven
    min (pack mantissa step) infinityBits

/-- The double with this sign and these magnitude bits. -/
def toFloat (negative : Bool) (magnitudeBits : Nat) : Float :=
  Float.ofBits (UInt64.ofNat (if negative then 1 <<< 63 + magnitudeBits else magnitudeBits))

/-- The double nearest to a signed exact number. -/
def nearest (negative : Bool) (r : Ratio) : Float := toFloat negative (nearestBits r)

/-- The double nearest to a whole number. -/
def ofInt (n : Int) : Float := nearest (decide (n < 0)) (Ratio.ofNat n.natAbs)

def notANumber : Float := Float.ofBits 0x7FF8000000000000

def infinity (negative : Bool) : Float := toFloat negative infinityBits

/-- The whole number that a double stands for, if it stands for one. -/
def toInt? : Binary64 → Option Int
  | .finite negative mantissa exponent =>
    let r := magnitude mantissa exponent
    if r.num % r.den = 0 then
      some (if negative then -(r.num / r.den : Nat) else (r.num / r.den : Nat))
    else none
  | _ => none

def isFinite : Binary64 → Bool
  | .finite .. => true
  | _ => false

def isOdd (b : Binary64) : Bool :=
  match b.toInt? with
  | some n => n % 2 == 1
  | none => false

end Binary64

end Reckoner.Number
