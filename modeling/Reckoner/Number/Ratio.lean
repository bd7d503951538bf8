/-!
# Ratio — exact non-negative quotients

A double is a whole number of powers of two and a decimal text is a whole number of powers of ten.
Both are held here as a quotient of two natural numbers, so that going from one to the other is
exact until the one place where it is rounded.

* `roundHalfEven` is rounding to the nearest whole number, a half going to the even neighbour.
* `decimalOrder` and `binaryOrder` say between which two powers a positive quotient lies.
-/

namespace Reckoner.Number

/-- The quotient `num / den`; `den` is positive. -/
structure Ratio where
  num : Nat
  den : Nat
  den_pos : 0 < den

namespace Ratio

def ofNat (n : Nat) : Ratio := ⟨n, 1, Nat.one_pos⟩

/-- Multiplication by `base ^ k`, where `k` may be negative. -/
def scale (base : Nat) (base_pos : 0 < base) (k : Int) (r : Ratio) : Ratio :=
  if 0 ≤ k then ⟨r.num * base.pow k.toNat, r.den, r.den_pos⟩
  else ⟨r.num, r.den * base.pow (-k).toNat, Nat.mul_pos r.den_pos (Nat.pow_pos base_pos)⟩

def scaleTen (k : Int) (r : Ratio) : Ratio := r.scale 10 (by decide) k

def scaleTwo (k : Int) (r : Ratio) : Ratio := r.scale 2 (by decide) k

/-- The nearest whole number; of two equally near ones the even one. -/
def roundHalfEven (r : Ratio) : Nat :=
  let whole := r.num / r.den
  let rest := 2 * (r.num % r.den)
  if rest < r.den then whole
  else if rest = r.den then whole + whole % 2
  else whole + 1

-- Rounding moves a quotient by a half at most.
theorem roundHalfEven_near (r : Ratio) :
    2 * r.num ≤ (2 * r.roundHalfEven + 1) * r.den ∧
      (2 * r.roundHalfEven) * r.den ≤ 2 * r.num + r.den := by
  have parts : r.den * (r.num / r.den) + r.num % r.den = r.num := Nat.div_add_mod r.num r.den
  have small : r.num % r.den < r.den := Nat.mod_lt r.num r.den_pos
  simp only [roundHalfEven]
  generalize r.num / r.den = whole at parts ⊢
  have scaled : r.den * whole = whole * r.den := Nat.mul_comm r.den whole
  split
  · rw [Nat.add_mul, Nat.mul_assoc]
    omega
  · split
    · rcases Nat.mod_two_eq_zero_or_one whole with even | odd
      · simp only [even, Nat.add_zero, Nat.add_mul, Nat.mul_assoc]
        omega
      · simp only [odd, Nat.add_mul, Nat.mul_assoc]
        omega
    · rw [Nat.add_mul, Nat.mul_assoc, Nat.add_mul]
      omega

/-- With `size n` the number of digits of `n` in some base (none for `0`), the exponent `x` of that
base with `base ^ (x - 1) ≤ r < base ^ x`. -/
def orderBy (size : Nat → Nat) (r : Ratio) : Int :=
  -- Below one, `s` digits say that the reciprocal is above `base ^ (s - 1)` and at most `base ^ s`.
  if r.den ≤ r.num then size (r.num / r.den)
  else 1 - (size ((r.den - 1) / r.num) : Int)

end Ratio

/-- How many decimal digits a number has; zero has none. -/
def decimalSize (n : Nat) : Nat :=
  if n = 0 then 0 else (Nat.toDigits 10 n).length

/-- How many binary digits a number has; zero has none. -/
def binarySize (n : Nat) : Nat :=
  if n = 0 then 0 else n.log2 + 1

/-- The `x` with `10 ^ (x - 1) ≤ r < 10 ^ x`, for a positive `r`. -/
def Ratio.decimalOrder (r : Ratio) : Int := r.orderBy decimalSize

/-- The `x` with `2 ^ (x - 1) ≤ r < 2 ^ x`, for a positive `r`. -/
def Ratio.binaryOrder (r : Ratio) : Int := r.orderBy binarySize

end Reckoner.Number
