import Reckoner.Proofs.Number.Exact

/-!
# Nearest — the numbers that round to a double

Each positive finite double has an interval of numbers that round to it. It reaches half way to both
neighbours, below a power of two only a quarter of the distance above it, and its ends belong to it if
the mantissa is even. Whatever exact quotient lies in the interval, its nearest double is that one.
-/

namespace Reckoner.Number

namespace Decimal

/-- Whether a number lies in the interval of `mantissa * 2 ^ exponent`. -/
structure Rounds (mantissa : Nat) (exponent : Int) (q : ℚ) : Prop where
  low : ((neighbourhood mantissa exponent).1 : ℚ) * 2 ^ (exponent - 2) ≤ q
  high : q ≤ ((neighbourhood mantissa exponent).2 : ℚ) * 2 ^ (exponent - 2)
  odd : mantissa % 2 = 1 →
    ((neighbourhood mantissa exponent).1 : ℚ) * 2 ^ (exponent - 2) < q ∧
      q < ((neighbourhood mantissa exponent).2 : ℚ) * 2 ^ (exponent - 2)

-- Only the lower end depends on whether the double is a power of two.
theorem neighbourhood_eq (mantissa : Nat) (exponent : Int) :
    neighbourhood mantissa exponent =
      (if mantissa = 2 ^ 52 ∧ Binary64.leastExponent < exponent then 4 * mantissa - 1
        else 4 * mantissa - 2, 4 * mantissa + 2) := by
  simp only [neighbourhood, Nat.one_shiftLeft]

-- The ends of the interval, in quarters of the last place.
theorem neighbourhood_bounds (mantissa : Nat) (exponent : Int) :
    4 * mantissa ≤ (neighbourhood mantissa exponent).1 + 2 ∧
      (neighbourhood mantissa exponent).2 = 4 * mantissa + 2 := by
  refine ⟨?_, rfl⟩
  simp only [neighbourhood_eq]
  split <;> omega

theorem Rounds.pos {mantissa : Nat} {exponent : Int} {q : ℚ} (hpositive : 0 < mantissa)
    (h : Rounds mantissa exponent q) : 0 < q := by
  have hmarks := (neighbourhood_bounds mantissa exponent).1
  have hfirst : (0 : ℚ) < (neighbourhood mantissa exponent).1 := by
    have hnat : 0 < (neighbourhood mantissa exponent).1 := by omega
    exact_mod_cast hnat
  exact (mul_pos hfirst (zpow_pos (by norm_num) _)).trans_le h.low

end Decimal

namespace Binary64

open Decimal

theorem pack_eq (mantissa step : Nat) : pack mantissa step = step * 2 ^ 52 + mantissa := by
  rw [pack, Nat.shiftLeft_eq]

theorem unpack_eq (bits : Nat) : unpack bits =
    if bits / 2 ^ 52 = 0 then (bits % 2 ^ 52, leastExponent)
    else (2 ^ 52 + bits % 2 ^ 52, leastExponent + (bits / 2 ^ 52 - 1 : Nat)) := by
  simp only [unpack, Nat.shiftRight_eq_div_pow, Nat.one_shiftLeft]

theorem two_zpow_pos (k : Int) : (0 : ℚ) < 2 ^ k := zpow_pos (by norm_num) k

theorem toRat_magnitude (mantissa : Nat) (exponent : Int) :
    (magnitude mantissa exponent).toRat = mantissa * 2 ^ exponent := by
  rw [magnitude, Ratio.toRat_scaleTwo, Ratio.toRat_ofNat]

theorem num_magnitude_pos {mantissa : Nat} (exponent : Int) (h : 0 < mantissa) :
    0 < (magnitude mantissa exponent).num := by
  refine Ratio.num_pos_of_toRat_pos ?_
  rw [toRat_magnitude]
  exact mul_pos (Nat.cast_pos.mpr h) (two_zpow_pos exponent)

-- A quarter of the last place, four times.
theorem four_mul_zpow (k : Int) : (4 : ℚ) * 2 ^ (k - 2) = 2 ^ k := by
  rw [zpow_sub₀ (by norm_num), mul_div_assoc']
  norm_num

-- The bits of a number whose step and mantissa are known.
theorem nearestBits_of_step {r : Ratio} {step mantissa : Nat} (hr : 0 < r.num)
    (hstep : (r.binaryOrder - 53 - leastExponent).toNat = step)
    (hround : (r.scaleTwo (-(leastExponent + step))).roundHalfEven = mantissa)
    (hfinite : pack mantissa step ≤ infinityBits) : nearestBits r = pack mantissa step := by
  unfold nearestBits
  rw [if_neg (by omega)]
  simp only [hstep, hround]
  exact Nat.min_eq_left hfinite

-- A number in the interval of a mantissa, brought to units of its last place, rounds to it.
theorem roundHalfEven_scaleTwo {r : Ratio} {mantissa : Nat} {exponent : Int}
    (h : Rounds mantissa exponent r.toRat) : (r.scaleTwo (-exponent)).roundHalfEven = mantissa := by
  have hquarter := two_zpow_pos (exponent - 2)
  have hvalue : r.toRat = 4 * (r.scaleTwo (-exponent)).toRat * 2 ^ (exponent - 2) := by
    rw [mul_right_comm, four_mul_zpow, mul_comm, Ratio.toRat_scaleTwo_neg]
  have hmarks := neighbourhood_bounds mantissa exponent
  have hlow := h.low
  have hhigh := h.high
  have hodd := h.odd
  rw [hvalue, mul_le_mul_iff_of_pos_right hquarter] at hlow hhigh
  rw [hvalue, mul_lt_mul_iff_of_pos_right hquarter, mul_lt_mul_iff_of_pos_right hquarter] at hodd
  have hfirst : (4 * mantissa : ℚ) ≤ (neighbourhood mantissa exponent).1 + 2 := by
    exact_mod_cast hmarks.1
  have hsecond : ((neighbourhood mantissa exponent).2 : ℚ) = 4 * mantissa + 2 := by
    exact_mod_cast hmarks.2
  refine Ratio.roundHalfEven_eq_of_toRat (by linarith) (by linarith) fun hmod => ?_
  have hstrict := hodd hmod
  constructor <;> linarith

/-! ## Orders of magnitude -/

theorem binaryOrder_le {r : Ratio} {k : Int} (hr : 0 < r.num) (h : r.toRat < 2 ^ k) :
    r.binaryOrder ≤ k := by
  have hlow := (Ratio.binaryOrder_bounds hr).1
  have hlt := (zpow_lt_zpow_iff_right₀ (by norm_num : (1 : ℚ) < 2)).mp (hlow.trans_lt h)
  omega

theorem lt_binaryOrder {r : Ratio} {k : Int} (hr : 0 < r.num) (h : 2 ^ k ≤ r.toRat) :
    k < r.binaryOrder := by
  have hhigh := (Ratio.binaryOrder_bounds hr).2
  exact (zpow_lt_zpow_iff_right₀ (by norm_num : (1 : ℚ) < 2)).mp (h.trans_lt hhigh)

/-- The step of a magnitude: its bits are those of the mantissa so many steps up. -/
theorem exists_step_unpack (bits : Nat) :
    ∃ step : Nat, (unpack bits).2 = leastExponent + step ∧ pack (unpack bits).1 step = bits ∧
      (unpack bits).1 < 2 ^ 53 ∧ (step = 0 ∨ 2 ^ 52 ≤ (unpack bits).1) := by
  have hparts := Nat.div_add_mod bits (2 ^ 52)
  have hmod := Nat.mod_lt bits (show 0 < 2 ^ 52 by decide)
  by_cases hfield : bits / 2 ^ 52 = 0
  · have hunpack : unpack bits = (bits % 2 ^ 52, leastExponent) := by
      rw [unpack_eq, if_pos hfield]
    rw [hunpack]
    refine ⟨0, (Int.add_zero _).symm, ?_, ?_, .inl rfl⟩
    · rw [pack_eq, Nat.zero_mul, Nat.zero_add]
      exact Nat.mod_eq_of_lt (by omega)
    · show bits % 2 ^ 52 < 2 ^ 53
      omega
  · have hunpack : unpack bits = (2 ^ 52 + bits % 2 ^ 52,
        leastExponent + ((bits / 2 ^ 52 - 1 : Nat) : Int)) := by
      rw [unpack_eq, if_neg hfield]
    rw [hunpack]
    exact ⟨bits / 2 ^ 52 - 1, rfl, by rw [pack_eq]; omega, by omega, .inr (by omega)⟩

-- Right below a power of two numbers round to it in steps of half the size.
theorem rounds_below_power {exponent : Int} {q : ℚ}
    (hlow : (2 ^ 54 - 1 : ℚ) * 2 ^ (exponent - 2) ≤ q) (hhigh : q < 2 ^ 54 * 2 ^ (exponent - 2)) :
    Rounds (2 ^ 53) (exponent - 1) q := by
  have hmarks : neighbourhood (2 ^ 53) (exponent - 1) = (4 * 2 ^ 53 - 2, 4 * 2 ^ 53 + 2) := by
    rw [neighbourhood_eq]
    rw [if_neg fun hnarrow => absurd hnarrow.1 (by decide)]
  have hhalf : (2 : ℚ) ^ (exponent - 2) = 2 * 2 ^ (exponent - 1 - 2) := by
    rw [← zpow_one_add₀ (by norm_num)]
    congr 1
    omega
  have hunit := two_zpow_pos (exponent - 1 - 2)
  rw [hhalf, ← mul_assoc] at hlow hhigh
  refine ⟨?_, ?_, fun hodd => absurd hodd (by decide)⟩
  · rw [hmarks]
    refine le_trans ?_ hlow
    rw [mul_le_mul_iff_of_pos_right hunit]
    norm_num
  · rw [hmarks]
    refine hhigh.le.trans ?_
    rw [mul_le_mul_iff_of_pos_right hunit]
    norm_num

-- A number in the interval of a double may take a smaller step only right below a power of two.
theorem power_of_lt {mantissa step : Nat} {q : ℚ} (h : Rounds mantissa (leastExponent + step) q)
    (hstep : step ≠ 0) (hleast : 2 ^ 52 ≤ mantissa)
    (hless : q < 2 ^ 54 * 2 ^ (leastExponent + step - 2)) :
    mantissa = 2 ^ 52 ∧ (2 ^ 54 - 1 : ℚ) * 2 ^ (leastExponent + step - 2) ≤ q := by
  have hquarter := two_zpow_pos (leastExponent + step - 2)
  have hmarks := (neighbourhood_bounds mantissa (leastExponent + step)).1
  have hlow := h.low
  have hpower : mantissa = 2 ^ 52 := by
    have hmark := lt_of_mul_lt_mul_right (hlow.trans_lt hless) hquarter.le
    have hnat : (neighbourhood mantissa (leastExponent + step)).1 < 2 ^ 54 := by
      exact_mod_cast hmark
    omega
  have hnarrow : (neighbourhood mantissa (leastExponent + step)).1 = 4 * mantissa - 1 := by
    rw [neighbourhood_eq]
    refine if_pos ⟨hpower, ?_⟩
    omega
  refine ⟨hpower, le_trans ?_ hlow⟩
  rw [hnarrow, hpower, mul_le_mul_iff_of_pos_right hquarter]
  norm_num

/-- Every number in the interval of a double rounds to that double. -/
theorem nearestBits_of_rounds {r : Ratio} {bits : Nat} (hpositive : 0 < (unpack bits).1)
    (hfinite : bits < infinityBits) (h : Rounds (unpack bits).1 (unpack bits).2 r.toRat) :
    nearestBits r = bits := by
  rcases exists_step_unpack bits with ⟨step, hexponent, hpack, hsmall, hnormal⟩
  rw [hexponent] at h
  generalize (unpack bits).1 = mantissa at *
  have hquarter := two_zpow_pos (leastExponent + step - 2)
  have hr : 0 < r.num := Ratio.num_pos_of_toRat_pos (h.pos hpositive)
  have hunits (k : Nat) : (2 : ℚ) ^ (leastExponent + step - 2 + k) =
      2 ^ k * 2 ^ (leastExponent + step - 2) := by
    rw [zpow_add₀ (by norm_num), zpow_natCast, mul_comm]
  have hbound : r.toRat < 2 ^ (leastExponent + step - 2 + (55 : Nat)) := by
    have hmantissa : (mantissa : ℚ) + 1 ≤ 2 ^ 53 := by exact_mod_cast hsmall
    have hsecond : ((neighbourhood mantissa (leastExponent + step)).2 : ℚ) = 4 * mantissa + 2 := by
      exact_mod_cast (neighbourhood_bounds mantissa (leastExponent + step)).2
    rw [hunits]
    refine lt_of_le_of_lt h.high ?_
    rw [hsecond, mul_lt_mul_iff_of_pos_right hquarter]
    linarith
  have hbelow := binaryOrder_le hr hbound
  by_cases hsame : step = 0 ∨ (2 : ℚ) ^ (leastExponent + step - 2 + (54 : Nat)) ≤ r.toRat
  · -- The number has the step of the double.
    have hstep : (r.binaryOrder - 53 - leastExponent).toNat = step := by
      rcases hsame with hzero | habove
      · omega
      · have hlarge := lt_binaryOrder hr habove
        omega
    rw [← hpack]
    exact nearestBits_of_step hr hstep (roundHalfEven_scaleTwo h) (by omega)
  · -- The double is a power of two, and the number is below it, where the step is one less.
    rcases not_or.mp hsame with ⟨hstep, hless⟩
    rw [not_le, hunits] at hless
    rcases power_of_lt h hstep (hnormal.resolve_left hstep) hless with ⟨hpower, hlow⟩
    have hdown : Rounds (2 ^ 53) (leastExponent + (step - 1 : Nat)) r.toRat := by
      rw [show leastExponent + ((step - 1 : Nat) : Int) = leastExponent + step - 1 by omega]
      exact rounds_below_power hlow hless
    have hlarge : r.binaryOrder = leastExponent + step + 52 := by
      have habove : 2 ^ (leastExponent + step - 2 + (53 : Nat)) ≤ r.toRat := by
        rw [hunits]
        refine le_trans ?_ hlow
        rw [mul_le_mul_iff_of_pos_right hquarter]
        norm_num
      rw [← hunits] at hless
      have hge := lt_binaryOrder hr habove
      have hle := binaryOrder_le hr hless
      omega
    have hlower : (r.binaryOrder - 53 - leastExponent).toNat = step - 1 := by omega
    have hbits : pack (2 ^ 53) (step - 1) = bits := by
      rw [← hpack, hpower]
      rw [pack_eq, pack_eq]
      omega
    rw [← hbits]
    exact nearestBits_of_step hr hlower (roundHalfEven_scaleTwo hdown) (by omega)

end Binary64

end Reckoner.Number
