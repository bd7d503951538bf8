import Mathlib.Algebra.Order.Field.Power
import Mathlib.Algebra.Order.Ring.Unbundled.Rat
import Mathlib.Tactic.FieldSimp
import Mathlib.Tactic.Linarith
import Mathlib.Tactic.NormNum
import Mathlib.Tactic.Ring
import Reckoner.Number.Decimal

/-!
# Exact — quotients as rational numbers

What the operations on quotients do to the rational numbers that they stand for. Scaling multiplies by
a power of the base. Rounding yields the whole number that is at most a half away, the even one of
two. The order says between which two powers of the base a positive number lies.
-/

namespace Reckoner.Number

namespace Ratio

/-- The rational number. -/
def toRat (r : Ratio) : ℚ := (r.num : ℚ) / r.den

theorem den_cast_pos (r : Ratio) : (0 : ℚ) < r.den := Nat.cast_pos.mpr r.den_pos

theorem toRat_ofNat (n : Nat) : (ofNat n).toRat = n := by
  rw [toRat, ofNat, Nat.cast_one, div_one]

theorem toRat_pos {r : Ratio} (h : 0 < r.num) : 0 < r.toRat :=
  div_pos (Nat.cast_pos.mpr h) r.den_cast_pos

theorem num_pos_of_toRat_pos {r : Ratio} (h : 0 < r.toRat) : 0 < r.num := by
  by_contra hzero
  rw [toRat, Nat.eq_zero_of_not_pos hzero, Nat.cast_zero, zero_div] at h
  exact lt_irrefl _ h

theorem toRat_scale {base : Nat} (hbase : 0 < base) (k : Int) (r : Ratio) :
    (r.scale base hbase k).toRat = r.toRat * (base : ℚ) ^ k := by
  have hcast : (base : ℚ) ≠ 0 := Nat.cast_ne_zero.mpr (by omega)
  have hden : (r.den : ℚ) ≠ 0 := r.den_cast_pos.ne'
  have hcore (n : Nat) : ((base.pow n : Nat) : ℚ) = (base : ℚ) ^ n := Nat.cast_pow base n
  unfold scale
  by_cases hk : 0 ≤ k
  · have hpow : (base : ℚ) ^ k = (base : ℚ) ^ k.toNat := by
      rw [← zpow_natCast, Int.toNat_of_nonneg hk]
    rw [if_pos hk, toRat, toRat, Nat.cast_mul, hcore, hpow]
    field_simp
  · have hpow : (base : ℚ) ^ k = ((base : ℚ) ^ (-k).toNat)⁻¹ := by
      rw [← zpow_natCast, Int.toNat_of_nonneg (by omega), zpow_neg, inv_inv]
    rw [if_neg hk, toRat, toRat, Nat.cast_mul, hcore, hpow]
    field_simp

theorem toRat_scaleTwo (k : Int) (r : Ratio) : (r.scaleTwo k).toRat = r.toRat * 2 ^ k :=
  toRat_scale (by decide) k r

theorem toRat_scaleTen (k : Int) (r : Ratio) : (r.scaleTen k).toRat = r.toRat * 10 ^ k :=
  toRat_scale (by decide) k r

-- Scaled down and up again.
theorem toRat_scaleTwo_neg (r : Ratio) (k : Int) : (r.scaleTwo (-k)).toRat * 2 ^ k = r.toRat := by
  rw [toRat_scaleTwo, mul_assoc, ← zpow_add₀ (by norm_num), neg_add_cancel, zpow_zero, mul_one]

theorem toRat_scaleTen_neg (r : Ratio) (k : Int) : (r.scaleTen (-k)).toRat * 10 ^ k = r.toRat := by
  rw [toRat_scaleTen, mul_assoc, ← zpow_add₀ (by norm_num), neg_add_cancel, zpow_zero, mul_one]

/-! ## Rounding -/

-- A whole number that is less than a half away, or exactly a half and even, is the nearest one.
theorem roundHalfEven_eq {r : Ratio} {n : Nat} (hlow : 2 * n * r.den ≤ 2 * r.num + r.den)
    (hhigh : 2 * r.num ≤ (2 * n + 1) * r.den)
    (hodd : n % 2 = 1 → 2 * n * r.den ≠ 2 * r.num + r.den ∧ 2 * r.num ≠ (2 * n + 1) * r.den) :
    r.roundHalfEven = n := by
  have hparts : r.den * (r.num / r.den) + r.num % r.den = r.num := Nat.div_add_mod r.num r.den
  have hsmall : r.num % r.den < r.den := Nat.mod_lt r.num r.den_pos
  have hpos := r.den_pos
  unfold roundHalfEven
  generalize r.num / r.den = whole at hparts ⊢
  generalize r.num % r.den = rest at hparts hsmall ⊢
  generalize r.num = num at *
  generalize r.den = den at *
  -- The whole part is the number itself or the one before it.
  have hle : whole ≤ n := by
    by_contra hgt
    have hstep : den * (n + 1) ≤ den * whole := Nat.mul_le_mul_left den (by omega)
    have hexpand : den * (n + 1) = n * den + den := by rw [Nat.mul_succ, Nat.mul_comm]
    have hdouble : (2 * n + 1) * den = 2 * (n * den) + den := by
      rw [Nat.add_mul, Nat.one_mul, Nat.mul_assoc]
    omega
  have hge : n ≤ whole + 1 := by
    by_contra hgt
    have hstep : den * (whole + 2) ≤ den * n := Nat.mul_le_mul_left den (by omega)
    have hexpand : den * (whole + 2) = den * whole + den * 2 := Nat.mul_add den whole 2
    have hdouble : 2 * n * den = 2 * (den * n) := by rw [Nat.mul_assoc, Nat.mul_comm n]
    omega
  have hlowered : 2 * n * den = 2 * (den * n) := by rw [Nat.mul_assoc, Nat.mul_comm n]
  have hraised : (2 * n + 1) * den = 2 * (den * n) + den := by
    rw [Nat.add_mul, Nat.one_mul, hlowered]
  rw [hlowered] at hlow hodd
  rw [hraised] at hhigh hodd
  by_cases hsame : whole = n
  · subst hsame
    show (if 2 * rest < den then whole
      else if 2 * rest = den then whole + whole % 2 else whole + 1) = whole
    split
    · rfl
    · split
      · have heven : whole % 2 ≠ 1 := fun h => (hodd h).2 (by omega)
        omega
      · omega
  · have hnext : n = whole + 1 := by omega
    subst hnext
    have hexpand : den * (whole + 1) = den * whole + den := Nat.mul_succ den whole
    show (if 2 * rest < den then whole
      else if 2 * rest = den then whole + whole % 2 else whole + 1) = whole + 1
    split
    · omega
    · split
      · have heven : (whole + 1) % 2 ≠ 1 := fun h => (hodd h).1 (by omega)
        omega
      · rfl

-- The same for the rational number.
theorem roundHalfEven_eq_of_toRat {r : Ratio} {n : Nat} (hlow : (n : ℚ) - 1 / 2 ≤ r.toRat)
    (hhigh : r.toRat ≤ (n : ℚ) + 1 / 2)
    (hodd : n % 2 = 1 → (n : ℚ) - 1 / 2 < r.toRat ∧ r.toRat < (n : ℚ) + 1 / 2) :
    r.roundHalfEven = n := by
  have hden := r.den_cast_pos
  have hnum : r.toRat * r.den = r.num := div_mul_cancel₀ _ hden.ne'
  have hscale : ∀ q : ℚ, q ≤ r.toRat ↔ q * r.den ≤ r.num := fun q => by
    rw [← hnum, mul_le_mul_iff_of_pos_right hden]
  have hscale' : ∀ q : ℚ, r.toRat ≤ q ↔ r.num ≤ q * r.den := fun q => by
    rw [← hnum, mul_le_mul_iff_of_pos_right hden]
  have hstrict : ∀ q : ℚ, q < r.toRat ↔ q * r.den < r.num := fun q => by
    rw [← hnum, mul_lt_mul_iff_of_pos_right hden]
  have hstrict' : ∀ q : ℚ, r.toRat < q ↔ r.num < q * r.den := fun q => by
    rw [← hnum, mul_lt_mul_iff_of_pos_right hden]
  rw [hscale] at hlow
  rw [hscale'] at hhigh
  rw [hstrict, hstrict'] at hodd
  refine roundHalfEven_eq ?_ ?_ fun h => ⟨fun heq => ?_, fun heq => ?_⟩
  · have hcast : ((2 * n * r.den : Nat) : ℚ) ≤ ((2 * r.num + r.den : Nat) : ℚ) := by
      push_cast
      linarith
    exact_mod_cast hcast
  · have hcast : ((2 * r.num : Nat) : ℚ) ≤ (((2 * n + 1) * r.den : Nat) : ℚ) := by
      push_cast
      linarith
    exact_mod_cast hcast
  · have hcast : ((2 * n * r.den : Nat) : ℚ) = ((2 * r.num + r.den : Nat) : ℚ) := by rw [heq]
    push_cast at hcast
    linarith [(hodd h).1]
  · have hcast : ((2 * r.num : Nat) : ℚ) = (((2 * n + 1) * r.den : Nat) : ℚ) := by rw [heq]
    push_cast at hcast
    linarith [(hodd h).2]

/-! ## Order of magnitude -/

/-- What the number of digits in a base says of a positive number. -/
def IsSize (base : Nat) (size : Nat → Nat) : Prop :=
  ∀ n, 0 < n → base ^ (size n - 1) ≤ n ∧ n < base ^ size n

end Ratio

theorem isSize_decimalSize : Ratio.IsSize 10 decimalSize := by
  intro n hn
  have hlength := Nat.length_toDigits_pos (b := 10) (n := n)
  unfold decimalSize
  rw [if_neg (by omega)]
  constructor
  · by_contra hlt
    have hsmall : 0 < (Nat.toDigits 10 n).length - 1 := by
      by_contra hzero
      rw [show (Nat.toDigits 10 n).length - 1 = 0 by omega, Nat.pow_zero] at hlt
      omega
    have hshorter := (Nat.length_toDigits_le_iff (by decide) hsmall).mpr (Nat.lt_of_not_le hlt)
    omega
  · exact (Nat.length_toDigits_le_iff (by decide) hlength).mp le_rfl

theorem isSize_binarySize : Ratio.IsSize 2 binarySize := by
  intro n hn
  unfold binarySize
  rw [if_neg (by omega)]
  exact ⟨Nat.log2_self_le (by omega), Nat.lt_log2_self⟩

namespace Ratio

theorem IsSize.pos {base : Nat} {size : Nat → Nat} (h : IsSize base size) {n : Nat} (hn : 0 < n) :
    0 < size n := by
  by_contra hzero
  have hlt := (h n hn).2
  rw [show size n = 0 by omega, Nat.pow_zero] at hlt
  omega

theorem orderBy_bounds {base : Nat} (hbase : 0 < base) {size : Nat → Nat} (hsize : IsSize base size)
    {r : Ratio} (hr : 0 < r.num) :
    (base : ℚ) ^ (r.orderBy size - 1) ≤ r.toRat ∧ r.toRat < (base : ℚ) ^ r.orderBy size := by
  have hden := r.den_cast_pos
  have hcast : (0 : ℚ) < base := Nat.cast_pos.mpr hbase
  have hdenpos := r.den_pos
  unfold orderBy
  by_cases hwhole : r.den ≤ r.num
  · have hquotient : 0 < r.num / r.den := Nat.div_pos hwhole hdenpos
    have hspos := hsize.pos hquotient
    obtain ⟨hlow, hhigh⟩ := hsize _ hquotient
    generalize hs : size (r.num / r.den) = s at *
    have hbelow : base ^ (s - 1) * r.den ≤ r.num :=
      (Nat.le_div_iff_mul_le hdenpos).mp hlow
    have habove : r.num < base ^ s * r.den := (Nat.div_lt_iff_lt_mul hdenpos).mp hhigh
    rw [if_pos hwhole, show ((s : Int) - 1) = ((s - 1 : Nat) : Int) by omega, zpow_natCast,
      zpow_natCast, toRat, le_div_iff₀ hden, div_lt_iff₀ hden]
    exact ⟨by exact_mod_cast hbelow, by exact_mod_cast habove⟩
  · have hinverse : 0 < (r.den - 1) / r.num := Nat.div_pos (by omega) hr
    obtain ⟨hlow, hhigh⟩ := hsize _ hinverse
    have hspos := hsize.pos hinverse
    generalize hs : size ((r.den - 1) / r.num) = s at *
    have hbelow : base ^ (s - 1) * r.num ≤ r.den - 1 := (Nat.le_div_iff_mul_le hr).mp hlow
    have habove : r.den - 1 < base ^ s * r.num := (Nat.div_lt_iff_lt_mul hr).mp hhigh
    have hlow' : (r.den : ℚ) ≤ r.num * (base : ℚ) ^ s := by
      have hnat : r.den ≤ r.num * base ^ s := by
        rw [Nat.mul_comm]
        omega
      exact_mod_cast hnat
    have hhigh' : r.num * (base : ℚ) ^ (s - 1) < r.den := by
      have hnat : r.num * base ^ (s - 1) < r.den := by
        rw [Nat.mul_comm]
        omega
      exact_mod_cast hnat
    rw [if_neg hwhole, show 1 - (s : Int) - 1 = -(s : Int) by omega,
      show 1 - (s : Int) = -((s - 1 : Nat) : Int) by omega, zpow_neg, zpow_neg, zpow_natCast,
      zpow_natCast, toRat]
    constructor
    · rw [inv_le_iff_one_le_mul₀ (by positivity), div_mul_eq_mul_div, le_div_iff₀ hden, one_mul]
      exact hlow'
    · have hpos : (0 : ℚ) < r.num / r.den := toRat_pos hr
      rw [lt_inv_comm₀ hpos (by positivity), inv_div, lt_div_iff₀ (by exact_mod_cast hr), mul_comm]
      exact hhigh'

theorem decimalOrder_bounds {r : Ratio} (hr : 0 < r.num) :
    (10 : ℚ) ^ (r.decimalOrder - 1) ≤ r.toRat ∧ r.toRat < (10 : ℚ) ^ r.decimalOrder :=
  orderBy_bounds (show 0 < 10 by decide) isSize_decimalSize hr

theorem binaryOrder_bounds {r : Ratio} (hr : 0 < r.num) :
    (2 : ℚ) ^ (r.binaryOrder - 1) ≤ r.toRat ∧ r.toRat < (2 : ℚ) ^ r.binaryOrder :=
  orderBy_bounds (show 0 < 2 by decide) isSize_binarySize hr

end Ratio

end Reckoner.Number
