import Mathlib
import Reckoner.Number.Power
import Reckoner.Proofs.Number.Correct

/-!
# Tests — asking a double what it is

Whether a double is finite, infinite, zero, negative or an odd whole number is asked of the double
itself. Each question is answered here from its meaning, that is from the sign and the rational number
that it stands for.
-/

namespace Reckoner.Number.Binary64

open Float.Model Float.Model.UnpackedFloat

/-! ## Taking apart -/

/-- The sign that a flag stands for. -/
def signOf (negative : Bool) : Sign := if negative then .negative else .positive

/-- A meaning as the arithmetic on doubles has it, with the zeros apart. -/
def unpacked : Binary64 → UnpackedFloat
  | .nan => .notANumber
  | .infinite negative => .infinity (signOf negative)
  | .finite negative mantissa exponent =>
    if h : 0 < mantissa then .finite (signOf negative) mantissa exponent h else .zero (signOf negative)

theorem toNat_unpackSign (w : Word) : (unpackSign w).toNat = w.toNat / 2 ^ 63 % 2 := by
  show (BitVec.extractLsb 63 63 w).toNat = _
  rw [BitVec.extractLsb_toNat, Nat.shiftRight_eq_div_pow]

theorem toNat_unpackExponent (w : Word) :
    (unpackExponent w).toNat = w.toNat / 2 ^ 52 % 2 ^ 11 := by
  show (BitVec.extractLsb 62 52 w).toNat = _
  rw [BitVec.extractLsb_toNat, Nat.shiftRight_eq_div_pow]

theorem toNat_unpackMantissa (w : Word) : (unpackMantissa w).toNat = w.toNat % 2 ^ 52 := by
  show (BitVec.extractLsb 51 0 w).toNat = _
  rw [BitVec.extractLsb_toNat, Nat.shiftRight_zero]

theorem ofBitVec_unpackSign (w : Word) :
    Sign.ofBitVec (unpackSign w) = signOf (decide (2 ^ 63 ≤ w.toNat)) := by
  have hword : w.toNat < 2 ^ 64 := w.isLt
  have hsign := toNat_unpackSign w
  unfold Sign.ofBitVec signOf
  by_cases hnegative : 2 ^ 63 ≤ w.toNat
  · rw [decide_eq_true hnegative, if_pos rfl, if_neg]
    intro hzero
    rw [hzero] at hsign
    change 0 = _ at hsign
    omega
  · rw [decide_eq_false hnegative, if_neg Bool.false_ne_true, if_pos]
    refine BitVec.eq_of_toNat_eq ?_
    show _ = 0
    omega

theorem unpacked_finite (negative : Bool) {mantissa : Nat} (exponent : Int) (h : 0 < mantissa) :
    (Binary64.finite negative mantissa exponent).unpacked =
      .finite (signOf negative) mantissa exponent h := dif_pos h

theorem unpacked_zero (negative : Bool) (exponent : Int) :
    (Binary64.finite negative 0 exponent).unpacked = .zero (signOf negative) := rfl

/-- What is taken out of a word is what its bits mean. -/
theorem unpack_word (w : Word) :
    UnpackedFloat.unpack Format.binary64 w = (ofBits w.toNat).unpacked := by
  have hword : w.toNat < 2 ^ 64 := w.isLt
  have hexponent := toNat_unpackExponent w
  have hmantissa := toNat_unpackMantissa w
  have hinfinity : infinityBits = 2047 * 2 ^ 52 := rfl
  unfold UnpackedFloat.unpack ofBits
  simp only [Nat.one_shiftLeft, ofBitVec_unpackSign]
  generalize decide (2 ^ 63 ≤ w.toNat) = negative
  by_cases hlast : unpackExponent w = -1#_
  · -- All bits of the exponent are set.
    have hfield : w.toNat / 2 ^ 52 % 2 ^ 11 = 2047 := by
      rw [← hexponent, hlast]
      rfl
    rw [if_pos hlast, if_neg (show ¬w.toNat % 2 ^ 63 < infinityBits by omega)]
    by_cases hzero : unpackMantissa w = 0#_
    · have hnone : w.toNat % 2 ^ 52 = 0 := by
        rw [← hmantissa, hzero]
        rfl
      rw [if_pos hzero, if_pos (show w.toNat % 2 ^ 63 = infinityBits by omega)]
      rfl
    · have hsome := toNat_ne_zero hzero
      rw [hmantissa] at hsome
      rw [if_neg hzero, if_neg (show w.toNat % 2 ^ 63 ≠ infinityBits by omega)]
      rfl
  · have hfield : w.toNat / 2 ^ 52 % 2 ^ 11 ≠ 2047 := by
      rw [← hexponent]
      exact fun heq => hlast (BitVec.eq_of_toNat_eq heq)
    rw [if_neg hlast, if_pos (show w.toNat % 2 ^ 63 < infinityBits by omega), unpack_eq]
    by_cases hfirst : unpackExponent w = 0#_
    · have hnone : w.toNat / 2 ^ 52 % 2 ^ 11 = 0 := by
        rw [← hexponent, hfirst]
        rfl
      have hsame : w.toNat % 2 ^ 63 % 2 ^ 52 = (unpackMantissa w).toNat := by omega
      rw [if_pos hfirst, if_pos (show w.toNat % 2 ^ 63 / 2 ^ 52 = 0 by omega), hsame]
      by_cases hzero : unpackMantissa w = 0#_
      · rw [dif_pos hzero, hzero]
        rfl
      · rw [dif_neg hzero, unpacked_finite _ _ (Nat.pos_of_ne_zero (toNat_ne_zero hzero))]
        congr 1
        rw [hexponent, hnone]
        rfl
    · have hsome : w.toNat / 2 ^ 52 % 2 ^ 11 ≠ 0 := by
        rw [← hexponent]
        exact toNat_ne_zero hfirst
      have hone : (1#1 ++ unpackMantissa w).toNat = 2 ^ 52 + (unpackMantissa w).toNat := by
        rw [BitVec.toNat_append]
        exact (Nat.shiftLeft_add_eq_or_of_lt (unpackMantissa w).isLt 1).symm
      rw [if_neg hfirst, if_neg (show w.toNat % 2 ^ 63 / 2 ^ 52 ≠ 0 by omega),
        unpacked_finite _ _ (Nat.lt_of_lt_of_le (Nat.two_pow_pos 52) (Nat.le_add_right _ _))]
      congr 1
      · omega
      · rw [hexponent]
        show _ - ((1023 : Int) + 52) = -1074 + _
        omega

/-- A double is taken apart to what it means. -/
theorem unpack_toModel (x : Float) : x.toModel.unpack = (ofFloat x).unpacked :=
  unpack_word x.toBits.toBitVec

/-! ## Kinds of doubles -/

theorem isFinite_eq (x : Float) : x.isFinite = (ofFloat x).isFinite := by
  show x.toModel.unpack.isFinite = _
  rw [unpack_toModel]
  cases ofFloat x with
  | nan => rfl
  | infinite => rfl
  | finite negative mantissa exponent =>
    cases mantissa with
    | zero => rfl
    | succ mantissa => rw [unpacked_finite _ _ (Nat.succ_pos mantissa)]; rfl

theorem isInf_eq (x : Float) : x.isInf = true ↔ ∃ negative, ofFloat x = .infinite negative := by
  show x.toModel.unpack.isInf = true ↔ _
  rw [unpack_toModel]
  cases ofFloat x with
  | nan => simp [unpacked, UnpackedFloat.isInf]
  | infinite => simp [unpacked, UnpackedFloat.isInf]
  | finite negative mantissa exponent =>
    cases mantissa with
    | zero => simp [unpacked_zero, UnpackedFloat.isInf]
    | succ mantissa => simp [unpacked_finite _ _ (Nat.succ_pos mantissa), UnpackedFloat.isInf]

theorem ofFloat_infinity (negative : Bool) : ofFloat (infinity negative) = .infinite negative := by
  cases negative <;> decide +kernel

theorem ofFloat_notANumber : ofFloat notANumber = .nan := by decide +kernel

theorem eq_infinity_of_ofFloat {x : Float} {negative : Bool} (h : ofFloat x = .infinite negative) :
    x = infinity negative := by
  rcases ofFloat_cases x with ⟨_, _, -, -, hx⟩ | ⟨_, rfl, hx⟩ | ⟨rfl, hx⟩ <;> rw [h] at hx <;> cases hx
  rfl

theorem eq_notANumber_of_ofFloat {x : Float} (h : ofFloat x = .nan) : x = notANumber := by
  rcases ofFloat_cases x with ⟨_, _, -, -, hx⟩ | ⟨_, rfl, hx⟩ | ⟨rfl, hx⟩ <;> rw [h] at hx <;> cases hx

theorem not_isFinite_infinity (sign : Bool) : (infinity sign).isFinite = false := by
  rw [isFinite_eq, ofFloat_infinity]
  rfl

theorem not_isFinite_notANumber : notANumber.isFinite = false := by
  rw [isFinite_eq, ofFloat_notANumber]
  rfl

theorem infinity_ne_notANumber (sign : Bool) : infinity sign ≠ notANumber := by
  intro heq
  have hmeaning := ofFloat_infinity sign
  rw [heq, ofFloat_notANumber] at hmeaning
  exact nomatch hmeaning

theorem eq_of_not_isFinite {x : Float} (h : x.isFinite = false) :
    (∃ sign, x = infinity sign) ∨ x = notANumber := by
  rw [isFinite_eq] at h
  cases hx : ofFloat x with
  | nan => exact .inr (eq_notANumber_of_ofFloat hx)
  | infinite sign => exact .inl ⟨sign, eq_infinity_of_ofFloat hx⟩
  | finite => rw [hx] at h; exact nomatch h

/-! ## Signs and zeros -/

variable {x : Float} {p : ℚ}

theorem exists_finite_of_toRat? (h : (ofFloat x).toRat? = some p) :
    ∃ negative mantissa exponent, ofFloat x = .finite negative mantissa exponent ∧
      p = signed negative (mantissa * 2 ^ exponent) := by
  cases hx : ofFloat x with
  | nan => rw [hx] at h; exact nomatch h
  | infinite => rw [hx] at h; exact nomatch h
  | finite negative mantissa exponent =>
    rw [hx, toRat?, Option.some.injEq] at h
    exact ⟨negative, mantissa, exponent, rfl, h.symm⟩

theorem isFinite_of_toRat? (h : (ofFloat x).toRat? = some p) : x.isFinite = true := by
  obtain ⟨_, _, _, hx, -⟩ := exists_finite_of_toRat? h
  rw [isFinite_eq, hx]
  rfl

theorem toRat?_of_isFinite {x : Float} (h : x.isFinite = true) :
    ∃ p, (ofFloat x).toRat? = some p := by
  rw [isFinite_eq] at h
  cases hx : ofFloat x with
  | nan => rw [hx] at h; exact nomatch h
  | infinite => rw [hx] at h; exact nomatch h
  | finite => exact ⟨_, rfl⟩

theorem signed_eq_zero_iff {negative : Bool} {mantissa : Nat} {exponent : Int} :
    signed negative (mantissa * 2 ^ exponent) = 0 ↔ mantissa = 0 := by
  have hunit := (two_zpow_pos exponent).ne'
  cases negative <;> simp [signed, hunit]

theorem signed_neg_iff {negative : Bool} {mantissa : Nat} {exponent : Int} :
    signed negative (mantissa * 2 ^ exponent) < 0 ↔ negative = true ∧ 0 < mantissa := by
  have hunit := two_zpow_pos exponent
  cases negative with
  | false => simpa [signed] using mul_nonneg (Nat.cast_nonneg mantissa) hunit.le
  | true => simp [signed, mul_pos_iff_of_pos_right hunit]

-- Both zeros are equal to zero, and nothing else is.
theorem beq_zero_iff (h : (ofFloat x).toRat? = some p) : (x == 0) = true ↔ p = 0 := by
  obtain ⟨negative, mantissa, exponent, hx, rfl⟩ := exists_finite_of_toRat? h
  show x.toModel.unpack.beq (.zero .positive) = true ↔ _
  rw [unpack_toModel, hx, signed_eq_zero_iff]
  cases mantissa with
  | zero => exact iff_of_true rfl rfl
  | succ mantissa =>
    rw [unpacked_finite _ _ (Nat.succ_pos mantissa)]
    cases negative <;> exact iff_of_false Bool.false_ne_true (Nat.succ_ne_zero mantissa)

theorem isBelowZero_iff (h : (ofFloat x).toRat? = some p) : isBelowZero x = true ↔ p < 0 := by
  obtain ⟨negative, mantissa, exponent, hx, rfl⟩ := exists_finite_of_toRat? h
  rw [isBelowZero, decide_eq_true_eq]
  show decide (x.toModel.unpack.lt (.zero .positive) = true) = true ↔ _
  rw [decide_eq_true_eq, unpack_toModel, hx, signed_neg_iff]
  cases mantissa with
  | zero => cases negative <;> simp [unpacked_zero, UnpackedFloat.lt, UnpackedFloat.compare]
  | succ mantissa =>
    rw [unpacked_finite _ _ (Nat.succ_pos mantissa)]
    cases negative <;> simp [signOf, UnpackedFloat.lt, UnpackedFloat.compare]

theorem hasSign_eq {negative : Bool} {mantissa : Nat} {exponent : Int}
    (h : ofFloat x = .finite negative mantissa exponent) : hasSign x = negative := by
  unfold ofFloat ofBits at h
  simp only at h
  split at h
  · cases h
    rfl
  · split at h <;> exact nomatch h

/-! ## Whole numbers -/

theorem toRat_eq_natCast_iff {r : Ratio} {k : Nat} :
    r.toRat = k ↔ r.num % r.den = 0 ∧ r.num / r.den = k := by
  rw [Ratio.toRat, div_eq_iff r.den_cast_pos.ne', ← Nat.cast_mul, Nat.cast_inj]
  constructor
  · intro h
    rw [h]
    exact ⟨Nat.mul_mod_left k r.den, Nat.mul_div_cancel k r.den_pos⟩
  · rintro ⟨hrest, rfl⟩
    exact (Nat.div_mul_cancel (Nat.dvd_of_mod_eq_zero hrest)).symm

/-- A double is the whole number that it is taken for. -/
theorem toInt?_eq_some_iff {v : Binary64} {n : ℤ} :
    v.toInt? = some n ↔ v.toRat? = some (n : ℚ) := by
  cases v with
  | nan => exact iff_of_false nofun nofun
  | infinite => exact iff_of_false nofun nofun
  | finite negative mantissa exponent =>
    simp only [toInt?, toRat?, ← toRat_magnitude]
    generalize magnitude mantissa exponent = r
    by_cases hwhole : r.num % r.den = 0
    · rw [if_pos hwhole, toRat_eq_natCast_iff.mpr ⟨hwhole, rfl⟩, Option.some.injEq, Option.some.injEq,
        ← Int.cast_inj (α := ℚ)]
      generalize r.num / r.den = k
      cases negative <;> simp [signed]
    · rw [if_neg hwhole]
      refine iff_of_false (Option.some_ne_none n).symm fun h => hwhole ?_
      have hvalue : signed negative r.toRat = n := by simpa using h
      have habs := abs_signed negative r.toRat
      have hnonneg : 0 ≤ r.toRat := div_nonneg (Nat.cast_nonneg _) (Nat.cast_nonneg _)
      rw [hvalue, abs_of_nonneg hnonneg, ← Int.cast_abs, ← Nat.cast_natAbs] at habs
      exact (toRat_eq_natCast_iff.mp habs.symm).1

theorem isOdd_iff {v : Binary64} : v.isOdd = true ↔ ∃ n : ℤ, Odd n ∧ v.toRat? = some (n : ℚ) := by
  simp only [← toInt?_eq_some_iff, Int.odd_iff]
  unfold isOdd
  cases v.toInt? <;> simp

end Reckoner.Number.Binary64
