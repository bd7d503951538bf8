import Mathlib.Analysis.SpecialFunctions.Pow.Real
import Reckoner.Number.Power
import Reckoner.Proofs.Number.Tests

/-!
# Power — the cases that a routine refuses

A power routine that refuses a pair of numbers says only whether the result is too large or there is
none. That is enough: from the signs of the base and the parity of the exponent the value is found that
the routine would have returned.
-/

namespace Reckoner.Number

open Binary64

/-! ## The routine -/

/-- What is known of the value `r` that a power routine has for two finite doubles. Nothing is asked of
it if one of the arguments is not finite, nor how near it comes to the power where that is in range. -/
structure IsPower (a b r : Float) : Prop where
  /-- A zero to a negative power is an infinity, positive unless the zero is negative and the exponent
  odd. -/
  pole {negative : Bool} {exponent : Int} {q : ℚ} : ofFloat a = .finite negative 0 exponent →
    (ofFloat b).toRat? = some q → q < 0 →
      ∃ sign, r = infinity sign ∧ (sign = true ↔ negative = true ∧ ∃ n : ℤ, Odd n ∧ q = n)
  /-- Any other power of zero is one or a zero. -/
  zero {q : ℚ} : (ofFloat a).toRat? = some 0 → (ofFloat b).toRat? = some q → 0 ≤ q →
    ∃ v, (ofFloat r).toRat? = some v
  /-- A negative number has no power with a fraction in the exponent. -/
  fraction {p q : ℚ} : (ofFloat a).toRat? = some p → (ofFloat b).toRat? = some q → p < 0 →
    (∀ n : ℤ, q ≠ n) → r = notANumber
  /-- All others have a power, and if it is too large, the result is the infinity of its sign. -/
  overflow {p q : ℚ} {sign : Bool} : (ofFloat a).toRat? = some p → (ofFloat b).toRat? = some q →
    p ≠ 0 → (p < 0 → ∃ n : ℤ, q = n) → r = infinity sign → (sign = true ↔ (p : ℝ) ^ (q : ℝ) < 0)

/-- A power is negative if the base is and the exponent is odd. -/
theorem rpow_neg_iff {p q : ℚ} (hbase : p ≠ 0) (hwhole : p < 0 → ∃ n : ℤ, q = n) :
    (p : ℝ) ^ (q : ℝ) < 0 ↔ p < 0 ∧ ∃ n : ℤ, Odd n ∧ q = n := by
  rcases lt_or_gt_of_ne hbase with hnegative | hpositive
  · obtain ⟨n, rfl⟩ := hwhole hnegative
    have hbelow : (p : ℝ) < 0 := by exact_mod_cast hnegative
    rw [Rat.cast_intCast, Real.rpow_intCast]
    rcases Int.even_or_odd n with heven | hodd
    · refine iff_of_false (heven.zpow_nonneg (p : ℝ)).not_gt ?_
      rintro ⟨-, m, hodd, hm⟩
      rw [Int.cast_injective hm] at heven
      exact Int.not_even_iff_odd.mpr hodd heven
    · exact iff_of_true (hodd.zpow_neg hbelow) ⟨hnegative, n, hodd, rfl⟩
  · have habove : (0 : ℝ) < p := by exact_mod_cast hpositive
    exact iff_of_false (Real.rpow_pos_of_pos habove _).not_gt fun h => h.1.not_gt hpositive

/-! ## A routine for whole exponents -/

/-- The power to a whole exponent that is not negative, rounded once. -/
def wholePower (a b : Float) : Float :=
  match ofFloat a, (ofFloat b).toInt? with
  | .finite negative mantissa exponent, some (.ofNat n) =>
    nearest (negative && n % 2 == 1) (magnitude (mantissa ^ n) (exponent * n))
  | _, _ => notANumber

theorem eq_of_nearest_eq_infinity {negative sign : Bool} {r : Ratio}
    (h : nearest negative r = infinity sign) : negative = sign := by
  have hmeaning := congrArg ofFloat h
  rw [ofFloat_infinity, nearest] at hmeaning
  by_cases hfinite : nearestBits r < infinityBits
  · rw [ofFloat_toFloat negative hfinite] at hmeaning
    exact nomatch hmeaning
  · obtain ⟨_, _, hbits, -⟩ := exists_nearestBits r
    rw [show nearestBits r = infinityBits by omega] at hmeaning
    exact Binary64.infinite.inj ((ofFloat_infinity negative).symm.trans hmeaning)

section

variable {a b : Float} {negative : Bool} {mantissa n : Nat} {exponent : Int}

theorem wholePower_eq (ha : ofFloat a = .finite negative mantissa exponent)
    (hb : (ofFloat b).toInt? = some (n : ℤ)) : wholePower a b =
      nearest (negative && n % 2 == 1) (magnitude (mantissa ^ n) (exponent * n)) := by
  rw [wholePower, ha, hb]

-- A power of zero is one or zero.
theorem exists_toRat?_wholePower (ha : ofFloat a = .finite negative 0 exponent)
    (hb : (ofFloat b).toInt? = some (n : ℤ)) :
    ∃ v, (ofFloat (wholePower a b)).toRat? = some v := by
  have hfinite : nearestBits (magnitude (0 ^ n) (exponent * n)) < infinityBits := by
    refine nearestBits_lt_infinityBits ?_
    rw [toRat_magnitude]
    rcases Nat.eq_zero_or_pos n with rfl | hpos
    · simpa using one_lt_pow₀ one_lt_two (by decide : 1023 ≠ 0)
    · simp [hpos.ne']
  rw [wholePower_eq ha hb, nearest, ofFloat_toFloat _ hfinite]
  exact ⟨_, rfl⟩

/-- What is asked of a power routine holds of this one, for all exponents that it is made for. -/
theorem isPower_wholePower (ha : ofFloat a = .finite negative mantissa exponent)
    (hb : (ofFloat b).toInt? = some (n : ℤ)) : IsPower a b (wholePower a b) := by
  have hn {q : ℚ} (hq : (ofFloat b).toRat? = some q) : q = n := by
    rw [toInt?_eq_some_iff.mp hb, Option.some.injEq] at hq
    exact hq.symm
  constructor
  case pole =>
    intro _ _ q _ hq hbelow
    rw [hn hq] at hbelow
    exact absurd hbelow (not_lt.mpr (Nat.cast_nonneg n))
  case zero =>
    intro q hzero _ _
    rw [ha, toRat?, Option.some.injEq, signed_eq_zero_iff] at hzero
    subst hzero
    exact exists_toRat?_wholePower ha hb
  case fraction =>
    intro p q _ hq _ hfraction
    exact absurd (hn hq) (hfraction n)
  case overflow =>
    intro p q sign hp hq hbase hwhole hinfinite
    rw [wholePower_eq ha hb] at hinfinite
    rw [ha, toRat?, Option.some.injEq] at hp
    rw [rpow_neg_iff hbase hwhole, ← eq_of_nearest_eq_infinity hinfinite, Bool.and_eq_true]
    rw [← hp, ne_eq, signed_eq_zero_iff] at hbase
    refine and_congr ?_ ?_
    · rw [← hp, signed_neg_iff, and_iff_left (Nat.pos_of_ne_zero hbase)]
    · rw [hn hq, beq_iff_eq, ← Nat.odd_iff, ← Int.odd_coe_nat]
      refine ⟨fun hodd => ⟨n, hodd, rfl⟩, ?_⟩
      rintro ⟨m, hodd, hm⟩
      rwa [← show (n : ℤ) = m from Int.cast_injective hm] at hodd

end

/-! ## Refused pairs -/

variable {raw : Float → Float → Float} {a b : Float} {p q : ℚ} {sign : Bool}

theorem isOdd_ofFloat_iff (hb : (ofFloat b).toRat? = some q) :
    (ofFloat b).isOdd = true ↔ ∃ n : ℤ, Odd n ∧ q = n := by
  simp only [isOdd_iff, hb, Option.some.injEq]

-- What is not refused is returned.
theorem powerBy_of_value (h : (a.isFinite && b.isFinite && !(raw a b).isFinite) = false) :
    powerBy raw a b = raw a b := by
  rw [powerBy, Attempt.ofRaw, if_neg (by rw [h]; exact Bool.false_ne_true)]

theorem ofRaw_of_not_isFinite {r : Float} (ha : (ofFloat a).toRat? = some p)
    (hb : (ofFloat b).toRat? = some q) (hr : r.isFinite = false) :
    Attempt.ofRaw a b r = if r.isInf && !(a == 0) then .tooLarge else .undefined := by
  rw [Attempt.ofRaw, isFinite_of_toRat? ha, isFinite_of_toRat? hb, hr]
  rfl

theorem ofRaw_infinity (ha : (ofFloat a).toRat? = some p) (hb : (ofFloat b).toRat? = some q) :
    Attempt.ofRaw a b (infinity sign) = if p = 0 then .undefined else .tooLarge := by
  have hinfinite : (infinity sign).isInf = true := (isInf_eq _).mpr ⟨sign, ofFloat_infinity sign⟩
  rw [ofRaw_of_not_isFinite ha hb (not_isFinite_infinity sign), hinfinite]
  by_cases hzero : p = 0
  · rw [if_pos hzero, (beq_zero_iff ha).mpr hzero]
    rfl
  · rw [if_neg hzero, Bool.eq_false_iff.mpr fun h => hzero ((beq_zero_iff ha).mp h)]
    rfl

theorem ofRaw_notANumber (ha : (ofFloat a).toRat? = some p) (hb : (ofFloat b).toRat? = some q) :
    Attempt.ofRaw a b notANumber = .undefined := by
  have hinfinite : ¬notANumber.isInf = true := by
    rw [isInf_eq, ofFloat_notANumber]
    exact nofun
  rw [ofRaw_of_not_isFinite ha hb not_isFinite_notANumber, Bool.eq_false_iff.mpr hinfinite]
  rfl

/-- A pole is found again from the sign bit of the zero and the parity of the exponent. -/
theorem powerBy_of_pole (ha : (ofFloat a).toRat? = some 0) (hb : (ofFloat b).toRat? = some q)
    (hraw : raw a b = infinity sign) (hsign : sign = true ↔ hasSign a = true ∧ ∃ n : ℤ, Odd n ∧ q = n) :
    powerBy raw a b = infinity sign := by
  rw [powerBy, hraw, ofRaw_infinity ha hb, if_pos rfl]
  simp only [(beq_zero_iff ha).mpr rfl, if_true]
  congr 1
  rw [Bool.eq_iff_iff, Bool.and_eq_true, isOdd_ofFloat_iff hb, hsign, and_comm]

/-- An overflow is found again from the sign of the base and the parity of the exponent. -/
theorem powerBy_of_overflow (ha : (ofFloat a).toRat? = some p) (hb : (ofFloat b).toRat? = some q)
    (hbase : p ≠ 0) (hraw : raw a b = infinity sign)
    (hsign : sign = true ↔ p < 0 ∧ ∃ n : ℤ, Odd n ∧ q = n) : powerBy raw a b = infinity sign := by
  rw [powerBy, hraw, ofRaw_infinity ha hb, if_neg hbase]
  show infinity _ = _
  congr 1
  rw [Bool.eq_iff_iff, Bool.and_eq_true, isOdd_ofFloat_iff hb, isBelowZero_iff ha, hsign]

theorem powerBy_of_undefined (ha : (ofFloat a).toRat? = some p) (hb : (ofFloat b).toRat? = some q)
    (hbase : p ≠ 0) (hraw : raw a b = notANumber) : powerBy raw a b = notANumber := by
  rw [powerBy, hraw, ofRaw_notANumber ha hb]
  exact if_neg fun h => hbase ((beq_zero_iff ha).mp h)

namespace IsPower

variable (h : IsPower a b (raw a b))

include h

/-- The infinity at a pole, with the sign bit for the sign of the zero. -/
theorem exists_pole (ha : (ofFloat a).toRat? = some 0) (hb : (ofFloat b).toRat? = some q)
    (hq : q < 0) :
    ∃ sign, raw a b = infinity sign ∧
      (sign = true ↔ hasSign a = true ∧ ∃ n : ℤ, Odd n ∧ q = n) := by
  obtain ⟨negative, mantissa, exponent, hmeaning, hzero⟩ := exists_finite_of_toRat? ha
  rw [eq_comm, signed_eq_zero_iff] at hzero
  subst hzero
  rw [hasSign_eq hmeaning]
  exact h.pole hmeaning hb hq

theorem overflow_iff (ha : (ofFloat a).toRat? = some p) (hb : (ofFloat b).toRat? = some q)
    (hbase : p ≠ 0) (hraw : raw a b = infinity sign) :
    sign = true ↔ p < 0 ∧ ∃ n : ℤ, Odd n ∧ q = n := by
  have hwhole (hp : p < 0) : ∃ n : ℤ, q = n := by
    by_contra hfraction
    exact infinity_ne_notANumber sign
      (hraw.symm.trans (h.fraction ha hb hp (not_exists.mp hfraction)))
  rw [h.overflow ha hb hbase hwhole hraw, rpow_neg_iff hbase hwhole]

/-- Where the routine refuses, its value is found again. -/
theorem powerBy_eq_raw_of_refused (ha : (ofFloat a).toRat? = some p)
    (hb : (ofFloat b).toRat? = some q) (hraw : (raw a b).isFinite = false) : powerBy raw a b = raw a b := by
  by_cases hbase : p = 0
  · subst hbase
    have hq : q < 0 := by
      by_contra hq
      obtain ⟨v, hv⟩ := h.zero ha hb (not_lt.mp hq)
      exact Bool.false_ne_true (hraw.symm.trans (isFinite_of_toRat? hv))
    obtain ⟨sign, hpole, hsign⟩ := h.exists_pole ha hb hq
    rw [powerBy_of_pole ha hb hpole hsign, hpole]
  · rcases eq_of_not_isFinite hraw with ⟨sign, hinfinite⟩ | hnone
    · rw [powerBy_of_overflow ha hb hbase hinfinite (h.overflow_iff ha hb hbase hinfinite), hinfinite]
    · rw [powerBy_of_undefined ha hb hbase hnone, hnone]

theorem powerBy_eq_raw : powerBy raw a b = raw a b := by
  by_cases hvalue : (a.isFinite && b.isFinite && !(raw a b).isFinite) = false
  · exact powerBy_of_value hvalue
  · simp only [Bool.not_eq_false, Bool.and_eq_true, Bool.not_eq_true'] at hvalue
    obtain ⟨⟨hafinite, hbfinite⟩, hraw⟩ := hvalue
    obtain ⟨p, ha⟩ := toRat?_of_isFinite hafinite
    obtain ⟨q, hb⟩ := toRat?_of_isFinite hbfinite
    exact h.powerBy_eq_raw_of_refused ha hb hraw

end IsPower

/-- The routine of the system has the values of a power routine, so `power` has its values. -/
theorem power_eq_pow (h : IsPower a b (a.pow b)) : power a b = a.pow b := h.powerBy_eq_raw

/-! ## The result -/

/-- Of any two doubles, the power is what the routine has for them, whether it says so or refuses. A
result too large is the negative infinity if and only if the base is negative and the exponent an odd
whole number; at a zero to a negative power the sign is that of the zero if the exponent is odd, and
positive otherwise; a negative base with a fraction in the exponent has no power. -/
theorem powerBy_eq (h : IsPower a b (raw a b)) :
    powerBy raw a b = raw a b ∧
      ∀ p q, (ofFloat a).toRat? = some p → (ofFloat b).toRat? = some q →
        (p ≠ 0 → ∀ sign, powerBy raw a b = infinity sign →
          (sign = true ↔ p < 0 ∧ ∃ n : ℤ, Odd n ∧ q = n)) ∧
        (p = 0 → q < 0 → ∃ sign, powerBy raw a b = infinity sign ∧
          (sign = true ↔ hasSign a = true ∧ ∃ n : ℤ, Odd n ∧ q = n)) ∧
        (p < 0 → (∀ n : ℤ, q ≠ n) → powerBy raw a b = notANumber) := by
  rw [h.powerBy_eq_raw]
  refine ⟨rfl, fun p q ha hb => ⟨fun hbase sign => h.overflow_iff ha hb hbase, ?_, h.fraction ha hb⟩⟩
  rintro rfl
  exact h.exists_pole ha hb

theorem powerBy_eq_overflow :
    IsPower (ofInt (-1000)) (ofInt 103) (wholePower (ofInt (-1000)) (ofInt 103)) ∧
      powerBy wholePower (ofInt (-1000)) (ofInt 103) = infinity true := by
  have ha : ofFloat (ofInt (-1000)) = .finite true 8796093022208000 (-43) := by decide +kernel
  have hb : (ofFloat (ofInt 103)).toInt? = some ((103 : Nat) : ℤ) := by decide +kernel
  refine ⟨isPower_wholePower ha hb, (powerBy_eq (isPower_wholePower ha hb)).1.trans ?_⟩
  show _ = toFloat true infinityBits
  rw [wholePower_eq ha hb, nearest, show nearestBits _ = infinityBits by decide +kernel]
  rfl

end Reckoner.Number
