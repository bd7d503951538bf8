import Reckoner.Proofs.Number.Bits
import Reckoner.Proofs.Number.Shortest

/-!
# Correct — numbers read as the nearest double

No finite double is nearer to a decimal number than the one that it reads as, and if another one is
as near, the mantissa of the chosen one is even. The doubles that have to be compared with are
points of the grid of its last place, or they are below all numbers with so many digits.
-/

namespace Reckoner.Number

/-! ## Rounding to whole numbers -/

namespace Ratio

theorem abs_roundHalfEven_sub_le (r : Ratio) : |(r.roundHalfEven : ℚ) - r.toRat| ≤ 1 / 2 := by
  obtain ⟨hlow, hhigh⟩ := r.roundHalfEven_near
  have hden := r.den_cast_pos
  have hnum : r.toRat * r.den = r.num := div_mul_cancel₀ _ hden.ne'
  have hlow' : (2 * r.num : ℚ) ≤ (2 * r.roundHalfEven + 1) * r.den := by exact_mod_cast hlow
  have hhigh' : (2 * r.roundHalfEven * r.den : ℚ) ≤ 2 * r.num + r.den := by exact_mod_cast hhigh
  rw [← hnum] at hlow' hhigh'
  rw [abs_le]
  constructor <;> nlinarith

theorem le_roundHalfEven {r : Ratio} {n : Nat} (h : n ≤ r.toRat) : n ≤ r.roundHalfEven := by
  have hnear := abs_le.mp r.abs_roundHalfEven_sub_le
  have hlt : (n : ℚ) < (r.roundHalfEven + 1 : Nat) := by
    push_cast
    linarith
  exact Nat.lt_succ_iff.mp (Nat.cast_lt.mp hlt)

theorem roundHalfEven_le {r : Ratio} {n : Nat} (h : r.toRat ≤ n) : r.roundHalfEven ≤ n := by
  have hnear := abs_le.mp r.abs_roundHalfEven_sub_le
  have hlt : (r.roundHalfEven : ℚ) < (n + 1 : Nat) := by
    push_cast
    linarith
  exact Nat.lt_succ_iff.mp (Nat.cast_lt.mp hlt)

-- Half way between two whole numbers the even one is taken.
theorem roundHalfEven_even {r : Ratio} (h : |(r.roundHalfEven : ℚ) - r.toRat| = 1 / 2) :
    r.roundHalfEven % 2 = 0 := by
  by_contra hodd
  -- The even number on the other side would have been taken.
  rcases (abs_eq (by norm_num)).mp h with hbelow | habove
  · have hcast : ((r.roundHalfEven - 1 : Nat) : ℚ) = r.roundHalfEven - 1 := by
      rw [Nat.cast_sub (by omega), Nat.cast_one]
    have hother : r.roundHalfEven = r.roundHalfEven - 1 :=
      roundHalfEven_eq_of_toRat (by rw [hcast]; linarith) (by rw [hcast]; linarith)
        fun hmod => absurd hmod (by omega)
    omega
  · have hother : r.roundHalfEven = r.roundHalfEven + 1 :=
      roundHalfEven_eq_of_toRat (by push_cast; linarith) (by push_cast; linarith)
        fun hmod => absurd hmod (by omega)
    omega

/-- The rounded number is the nearest whole number, and the even one of two. -/
theorem roundHalfEven_nearest (r : Ratio) (k : ℤ) :
    |(r.roundHalfEven : ℚ) - r.toRat| ≤ |(k : ℚ) - r.toRat| ∧
      (|(k : ℚ) - r.toRat| = |(r.roundHalfEven : ℚ) - r.toRat| → (k : ℚ) ≠ r.roundHalfEven →
        r.roundHalfEven % 2 = 0) := by
  have hhalf := r.abs_roundHalfEven_sub_le
  by_cases hsame : k = r.roundHalfEven
  · subst hsame
    exact ⟨le_of_eq (by push_cast; rfl), fun _ hne => absurd (by push_cast; rfl) hne⟩
  · have hapart : (1 : ℚ) ≤ |(k : ℚ) - r.roundHalfEven| := by
      have hint : (1 : ℤ) ≤ |k - r.roundHalfEven| := Int.one_le_abs (sub_ne_zero.mpr hsame)
      exact_mod_cast hint
    have htriangle := abs_sub_le (k : ℚ) r.toRat r.roundHalfEven
    rw [abs_sub_comm r.toRat] at htriangle
    refine ⟨by linarith, fun htie _ => roundHalfEven_even (by linarith)⟩

/-- In any unit, a number is rounded to the nearest one of the whole multiples and of what is below
them, and to the even one of two. -/
theorem roundHalfEven_nearest_unit (r : Ratio) {unit w : ℚ} (hunit : 0 < unit) (least : ℤ)
    (hw : (∃ k : ℤ, w = k * unit) ∨ w < least * unit ∧ least * unit ≤ r.toRat * unit) :
    |r.roundHalfEven * unit - r.toRat * unit| ≤ |w - r.toRat * unit| ∧
      (|w - r.toRat * unit| = |r.roundHalfEven * unit - r.toRat * unit| →
        w ≠ r.roundHalfEven * unit → r.roundHalfEven % 2 = 0) := by
  have hdistance (q : ℚ) : |q * unit - r.toRat * unit| = |q - r.toRat| * unit := by
    rw [← sub_mul, abs_mul, abs_of_pos hunit]
  rcases hw with ⟨k, rfl⟩ | ⟨hless, hbelow⟩
  · obtain ⟨hnear, htie⟩ := r.roundHalfEven_nearest k
    rw [hdistance, hdistance, mul_le_mul_iff_of_pos_right hunit]
    refine ⟨hnear, fun heq hne => htie (mul_right_cancel₀ hunit.ne' heq) fun hsame => hne ?_⟩
    rw [hsame]
  · -- The least multiple is nearer than what is below all of them.
    have hleast := (r.roundHalfEven_nearest least).1
    rw [← mul_le_mul_iff_of_pos_right hunit, ← hdistance, ← hdistance,
      abs_of_nonpos (show least * unit - r.toRat * unit ≤ 0 by linarith)] at hleast
    rw [abs_of_nonpos (show w - r.toRat * unit ≤ 0 by linarith)]
    exact ⟨by linarith, fun heq => absurd heq (by linarith)⟩

end Ratio

namespace Binary64

open Decimal

/-! ## Doubles as rational numbers -/

/-- A number with a sign. -/
def signed (negative : Bool) (q : ℚ) : ℚ := if negative then -q else q

/-- The rational number that a finite double is. -/
def toRat? : Binary64 → Option ℚ
  | .finite negative mantissa exponent => some (signed negative (mantissa * 2 ^ exponent))
  | _ => none

/-- A double is the one nearest to a number with a sign: it has the sign, no finite double is
nearer, and if another one is as near, its mantissa is even. -/
def IsNearest (negative : Bool) (q : ℚ) (x : Float) : Prop :=
  ∃ mantissa exponent, ofFloat x = .finite negative mantissa exponent ∧
    ∀ y w, (ofFloat y).toRat? = some w →
      |signed negative (mantissa * 2 ^ exponent) - signed negative q| ≤ |w - signed negative q| ∧
        (|w - signed negative q| = |signed negative (mantissa * 2 ^ exponent) - signed negative q| →
          w ≠ signed negative (mantissa * 2 ^ exponent) → mantissa % 2 = 0)

theorem abs_signed (negative : Bool) (q : ℚ) : |signed negative q| = |q| := by
  cases negative <;> simp [signed]

theorem signed_sub (negative : Bool) (a b : ℚ) :
    signed negative (a - b) = signed negative a - signed negative b := by
  cases negative <;> simp [signed]; ring

theorem signed_signed (negative : Bool) (q : ℚ) : signed negative (signed negative q) = q := by
  cases negative <;> simp [signed]

/-- All finite doubles are whole numbers of places with at most 53 binary digits. -/
theorem exists_of_toRat? {y : Float} {w : ℚ} (h : (ofFloat y).toRat? = some w) :
    ∃ (negative : Bool) (mantissa step : Nat), mantissa < 2 ^ 53 ∧
      w = signed negative (mantissa * 2 ^ (leastExponent + step)) := by
  rcases ofFloat_cases y with ⟨negative, bits, -, -, hmeaning⟩ | ⟨_, -, hmeaning⟩ | ⟨-, hmeaning⟩
  · obtain ⟨step, hexponent, -, hsmall, -⟩ := exists_step_unpack bits
    rw [hmeaning, toRat?, hexponent] at h
    exact ⟨negative, _, step, hsmall, (Option.some.inj h).symm⟩
  · rw [hmeaning] at h
    exact nomatch h
  · rw [hmeaning] at h
    exact nomatch h

/-! ## Points of the grid of a place -/

/-- A number is a point of the grid of a place, or below all numbers of 53 binary digits there. -/
def OnGrid (step : Nat) (w : ℚ) : Prop :=
  (∃ k : ℤ, w = k * 2 ^ (leastExponent + step)) ∨
    (step ≠ 0 ∧ |w| < 2 ^ 52 * 2 ^ (leastExponent + step))

theorem OnGrid.signed {step : Nat} {w : ℚ} (h : OnGrid step w) (negative : Bool) :
    OnGrid step (signed negative w) := by
  rcases h with ⟨k, rfl⟩ | ⟨hstep, hsmall⟩
  · refine .inl ⟨if negative then -k else k, ?_⟩
    cases negative <;> simp [Binary64.signed]
  · exact .inr ⟨hstep, by rwa [abs_signed]⟩

theorem onGrid_of_toRat? {y : Float} {w : ℚ} (h : (ofFloat y).toRat? = some w) (step : Nat) :
    OnGrid step w := by
  obtain ⟨negative, mantissa, step', hsmall, rfl⟩ := exists_of_toRat? h
  refine OnGrid.signed ?_ negative
  by_cases hle : step ≤ step'
  · refine .inl ⟨mantissa * 2 ^ (step' - step), ?_⟩
    have hsplit : (2 : ℚ) ^ (leastExponent + step') =
        2 ^ (step' - step) * 2 ^ (leastExponent + step) := by
      rw [← zpow_natCast, ← zpow_add₀ (by norm_num)]
      congr 1
      omega
    rw [hsplit]
    push_cast
    ring
  · refine .inr ⟨by omega, ?_⟩
    have hunit := two_zpow_pos (leastExponent + step')
    have hcast : (mantissa : ℚ) < 2 ^ 53 := by exact_mod_cast hsmall
    rw [abs_of_nonneg (by positivity)]
    calc (mantissa : ℚ) * 2 ^ (leastExponent + step') < 2 ^ 53 * 2 ^ (leastExponent + step') := by
          rwa [mul_lt_mul_iff_of_pos_right hunit]
      _ = 2 ^ 52 * 2 ^ (leastExponent + step' + 1) := by
          rw [zpow_add_one₀ (by norm_num)]
          ring
      _ ≤ 2 ^ 52 * 2 ^ (leastExponent + step) := by
          have hpowers : (2 : ℚ) ^ (leastExponent + step' + 1) ≤ 2 ^ (leastExponent + step) :=
            zpow_le_zpow_right₀ (by norm_num) (by omega)
          exact mul_le_mul_of_nonneg_left hpowers (by norm_num)

variable {r : Ratio} {step mantissa : Nat}

/-- A number is rounded to the nearest one of those on the grid or below it, and to the even one of
two. -/
theorem nearest_onGrid {w : ℚ}
    (hround : (r.scaleTwo (-(leastExponent + step))).roundHalfEven = mantissa)
    (hlarge : step ≠ 0 → 2 ^ 52 * 2 ^ (leastExponent + step) ≤ r.toRat) (hw : OnGrid step w) :
    |mantissa * 2 ^ (leastExponent + step) - r.toRat| ≤ |w - r.toRat| ∧
      (|w - r.toRat| = |mantissa * 2 ^ (leastExponent + step) - r.toRat| →
        w ≠ mantissa * 2 ^ (leastExponent + step) → mantissa % 2 = 0) := by
  rw [← Ratio.toRat_scaleTwo_neg r (leastExponent + step), ← hround]
  refine Ratio.roundHalfEven_nearest_unit _ (two_zpow_pos _) (2 ^ 52) ?_
  rcases hw with hgrid | ⟨hstep, hsmall⟩
  · exact .inl hgrid
  · rw [Ratio.toRat_scaleTwo_neg, Int.cast_pow, Int.cast_ofNat]
    exact .inr ⟨(abs_lt.mp hsmall).2, hlarge hstep⟩

/-! ## The bits of a rounded number -/

/-- The mantissa and the step of the double that a number is rounded to. -/
theorem exists_nearestBits (r : Ratio) :
    ∃ mantissa step, nearestBits r = min (pack mantissa step) infinityBits ∧
      (r.scaleTwo (-(leastExponent + step))).roundHalfEven = mantissa ∧ mantissa ≤ 2 ^ 53 ∧
      r.toRat < 2 ^ 53 * 2 ^ (leastExponent + step) ∧
      (step ≠ 0 → 2 ^ 52 ≤ mantissa ∧ 2 ^ 52 * 2 ^ (leastExponent + step) ≤ r.toRat) := by
  unfold nearestBits
  by_cases hzero : r.num = 0
  · have hr : r.toRat = 0 := by rw [Ratio.toRat, hzero, Nat.cast_zero, zero_div]
    have hvalue : (r.scaleTwo (-(leastExponent + (0 : Nat)))).toRat = 0 := by
      rw [Ratio.toRat_scaleTwo, hr, zero_mul]
    refine ⟨0, 0, by rw [if_pos hzero]; rfl, ?_, by decide, ?_, fun h => absurd rfl h⟩
    · exact Ratio.roundHalfEven_eq_of_toRat (by rw [hvalue]; norm_num) (by rw [hvalue]; norm_num)
        fun h => absurd h (by decide)
    · rw [hr]
      exact mul_pos (by norm_num) (two_zpow_pos _)
  rw [if_neg hzero]
  simp only
  obtain ⟨hlow, hhigh⟩ := Ratio.binaryOrder_bounds (Nat.pos_of_ne_zero hzero)
  generalize hstep : (r.binaryOrder - 53 - leastExponent).toNat = step
  have hunit := two_zpow_pos (leastExponent + step)
  have hscaled := Ratio.toRat_scaleTwo_neg r (leastExponent + step)
  have hpowers (k : Nat) : (2 : ℚ) ^ (leastExponent + step + k) =
      2 ^ k * 2 ^ (leastExponent + step) := by
    rw [zpow_add₀ (by norm_num), zpow_natCast, mul_comm]
  have habove : r.toRat < 2 ^ 53 * 2 ^ (leastExponent + step) := by
    rw [← hpowers]
    exact hhigh.trans_le (zpow_le_zpow_right₀ (by norm_num) (by omega))
  refine ⟨_, step, rfl, rfl, ?_, habove, fun hpositive => ?_⟩
  · rw [← hscaled, mul_lt_mul_iff_of_pos_right hunit] at habove
    exact Ratio.roundHalfEven_le (by exact_mod_cast habove.le)
  · have hbelow : 2 ^ 52 * 2 ^ (leastExponent + step) ≤ r.toRat := by
      rw [← hpowers]
      exact (zpow_le_zpow_right₀ (by norm_num) (by omega)).trans hlow
    refine ⟨?_, hbelow⟩
    rw [← hscaled, mul_le_mul_iff_of_pos_right hunit] at hbelow
    exact Ratio.le_roundHalfEven (by exact_mod_cast hbelow)

-- What the bits of a mantissa and a step stand for.
theorem unpack_pack (hsmall : mantissa ≤ 2 ^ 53) (hnormal : step ≠ 0 → 2 ^ 52 ≤ mantissa) :
    unpack (pack mantissa step) =
      if mantissa = 2 ^ 53 then (2 ^ 52, leastExponent + (step + 1 : Nat))
      else (mantissa, leastExponent + step) := by
  rw [pack_eq, unpack_eq]
  by_cases hcarry : mantissa = 2 ^ 53
  · rw [if_pos hcarry, if_neg (by omega)]
    refine Prod.ext ?_ ?_
    · show 2 ^ 52 + (step * 2 ^ 52 + mantissa) % 2 ^ 52 = 2 ^ 52
      omega
    · show leastExponent + (((step * 2 ^ 52 + mantissa) / 2 ^ 52 - 1 : Nat) : Int) = _
      omega
  rw [if_neg hcarry]
  by_cases hsubnormal : mantissa < 2 ^ 52
  · have hstep : step = 0 := by
      by_contra hne
      exact absurd (hnormal hne) (by omega)
    rw [if_pos (by omega), hstep]
    refine Prod.ext ?_ (by simp)
    show (0 * 2 ^ 52 + mantissa) % 2 ^ 52 = mantissa
    omega
  · rw [if_neg (by omega)]
    refine Prod.ext ?_ ?_
    · show 2 ^ 52 + (step * 2 ^ 52 + mantissa) % 2 ^ 52 = mantissa
      omega
    · show leastExponent + (((step * 2 ^ 52 + mantissa) / 2 ^ 52 - 1 : Nat) : Int) = _
      omega

theorem toRat_unpack_pack (hsmall : mantissa ≤ 2 ^ 53) (hnormal : step ≠ 0 → 2 ^ 52 ≤ mantissa) :
    ((unpack (pack mantissa step)).1 : ℚ) * 2 ^ (unpack (pack mantissa step)).2 =
        mantissa * 2 ^ (leastExponent + step) ∧
      (mantissa % 2 = 0 → (unpack (pack mantissa step)).1 % 2 = 0) := by
  rw [unpack_pack hsmall hnormal]
  split
  · rename_i hcarry
    refine ⟨?_, fun _ => by norm_num⟩
    rw [hcarry, Nat.cast_add, Nat.cast_one, ← add_assoc, zpow_add_one₀ (by norm_num)]
    push_cast
    ring
  · exact ⟨rfl, id⟩

/-- A number that is not rounded to infinity is rounded to the nearest double. -/
theorem isNearest_nearest (negative : Bool) (hfinite : nearestBits r < infinityBits) :
    IsNearest negative r.toRat (nearest negative r) := by
  obtain ⟨mantissa, step, hbits, hround, hsmall, -, hnormal⟩ := exists_nearestBits r
  have hpack : nearestBits r = pack mantissa step := by omega
  obtain ⟨hvalue, heven⟩ := toRat_unpack_pack hsmall fun h => (hnormal h).1
  refine ⟨_, _, ofFloat_toFloat negative hfinite, fun y w hw => ?_⟩
  -- Whether both numbers are compared with their signs or without makes no difference.
  have hdistance : |w - signed negative r.toRat| = |signed negative w - r.toRat| := by
    rw [← abs_signed negative, signed_sub, signed_signed]
  obtain ⟨hnear, htie⟩ := nearest_onGrid hround (fun h => (hnormal h).2)
    ((onGrid_of_toRat? hw step).signed negative)
  rw [hpack, hvalue, ← signed_sub, abs_signed, hdistance]
  refine ⟨hnear, fun heq hne => heven (htie heq fun hsame => hne ?_)⟩
  rw [← hsame, signed_signed]

/-! ## Very large and very small numbers -/

theorem nearestBits_eq_infinityBits (h : (2 : ℚ) ^ (1024 : Int) ≤ r.toRat) :
    nearestBits r = infinityBits := by
  obtain ⟨mantissa, step, hbits, -, -, habove, hnormal⟩ := exists_nearestBits r
  have hpower : (2 : ℚ) ^ (1024 : Int) < 2 ^ ((53 : Nat) + (leastExponent + step)) := by
    rw [zpow_add₀ (by norm_num), zpow_natCast]
    exact h.trans_lt habove
  have hstep := (zpow_lt_zpow_iff_right₀ (by norm_num)).mp hpower
  have hleast : leastExponent = -1074 := rfl
  have hmantissa := (hnormal (by omega)).1
  rw [hbits, pack_eq]
  refine Nat.min_eq_right ?_
  show 2047 * 2 ^ 52 ≤ _
  omega

theorem nearestBits_lt_infinityBits (h : r.toRat < (2 : ℚ) ^ (1023 : Int)) :
    nearestBits r < infinityBits := by
  obtain ⟨mantissa, step, hbits, -, hsmall, -, hnormal⟩ := exists_nearestBits r
  have hstep : step ≤ 2044 := by
    by_contra hlarge
    have hpower : (2 : ℚ) ^ ((52 : Nat) + (leastExponent + step)) < 2 ^ (1023 : Int) := by
      rw [zpow_add₀ (by norm_num), zpow_natCast]
      exact (hnormal (by omega)).2.trans_lt h
    have hless := (zpow_lt_zpow_iff_right₀ (by norm_num)).mp hpower
    have hleast : leastExponent = -1074 := rfl
    omega
  have hpack : pack mantissa step < infinityBits := by
    rw [pack_eq]
    show _ < 2047 * 2 ^ 52
    omega
  omega

theorem nearestBits_eq_zero (h : r.toRat < (2 : ℚ) ^ (-1076 : Int)) : nearestBits r = 0 := by
  obtain ⟨mantissa, step, hbits, hround, -, -, hnormal⟩ := exists_nearestBits r
  have hleast : leastExponent = -1074 := rfl
  have hstep : step = 0 := by
    by_contra hne
    have hpower : (2 : ℚ) ^ ((52 : Nat) + (leastExponent + step)) < 2 ^ (-1076 : Int) := by
      rw [zpow_add₀ (by norm_num), zpow_natCast]
      exact (hnormal hne).2.trans_lt h
    have hless := (zpow_lt_zpow_iff_right₀ (by norm_num)).mp hpower
    omega
  subst hstep
  -- The number is less than a quarter of the least place.
  have hscaled : (r.scaleTwo (-(leastExponent + (0 : Nat)))).toRat < 1 / 4 := by
    rw [← mul_lt_mul_iff_of_pos_right (two_zpow_pos (leastExponent + (0 : Nat))),
      Ratio.toRat_scaleTwo_neg]
    refine h.trans_eq ?_
    rw [show leastExponent + ((0 : Nat) : Int) = -1076 + 2 by omega, zpow_add₀ (by norm_num)]
    generalize (2 : ℚ) ^ (-1076 : Int) = least
    ring
  have hhalf := abs_le.mp (r.scaleTwo (-(leastExponent + (0 : Nat)))).abs_roundHalfEven_sub_le
  rw [hround] at hhalf
  have hless : (mantissa : ℚ) < 1 := by linarith
  have hzero : mantissa = 0 := Nat.lt_one_iff.mp (by exact_mod_cast hless)
  rw [hbits, hzero]
  rfl

end Binary64

namespace Decimal

/-! ## Decimal numbers -/

/-- The limits up to which powers of ten are computed change nothing. -/
theorem nearestBits_eq (d : Decimal) : d.nearestBits = Binary64.nearestBits d.value := by
  unfold nearestBits
  by_cases hdigits : d.digits = 0
  · have hzero : d.value.toRat = 0 := by
      rw [toRat_value, toRat, hdigits, Nat.cast_zero, zero_mul]
    rw [if_pos hdigits]
    refine (Binary64.nearestBits_eq_zero ?_).symm
    rw [hzero]
    exact Binary64.two_zpow_pos _
  rw [if_neg hdigits]
  simp only
  obtain ⟨hlow, hhigh⟩ := order_bounds (d := d) (Nat.pos_of_ne_zero hdigits)
  rw [← toRat_value] at hlow hhigh
  split
  · rename_i horder
    refine (Binary64.nearestBits_eq_infinityBits (two_zpow_lt_ten_zpow.le.trans ?_)).symm
    exact (zpow_le_zpow_right₀ (by norm_num) (by omega)).trans hlow
  split
  · rename_i horder
    refine (Binary64.nearestBits_eq_zero (lt_trans ?_ ten_zpow_lt_two_zpow)).symm
    exact hhigh.trans_le (zpow_le_zpow_right₀ (by norm_num) (by omega))
  · rfl

/-- A decimal number reads as the nearest double. -/
theorem isNearest_toFloat (negative : Bool) {d : Decimal} (h : d.toRat < (2 : ℚ) ^ (1023 : Int)) :
    Binary64.IsNearest negative d.toRat (d.toFloat negative) := by
  rw [← toRat_value] at h ⊢
  rw [toFloat, nearestBits_eq]
  exact Binary64.isNearest_nearest negative (Binary64.nearestBits_lt_infinityBits h)

end Decimal

end Reckoner.Number
