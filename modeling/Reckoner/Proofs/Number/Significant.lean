import Reckoner.Proofs.Number.Correct

/-!
# Significant — rounding to a number of significant digits

The rounding of a positive number to so many significant digits is the nearest number that has no more
of them, and of two equally near ones the one whose last digit is even. There is one, and only one.
Rounding up to the next power of ten gives a number with one digit more, which is written with its last
zero in the exponent.
-/

namespace Reckoner.Number.Decimal

variable {count : Nat} {q : ℚ} {c d : Decimal} {r : Ratio}

/-! ## Numbers with so many digits -/

/-- The rounding of a positive number to so many significant digits. -/
structure IsRounding (count : Nat) (q : ℚ) (d : Decimal) : Prop where
  least : 10 ^ (count - 1) ≤ d.digits
  below : d.digits < 10 ^ count
  /-- No number with as many digits or fewer is nearer. -/
  nearest (c : Decimal) : c.digits < 10 ^ count → |d.toRat - q| ≤ |c.toRat - q|
  /-- If another one is as near, the last digit is even. -/
  even (c : Decimal) : c.digits < 10 ^ count → c.toRat ≠ d.toRat →
    |c.toRat - q| = |d.toRat - q| → d.digits % 2 = 0

theorem toRat_lt_of_exponent_lt (hcount : 0 < count) (hc : c.digits < 10 ^ count)
    (hd : 10 ^ (count - 1) ≤ d.digits) (h : c.exponent < d.exponent) : c.toRat < d.toRat := by
  have hunit := ten_zpow_pos c.exponent
  have hdigits : (c.digits : ℚ) < 10 ^ count := by exact_mod_cast hc
  have hleast : (10 ^ (count - 1) : ℚ) ≤ d.digits := by exact_mod_cast hd
  have hpower : (10 : ℚ) ^ (c.exponent + 1) ≤ 10 ^ d.exponent :=
    zpow_le_zpow_right₀ (by norm_num) (by omega)
  calc (c.digits : ℚ) * 10 ^ c.exponent < 10 ^ count * 10 ^ c.exponent :=
        mul_lt_mul_of_pos_right hdigits hunit
    _ = 10 ^ (count - 1) * 10 ^ (c.exponent + 1) := by
        rw [zpow_add_one₀ (by norm_num), ← Nat.sub_add_cancel hcount, pow_succ, Nat.add_sub_cancel]
        ring
    _ ≤ d.digits * 10 ^ d.exponent :=
        mul_le_mul hleast hpower (ten_zpow_pos _).le (Nat.cast_nonneg _)

-- A number is a whole multiple of a unit of any place further down.
theorem toRat_eq_multiple {place : Int} (h : place ≤ c.exponent) :
    c.toRat = (c.digits * 10 ^ (c.exponent - place).toNat : Nat) * 10 ^ place := by
  rw [toRat]
  push_cast
  rw [mul_assoc, ← zpow_natCast, ← zpow_add₀ (by norm_num)]
  congr 2
  omega

/-! ## Carrying -/

/-- A number that was rounded up to the next power of ten, with its last zero in the exponent. -/
def carried (count : Nat) (d : Decimal) : Decimal :=
  if d.digits = 10 ^ count then ⟨10 ^ (count - 1), d.exponent + 1⟩ else d

theorem toRat_carried (hcount : 0 < count) (d : Decimal) : (d.carried count).toRat = d.toRat := by
  unfold carried
  by_cases hcarry : d.digits = 10 ^ count
  · rw [if_pos hcarry, toRat, toRat, hcarry, zpow_add_one₀ (by norm_num)]
    obtain ⟨k, rfl⟩ := Nat.exists_eq_add_of_lt hcount
    rw [Nat.add_sub_cancel, pow_succ]
    push_cast
    ring
  · rw [if_neg hcarry]

theorem le_carried (hd : 10 ^ (count - 1) ≤ d.digits) :
    10 ^ (count - 1) ≤ (d.carried count).digits := by
  unfold carried
  split
  · exact le_rfl
  · exact hd

theorem carried_lt (hcount : 0 < count) (hd : d.digits ≤ 10 ^ count) :
    (d.carried count).digits < 10 ^ count := by
  unfold carried
  split
  · exact Nat.pow_lt_pow_right (by decide) (by omega)
  · omega

-- A power of ten is even.
theorem carried_even (hcount : 2 ≤ count) (hd : d.digits % 2 = 0) :
    (d.carried count).digits % 2 = 0 := by
  unfold carried
  split
  · show 10 ^ (count - 1) % 2 = 0
    rw [show count - 1 = count - 2 + 1 by omega, pow_succ]
    omega
  · exact hd

/-- The next number with so many digits. -/
theorem exists_next (hcount : 0 < count) (hd : d.digits < 10 ^ count) :
    ∃ c : Decimal, c.digits < 10 ^ count ∧ c.toRat = d.toRat + 10 ^ d.exponent := by
  refine ⟨carried count ⟨d.digits + 1, d.exponent⟩, carried_lt hcount hd, ?_⟩
  rw [toRat_carried hcount, toRat, toRat]
  push_cast
  ring

/-- The number before with so many digits. -/
theorem exists_previous (hpos : 0 < d.digits) (hd : d.digits < 10 ^ count) :
    ∃ c : Decimal, c.digits < 10 ^ count ∧ c.toRat = d.toRat - 10 ^ d.exponent := by
  refine ⟨⟨d.digits - 1, d.exponent⟩, (Nat.sub_le _ _).trans_lt hd, ?_⟩
  rw [toRat, toRat, Nat.cast_sub hpos]
  push_cast
  ring

/-! ## The rounding -/

namespace IsRounding

theorem digits_pos (h : d.IsRounding count q) : 0 < d.digits :=
  (Nat.pow_pos (by decide)).trans_le h.least

theorem order (h : d.IsRounding count q) :
    (10 : ℚ) ^ (d.exponent + (count - 1 : Nat)) ≤ d.toRat ∧
      d.toRat < 10 ^ (d.exponent + count) := by
  have hunit := ten_zpow_pos d.exponent
  have hleast : (10 ^ (count - 1) : ℚ) ≤ d.digits := by exact_mod_cast h.least
  have hbelow : (d.digits : ℚ) < 10 ^ count := by exact_mod_cast h.below
  rw [zpow_add₀ (by norm_num), zpow_add₀ (by norm_num), zpow_natCast, zpow_natCast, mul_comm,
    mul_comm (10 ^ d.exponent : ℚ)]
  exact ⟨mul_le_mul_of_nonneg_right hleast hunit.le, mul_lt_mul_of_pos_right hbelow hunit⟩

/-- A number is rounded by half a unit of the last digit at most. -/
theorem abs_sub_le (h : d.IsRounding count q) (hcount : 0 < count) :
    |d.toRat - q| ≤ 10 ^ d.exponent / 2 := by
  have hunit := ten_zpow_pos d.exponent
  by_contra hfar
  rw [not_le] at hfar
  rcases le_total d.toRat q with hle | hle
  · -- The next number would be nearer.
    obtain ⟨c, hdigits, hc⟩ := exists_next hcount h.below
    have hnear := h.nearest c hdigits
    rw [abs_of_nonpos (sub_nonpos.mpr hle)] at hfar hnear
    rcases le_abs.mp hnear with hcase | hcase <;> linarith
  · -- The one before would be nearer.
    obtain ⟨c, hdigits, hc⟩ := exists_previous h.digits_pos h.below
    have hnear := h.nearest c hdigits
    rw [abs_of_nonneg (sub_nonneg.mpr hle)] at hfar hnear
    rcases le_abs.mp hnear with hcase | hcase <;> linarith

-- Two different numbers with even last digits do not follow one another.
theorem next_lt (hc : c.IsRounding count q) (hd : d.IsRounding count q) (hcount : 0 < count)
    (hceven : c.digits % 2 = 0) (hdeven : d.digits % 2 = 0) (hlt : c.toRat < d.toRat) :
    c.toRat + 10 ^ c.exponent < d.toRat := by
  have hunit := ten_zpow_pos c.exponent
  have hexponent : c.exponent ≤ d.exponent := by
    by_contra hbelow
    exact absurd hlt (toRat_lt_of_exponent_lt hcount hd.below hc.least (not_le.mp hbelow)).not_gt
  have hmultiple := toRat_eq_multiple hexponent
  -- In units of the smaller number the greater one is even, too.
  have heven : d.digits * 10 ^ (d.exponent - c.exponent).toNat % 2 = 0 := by
    rw [Nat.mul_mod, hdeven, Nat.zero_mul, Nat.zero_mod]
  generalize d.digits * 10 ^ (d.exponent - c.exponent).toNat = k at hmultiple heven
  rw [hmultiple, toRat] at hlt ⊢
  rw [mul_lt_mul_iff_of_pos_right hunit, Nat.cast_lt] at hlt
  have hnext : ((c.digits + 1 : Nat) : ℚ) < k := Nat.cast_lt.mpr (by omega)
  push_cast at hnext
  rw [← add_one_mul]
  exact mul_lt_mul_of_pos_right hnext hunit

theorem not_toRat_lt (hc : c.IsRounding count q) (hd : d.IsRounding count q) (hcount : 0 < count) :
    ¬c.toRat < d.toRat := by
  intro hlt
  have hsame : |c.toRat - q| = |d.toRat - q| :=
    le_antisymm (hc.nearest d hd.below) (hd.nearest c hc.below)
  have hceven := hc.even d hd.below hlt.ne' hsame.symm
  have hdeven := hd.even c hc.below hlt.ne hsame
  have hbetween := hc.next_lt hd hcount hceven hdeven hlt
  obtain ⟨b, hdigits, hb⟩ := exists_next hcount hc.below
  have hunit := ten_zpow_pos c.exponent
  have hnear := hc.nearest b hdigits
  -- Both are as far away, so the number in between is nearer.
  rcases abs_eq_abs.mp hsame with heq | heq
  · linarith
  · rw [abs_of_nonpos (by linarith)] at hnear
    have hless : |b.toRat - q| < -(c.toRat - q) := abs_lt.mpr ⟨by linarith, by linarith⟩
    linarith

theorem unique (hc : c.IsRounding count q) (hd : d.IsRounding count q) (hcount : 0 < count) :
    c = d := by
  have hvalue : c.toRat = d.toRat :=
    le_antisymm (not_lt.mp (hd.not_toRat_lt hc hcount)) (not_lt.mp (hc.not_toRat_lt hd hcount))
  have hexponent : c.exponent = d.exponent := by
    rcases lt_trichotomy c.exponent d.exponent with hlt | heq | hgt
    · exact absurd hvalue (toRat_lt_of_exponent_lt hcount hc.below hd.least hlt).ne
    · exact heq
    · exact absurd hvalue.symm (toRat_lt_of_exponent_lt hcount hd.below hc.least hgt).ne
  have hdigits : c.digits = d.digits := by
    rw [toRat, toRat, hexponent] at hvalue
    exact_mod_cast mul_right_cancel₀ (ten_zpow_pos d.exponent).ne' hvalue
  cases c
  cases d
  simp only [Decimal.mk.injEq]
  exact ⟨hdigits, hexponent⟩

end IsRounding

/-! ## The digits that are chosen -/

-- At the place of the last digit, a positive number has so many digits before the point.
theorem scaleTen_bounds (hcount : 0 < count) (hr : 0 < r.num) :
    (10 : ℚ) ^ (count - 1) ≤ (r.scaleTen (-(r.decimalOrder - count))).toRat ∧
      (r.scaleTen (-(r.decimalOrder - count))).toRat < 10 ^ count := by
  obtain ⟨hlow, hhigh⟩ := Ratio.decimalOrder_bounds hr
  have hpower (x : Int) (k : Nat) (hx : x - (r.decimalOrder - count) = k) :
      (10 : ℚ) ^ x * 10 ^ (-(r.decimalOrder - count)) = 10 ^ k := by
    rw [← zpow_add₀ (by norm_num), ← zpow_natCast]
    congr 1
  rw [Ratio.toRat_scaleTen, ← hpower (r.decimalOrder - 1) (count - 1) (by omega),
    ← hpower r.decimalOrder count (by omega)]
  exact ⟨mul_le_mul_of_nonneg_right hlow (ten_zpow_pos _).le,
    mul_lt_mul_of_pos_right hhigh (ten_zpow_pos _)⟩

-- Other numbers of so many digits are whole multiples of a unit of the last one, or too small.
theorem multiple_or_lt (hcount : 0 < count) (hc : c.digits < 10 ^ count) (place : Int) :
    (∃ k : ℤ, c.toRat = k * 10 ^ place) ∨ c.toRat < 10 ^ (count - 1) * 10 ^ place := by
  by_cases hplace : place ≤ c.exponent
  · exact .inl ⟨_, by rw [toRat_eq_multiple hplace, Int.cast_natCast]⟩
  · have hless := toRat_lt_of_exponent_lt (d := ⟨10 ^ (count - 1), place⟩) hcount hc le_rfl
      (not_le.mp hplace)
    rw [toRat.eq_def ⟨10 ^ (count - 1), place⟩, Nat.cast_pow] at hless
    exact .inr hless

theorem nearest_rounded (hcount : 0 < count) (hr : 0 < r.num) (hc : c.digits < 10 ^ count) :
    |(rounded count r).toRat - r.toRat| ≤ |c.toRat - r.toRat| ∧
      (|c.toRat - r.toRat| = |(rounded count r).toRat - r.toRat| →
        c.toRat ≠ (rounded count r).toRat → (rounded count r).digits % 2 = 0) := by
  have hunit := ten_zpow_pos (r.decimalOrder - count)
  rw [← r.toRat_scaleTen_neg (r.decimalOrder - count)]
  refine Ratio.roundHalfEven_nearest_unit _ hunit (10 ^ (count - 1)) ?_
  rcases multiple_or_lt hcount hc (r.decimalOrder - count) with hgrid | hless
  · exact .inl hgrid
  · push_cast
    exact .inr ⟨hless, mul_le_mul_of_nonneg_right (scaleTen_bounds hcount hr).1 hunit.le⟩

/-- The digits that are chosen are those of the rounding. -/
theorem isRounding_rounded (hcount : 2 ≤ count) (hr : 0 < r.num) :
    ((rounded count r).carried count).IsRounding count r.toRat := by
  have hpos : 0 < count := by omega
  obtain ⟨hlow, hhigh⟩ := scaleTen_bounds hpos hr
  have hleast : 10 ^ (count - 1) ≤ (rounded count r).digits :=
    Ratio.le_roundHalfEven (by exact_mod_cast hlow)
  have hmost : (rounded count r).digits ≤ 10 ^ count :=
    Ratio.roundHalfEven_le (by exact_mod_cast hhigh.le)
  refine ⟨le_carried hleast, carried_lt hpos hmost, fun c hc => ?_, fun c hc hne htie => ?_⟩
  · rw [toRat_carried hpos]
    exact (nearest_rounded hpos hr hc).1
  · rw [toRat_carried hpos] at hne htie
    exact carried_even hcount ((nearest_rounded hpos hr hc).2 htie hne)

end Reckoner.Number.Decimal
