import Reckoner.Proofs.Number.Nearest

/-!
# Shortest — digits that read back

The digits chosen for a double are a point of a decimal grid in the interval of that double, so they
read back as the double. On the grid of seventeen significant digits there is always such a point: it
is finer than the interval is wide.
-/

namespace Reckoner.Number

namespace Decimal

/-- The number that a decimal number is. -/
def toRat (d : Decimal) : ℚ := d.digits * 10 ^ d.exponent

theorem toRat_value (d : Decimal) : d.value.toRat = d.toRat := by
  rw [value, Ratio.toRat_scaleTen, Ratio.toRat_ofNat, toRat]

theorem ten_zpow_pos (k : Int) : (0 : ℚ) < 10 ^ k := zpow_pos (by norm_num) k

/-! ## Points of a grid -/

/-- A quarter of the last place, in units of the grid. -/
def quarter (exponent place : Int) : Ratio :=
  ((Ratio.ofNat 1).scaleTwo (exponent - 2)).scaleTen (-place)

/-- The last point of the grid up to the double. -/
def gridBelow (mantissa : Nat) (exponent place : Int) : Nat :=
  4 * mantissa * (quarter exponent place).num / (quarter exponent place).den

/-- Whether a point of the grid reads back as the double. -/
def fits (mantissa : Nat) (exponent place : Int) (n : Nat) : Bool :=
  between (mantissa % 2 == 0)
    ((neighbourhood mantissa exponent).1 * (quarter exponent place).num)
    (n * (quarter exponent place).den)
    ((neighbourhood mantissa exponent).2 * (quarter exponent place).num)

variable {mantissa : Nat} {exponent place : Int} {d : Decimal}

theorem fits_of_onGrid? (h : onGrid? mantissa exponent place = some d) :
    d.exponent = place ∧ fits mantissa exponent place d.digits = true := by
  unfold onGrid? at h
  simp only at h
  split at h
  · rename_i hbelow
    split at h
    · rename_i habove
      split at h
      · cases h
        exact ⟨rfl, hbelow⟩
      · split at h
        · cases h
          refine ⟨rfl, ?_⟩
          show fits mantissa exponent place
            (gridBelow mantissa exponent place + gridBelow mantissa exponent place % 2) = true
          rcases Nat.mod_two_eq_zero_or_one (gridBelow mantissa exponent place) with heven | hodd
          · rw [heven]
            exact hbelow
          · rw [hodd]
            exact habove
        · cases h
          exact ⟨rfl, habove⟩
    · cases h
      exact ⟨rfl, hbelow⟩
  · split at h
    · rename_i habove
      cases h
      exact ⟨rfl, habove⟩
    · exact nomatch h

theorem isSome_onGrid? {n : Nat} (hn : n = gridBelow mantissa exponent place ∨
      n = gridBelow mantissa exponent place + 1)
    (hfits : fits mantissa exponent place n = true) :
    (onGrid? mantissa exponent place).isSome = true := by
  unfold onGrid?
  simp only
  split
  · split
    · split
      · rfl
      · split <;> rfl
    · rfl
  · rename_i hbelow
    split
    · rfl
    · rename_i habove
      rcases hn with rfl | rfl
      · exact absurd hfits hbelow
      · exact absurd hfits habove

theorem toRat_quarter (exponent place : Int) :
    (quarter exponent place).toRat = 2 ^ (exponent - 2) * 10 ^ (-place) := by
  rw [quarter, Ratio.toRat_scaleTen, Ratio.toRat_scaleTwo, Ratio.toRat_ofNat, Nat.cast_one, one_mul]

theorem num_quarter (exponent place : Int) : ((quarter exponent place).num : ℚ) * 10 ^ place =
    2 ^ (exponent - 2) * (quarter exponent place).den := by
  have hden := (quarter exponent place).den_cast_pos
  have hvalue := toRat_quarter exponent place
  rw [Ratio.toRat, div_eq_iff hden.ne'] at hvalue
  have hinverse : (10 : ℚ) ^ (-place) * 10 ^ place = 1 := by
    rw [← zpow_add₀ (by norm_num), neg_add_cancel, zpow_zero]
  rw [hvalue, mul_right_comm, mul_assoc (2 ^ (exponent - 2)), hinverse, mul_one]

theorem le_iff_and_lt_iff {a b x y u v : ℚ} (hu : 0 < u) (hv : 0 < v) (hx : a * u = x * v)
    (hy : b * u = y * v) : (a ≤ b ↔ x ≤ y) ∧ (a < b ↔ x < y) := by
  constructor
  · rw [← mul_le_mul_iff_of_pos_right hu, hx, hy, mul_le_mul_iff_of_pos_right hv]
  · rw [← mul_lt_mul_iff_of_pos_right hu, hx, hy, mul_lt_mul_iff_of_pos_right hv]

-- The points that fit are those in the interval.
theorem fits_iff (n : Nat) :
    fits mantissa exponent place n = true ↔ Rounds mantissa exponent (n * 10 ^ place) := by
  have hten := ten_zpow_pos place
  have hden := (quarter exponent place).den_cast_pos
  have hmark (mark : Nat) : ((mark * (quarter exponent place).num : Nat) : ℚ) * 10 ^ place =
      mark * 2 ^ (exponent - 2) * (quarter exponent place).den := by
    rw [Nat.cast_mul, mul_assoc, num_quarter, mul_assoc]
  have hpoint : ((n * (quarter exponent place).den : Nat) : ℚ) * 10 ^ place =
      n * 10 ^ place * (quarter exponent place).den := by
    rw [Nat.cast_mul, mul_right_comm]
  have hlow := le_iff_and_lt_iff hten hden
    (hmark (neighbourhood mantissa exponent).1) hpoint
  have hhigh := le_iff_and_lt_iff hten hden hpoint
    (hmark (neighbourhood mantissa exponent).2)
  rw [Nat.cast_le, Nat.cast_lt] at hlow hhigh
  unfold fits between
  by_cases hparity : mantissa % 2 = 0
  · rw [if_pos (beq_iff_eq.mpr hparity), Bool.and_eq_true, decide_eq_true_eq, decide_eq_true_eq,
      hlow.1, hhigh.1]
    exact ⟨fun h => ⟨h.1, h.2, fun hodd => by omega⟩, fun h => ⟨h.low, h.high⟩⟩
  · rw [if_neg (fun heven => hparity (beq_iff_eq.mp heven)), Bool.and_eq_true, decide_eq_true_eq,
      decide_eq_true_eq, hlow.2, hhigh.2]
    exact ⟨fun h => ⟨h.1.le, h.2.le, fun _ => h⟩, fun h => h.odd (by omega)⟩

theorem rounds_of_onGrid? (h : onGrid? mantissa exponent place = some d) :
    Rounds mantissa exponent d.toRat := by
  have hfits := fits_of_onGrid? h
  rw [toRat, hfits.1, ← fits_iff]
  exact hfits.2

/-! ## Seventeen digits -/

-- The double lies between two neighbours on the grid.
theorem gridBelow_bounds (mantissa : Nat) (exponent place : Int) :
    (gridBelow mantissa exponent place : ℚ) * 10 ^ place ≤ mantissa * 2 ^ exponent ∧
      (mantissa : ℚ) * 2 ^ exponent < (gridBelow mantissa exponent place + 1) * 10 ^ place := by
  have hten := ten_zpow_pos place
  have hdenpos := (quarter exponent place).den_pos
  have hden := (quarter exponent place).den_cast_pos
  have hvalue : ((4 * mantissa * (quarter exponent place).num : Nat) : ℚ) * 10 ^ place =
      mantissa * 2 ^ exponent * (quarter exponent place).den := by
    rw [Nat.cast_mul, mul_assoc, num_quarter, ← Binary64.four_mul_zpow exponent]
    push_cast
    ring
  have hpoint (n : Nat) : ((n * (quarter exponent place).den : Nat) : ℚ) * 10 ^ place =
      n * 10 ^ place * (quarter exponent place).den := by
    rw [Nat.cast_mul, mul_right_comm]
  have hbelow := (le_iff_and_lt_iff hten hden (hpoint (gridBelow mantissa exponent place)) hvalue).1
  have habove :=
    (le_iff_and_lt_iff hten hden hvalue (hpoint (gridBelow mantissa exponent place + 1))).2
  rw [Nat.cast_le] at hbelow
  rw [Nat.cast_lt, Nat.cast_succ] at habove
  refine ⟨hbelow.mp (Nat.div_mul_le_self _ _), habove.mp ?_⟩
  exact Nat.lt_mul_of_div_lt (Nat.lt_succ_self _) hdenpos

theorem rounds_of_lt {q : ℚ}
    (hlow : ((neighbourhood mantissa exponent).1 : ℚ) * 2 ^ (exponent - 2) < q)
    (hhigh : q < ((neighbourhood mantissa exponent).2 : ℚ) * 2 ^ (exponent - 2)) :
    Rounds mantissa exponent q := ⟨hlow.le, hhigh.le, fun _ => ⟨hlow, hhigh⟩⟩

-- On a grid that is fine enough one of the two neighbours of a double reads back.
theorem isSome_onGrid?_of_fine (hpositive : 0 < mantissa) (hsmall : mantissa < 2 ^ 53)
    (hfine : (10 : ℚ) ^ place * 10 ^ 16 ≤ mantissa * 2 ^ exponent) :
    (onGrid? mantissa exponent place).isSome = true := by
  rcases gridBelow_bounds mantissa exponent place with ⟨hbelow, habove⟩
  have hunit := Binary64.two_zpow_pos (exponent - 2)
  have hten := ten_zpow_pos place
  have hbound : (mantissa : ℚ) < 2 ^ 53 := by exact_mod_cast hsmall
  have hwidth := mul_lt_mul_of_pos_right hbound hunit
  have hsecond : ((neighbourhood mantissa exponent).2 : ℚ) = 4 * mantissa + 2 := by
    exact_mod_cast (neighbourhood_bounds mantissa exponent).2
  rw [← Binary64.four_mul_zpow exponent] at hbelow habove hfine
  by_cases hnarrow : mantissa = 2 ^ 52 ∧ Binary64.leastExponent < exponent
  · -- The interval is narrow below the double, and the point above it is near enough.
    have hfirst : ((neighbourhood mantissa exponent).1 : ℚ) = 4 * mantissa - 1 := by
      simp only [neighbourhood_eq, if_pos hnarrow]
      rw [Nat.cast_sub (by omega)]
      push_cast
      ring
    have hpower : (mantissa : ℚ) * 2 ^ (exponent - 2) = 2 ^ 52 * 2 ^ (exponent - 2) := by
      rw [hnarrow.1]
      norm_num
    refine isSome_onGrid? (Or.inr rfl) ((fits_iff _).mpr (rounds_of_lt ?_ ?_))
    · rw [hfirst]
      push_cast
      linarith
    · rw [hsecond]
      push_cast
      linarith
  · have hfirst : ((neighbourhood mantissa exponent).1 : ℚ) = 4 * mantissa - 2 := by
      simp only [neighbourhood_eq, if_neg hnarrow]
      rw [Nat.cast_sub (by omega)]
      push_cast
      ring
    -- Otherwise the nearer of the two points is within half a unit of the double.
    by_cases hnear : (mantissa : ℚ) * (4 * 2 ^ (exponent - 2)) -
        gridBelow mantissa exponent place * 10 ^ place < 2 * 2 ^ (exponent - 2)
    · refine isSome_onGrid? (Or.inl rfl) ((fits_iff _).mpr (rounds_of_lt ?_ ?_))
      · rw [hfirst]
        linarith
      · rw [hsecond]
        linarith
    · refine isSome_onGrid? (Or.inr rfl) ((fits_iff _).mpr (rounds_of_lt ?_ ?_))
      · rw [hfirst]
        push_cast
        linarith
      · rw [hsecond]
        push_cast
        linarith

/-- The digits that are chosen read back: on the last grid there are some, if not before. -/
theorem rounds_shortest (hpositive : 0 < mantissa) (hsmall : mantissa < 2 ^ 53) :
    Rounds mantissa exponent (shortest mantissa exponent).toRat := by
  have hlast : (onGrid? mantissa exponent
      ((Binary64.magnitude mantissa exponent).decimalOrder - 1 - (16 : Nat))).isSome = true := by
    refine isSome_onGrid?_of_fine hpositive hsmall ?_
    rw [← zpow_natCast (10 : ℚ) 16, ← zpow_add₀ (by norm_num), sub_add_cancel,
      ← Binary64.toRat_magnitude]
    exact (Ratio.decimalOrder_bounds (Binary64.num_magnitude_pos exponent hpositive)).1
  unfold shortest
  simp only
  cases hfound : (List.range 17).findSome? fun n : Nat => onGrid? mantissa exponent
      ((Binary64.magnitude mantissa exponent).decimalOrder - 1 - n) with
  | none =>
    -- The last of the grids has been tried, and there are digits on it.
    have hnone := List.findSome?_eq_none_iff.mp hfound 16 (List.mem_range.mpr (by decide))
    rw [hnone] at hlast
    exact absurd hlast Bool.false_ne_true
  | some d =>
    rcases List.exists_of_findSome?_eq_some hfound with ⟨n, -, hn⟩
    exact rounds_of_onGrid? hn

/-! ## Reading back -/

-- Between which powers of ten a decimal number lies.
theorem order_bounds (hdigits : 0 < d.digits) :
    (10 : ℚ) ^ ((decimalSize d.digits : Int) + d.exponent - 1) ≤ d.toRat ∧
      d.toRat < (10 : ℚ) ^ ((decimalSize d.digits : Int) + d.exponent) := by
  rcases isSize_decimalSize d.digits hdigits with ⟨hlow, hhigh⟩
  have hsize := isSize_decimalSize.pos hdigits
  have hten := ten_zpow_pos d.exponent
  constructor
  · rw [add_sub_right_comm, zpow_add₀ (by norm_num), toRat, mul_le_mul_iff_of_pos_right hten,
      show (decimalSize d.digits : Int) - 1 = ((decimalSize d.digits - 1 : Nat) : Int) by omega,
      zpow_natCast]
    exact_mod_cast hlow
  · rw [zpow_add₀ (by norm_num), toRat, mul_lt_mul_iff_of_pos_right hten, zpow_natCast]
    exact_mod_cast hhigh

theorem Rounds.digits_pos (hpositive : 0 < mantissa) (h : Rounds mantissa exponent d.toRat) :
    0 < d.digits := by
  have hvalue := h.pos hpositive
  by_contra hzero
  rw [toRat, Nat.eq_zero_of_not_pos hzero, Nat.cast_zero, zero_mul] at hvalue
  exact lt_irrefl _ hvalue

theorem exponent_le_of_finite {bits : Nat} (hfinite : bits < Binary64.infinityBits) :
    Binary64.leastExponent ≤ (Binary64.unpack bits).2 ∧ (Binary64.unpack bits).2 ≤ 971 := by
  rcases Binary64.exists_step_unpack bits with ⟨step, hexponent, hpack, -, hnormal⟩
  have hlimit : step * 2 ^ 52 + (Binary64.unpack bits).1 < 2047 * 2 ^ 52 := by
    rw [← Binary64.pack_eq, hpack]
    exact hfinite
  have hleast : Binary64.leastExponent = -1074 := rfl
  rw [hexponent]
  rcases hnormal with hzero | hnormal <;> constructor <;> omega

theorem two_zpow_lt_ten_zpow : (2 : ℚ) ^ (1024 : Int) < 10 ^ (309 : Int) := by
  have hnat : 2 ^ 1024 < 10 ^ 309 := by decide +kernel
  exact_mod_cast hnat

theorem ten_zpow_lt_two_zpow : (10 : ℚ) ^ (-330 : Int) < 2 ^ (-1076 : Int) := by
  have hnat : 2 ^ 1076 < 10 ^ 330 := by decide +kernel
  rw [zpow_neg, zpow_neg, inv_lt_inv₀ (ten_zpow_pos _) (Binary64.two_zpow_pos _)]
  exact_mod_cast hnat

-- Beyond these two limits no power of ten is computed; what rounds to a finite double keeps clear of
-- both.
theorem Rounds.lt_limit {q : ℚ} (hsmall : mantissa < 2 ^ 53) (hgreatest : exponent ≤ 971)
    (h : Rounds mantissa exponent q) : q < 10 ^ (309 : Int) := by
  have hunit := Binary64.two_zpow_pos (exponent - 2)
  have hmarks := (neighbourhood_bounds mantissa exponent).2
  have hsecond : ((neighbourhood mantissa exponent).2 : ℚ) ≤ 2 ^ (55 : Int) := by
    have hnat : (neighbourhood mantissa exponent).2 ≤ 2 ^ 55 := by omega
    exact_mod_cast hnat
  calc q ≤ (neighbourhood mantissa exponent).2 * 2 ^ (exponent - 2) := h.high
    _ ≤ 2 ^ (55 : Int) * 2 ^ (969 : Int) := by
      refine mul_le_mul hsecond ?_ hunit.le (Binary64.two_zpow_pos _).le
      exact zpow_le_zpow_right₀ (by norm_num) (by omega)
    _ = 2 ^ (1024 : Int) := by rw [← zpow_add₀ (by norm_num)]; rfl
    _ < 10 ^ (309 : Int) := two_zpow_lt_ten_zpow

theorem Rounds.limit_lt {q : ℚ} (hpositive : 0 < mantissa) (hleast : -1074 ≤ exponent)
    (h : Rounds mantissa exponent q) : 10 ^ (-330 : Int) < q := by
  have hmarks := (neighbourhood_bounds mantissa exponent).1
  have hfirst : (1 : ℚ) ≤ (neighbourhood mantissa exponent).1 := by
    have hnat : 1 ≤ (neighbourhood mantissa exponent).1 := by omega
    exact_mod_cast hnat
  calc (10 : ℚ) ^ (-330 : Int) < 2 ^ (-1076 : Int) := ten_zpow_lt_two_zpow
    _ = 1 * 2 ^ (-1076 : Int) := (one_mul _).symm
    _ ≤ (neighbourhood mantissa exponent).1 * 2 ^ (exponent - 2) := by
      refine mul_le_mul hfirst ?_ (Binary64.two_zpow_pos _).le (Nat.cast_nonneg _)
      exact zpow_le_zpow_right₀ (by norm_num) (by omega)
    _ ≤ q := h.low

/-- Whatever decimal number lies in the interval of a double reads as that double. -/
theorem nearestBits_of_rounds {bits : Nat} (hpositive : 0 < (Binary64.unpack bits).1)
    (hfinite : bits < Binary64.infinityBits)
    (h : Rounds (Binary64.unpack bits).1 (Binary64.unpack bits).2 d.toRat) :
    d.nearestBits = bits := by
  have hround : Binary64.nearestBits d.value = bits := by
    refine Binary64.nearestBits_of_rounds hpositive hfinite ?_
    rw [toRat_value]
    exact h
  rcases exponent_le_of_finite hfinite with ⟨hleast, hgreatest⟩
  rcases Binary64.exists_step_unpack bits with ⟨-, -, -, hsmall, -⟩
  have habove := h.lt_limit hsmall hgreatest
  have hbelow := h.limit_lt hpositive hleast
  -- The order of the digits is then between the limits as well.
  rcases order_bounds (h.digits_pos hpositive) with ⟨horder, horder'⟩
  have hone : (1 : ℚ) < 10 := by norm_num
  have hless := (zpow_lt_zpow_iff_right₀ hone).mp (horder.trans_lt habove)
  have hmore := (zpow_lt_zpow_iff_right₀ hone).mp (hbelow.trans horder')
  have hdigits := h.digits_pos hpositive
  unfold nearestBits
  rw [if_neg (by omega)]
  simp only
  rw [if_neg (by omega), if_neg (by omega)]
  exact hround

end Decimal

end Reckoner.Number
