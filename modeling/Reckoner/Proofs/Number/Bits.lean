import Mathlib
import Reckoner.Number.Binary64

/-!
# Bits — a double and its 64 bits

A double is determined by its bits: there is one bit pattern that is not a number, and every other one
is put together again from its sign, exponent and mantissa. So a double is also determined by its
meaning.
-/

namespace Reckoner.Number.Binary64

open Float.Model Float.Model.UnpackedFloat

/-! ## Packing -/

/-- A word of 64 bits in the three fields of a double. -/
abbrev Word : Type := BitVec Format.binary64.numBits

theorem packComponents_fields (w : Word) :
    packComponents Format.binary64 (Sign.ofBitVec (unpackSign w)) (unpackExponent w)
      (unpackMantissa w) = w := by
  have hsign (s : BitVec 1) : (Sign.ofBitVec s).toBitVec = s := by
    revert s
    decide
  unfold packComponents
  rw [hsign]
  unfold unpackSign unpackExponent unpackMantissa
  ext i hi
  grind

-- A subnormal number keeps its mantissa and has no exponent.
theorem pack_subnormal (s : Sign) {m : Nat} (hpos : 0 < m) (hsmall : m < 2 ^ 52) :
    UnpackedFloat.pack Format.binary64 (.finite s m (-1074) hpos) =
      packComponents Format.binary64 s 0#_ (BitVec.ofNat _ m) := by
  have hlog : ¬m.log2 + 1 = Format.binary64.mantissaBits := by
    have hlt : m.log2 < 52 := (Nat.log2_lt (by omega)).mpr hsmall
    show ¬m.log2 + 1 = 53
    omega
  unfold UnpackedFloat.pack
  simp only
  rw [if_neg (by decide), if_neg hlog]

-- A normal number keeps the bits of its mantissa below the first one.
theorem pack_normal (s : Sign) {m : Nat} {k : Nat} (hpos : 0 < m) (hlow : 2 ^ 52 ≤ m)
    (hhigh : m < 2 ^ 53) (hk : k + 1 < 2048) :
    UnpackedFloat.pack Format.binary64 (.finite s m ((k : Int) - 1075) hpos) =
      packComponents Format.binary64 s (BitVec.ofNat _ k) (BitVec.ofNat _ m) := by
  have hlog : m.log2 + 1 = Format.binary64.mantissaBits := by
    show m.log2 + 1 = 53
    rw [(Nat.log2_eq_iff (by omega)).mpr ⟨hlow, hhigh⟩]
  have hexponent : ((k : Int) - 1075 + (Format.binary64.exponentBias : Nat) +
      (Format.binary64.mantissaBitsWithoutImplicit : Nat)).toNat = k := by
    show ((k : Int) - 1075 + 1023 + 52).toNat = k
    omega
  unfold UnpackedFloat.pack
  simp only [hexponent]
  rw [if_neg (by show ¬2048 ≤ k + 1; omega), if_pos hlog]

theorem toNat_ne_zero {n : Nat} {v : BitVec n} (h : v ≠ 0#_) : v.toNat ≠ 0 := fun hzero =>
  h (BitVec.eq_of_toNat_eq (hzero.trans BitVec.toNat_zero.symm))

-- A word that is not one of the many spellings of what is not a number is packed again.
theorem pack_unpack {w : Word} (hvalid : Format.binary64.Valid w) :
    UnpackedFloat.pack Format.binary64 (UnpackedFloat.unpack Format.binary64 w) = w := by
  have hfields := packComponents_fields w
  have hmantissa : (unpackMantissa w).toNat < 2 ^ 52 := (unpackMantissa w).isLt
  unfold UnpackedFloat.unpack
  simp only
  generalize Sign.ofBitVec (unpackSign w) = s at *
  by_cases hlast : unpackExponent w = -1#_
  · rw [if_pos hlast]
    by_cases hzero : unpackMantissa w = 0#_
    · rw [if_pos hzero]
      rw [hlast, hzero] at hfields
      exact hfields
    · rw [if_neg hzero]
      exact (hvalid.eq_packedNaN hlast hzero).symm
  · rw [if_neg hlast]
    by_cases hfirst : unpackExponent w = 0#_
    · rw [if_pos hfirst]
      by_cases hzero : unpackMantissa w = 0#_
      · rw [dif_pos hzero]
        rw [hfirst, hzero] at hfields
        exact hfields
      · rw [dif_neg hzero]
        have hpos := Nat.pos_of_ne_zero (toNat_ne_zero hzero)
        have hpacked := pack_subnormal s hpos hmantissa
        rw [BitVec.ofNat_toNat, BitVec.setWidth_eq, ← hfirst, hfields] at hpacked
        rw [hfirst]
        exact hpacked
    · rw [if_neg hfirst]
      have hone : (1#1 ++ unpackMantissa w).toNat = 2 ^ 52 + (unpackMantissa w).toNat := by
        rw [BitVec.toNat_append]
        exact (Nat.shiftLeft_add_eq_or_of_lt hmantissa 1).symm
      have hexponent : (unpackExponent w).toNat + 1 < 2048 := by
        have hlt : (unpackExponent w).toNat < 2048 := (unpackExponent w).isLt
        have hne : (unpackExponent w).toNat ≠ 2047 := fun heq =>
          hlast (BitVec.eq_of_toNat_eq heq)
        omega
      have hpacked := pack_normal s (show 0 < (1#1 ++ unpackMantissa w).toNat by omega)
        (show 2 ^ 52 ≤ _ by omega) (by omega) hexponent
      have hdropped : BitVec.ofNat 52 (1#1 ++ unpackMantissa w).toNat = unpackMantissa w := by
        refine BitVec.eq_of_toNat_eq ?_
        rw [BitVec.toNat_ofNat, hone, Nat.add_mod_left, Nat.mod_eq_of_lt hmantissa]
      rw [BitVec.ofNat_toNat, BitVec.setWidth_eq] at hpacked
      rw [hdropped, hfields] at hpacked
      exact hpacked

/-! ## Doubles -/

theorem ofBits_toBits (x : Float) : Float.ofBits x.toBits = x := by
  rcases x with ⟨⟨bits, hvalid⟩⟩
  show Float.ofModel ⟨UInt64.ofBitVec (UnpackedFloat.pack Format.binary64
    (UnpackedFloat.unpack Format.binary64 bits.toBitVec)), _⟩ = _
  simp only [pack_unpack hvalid]

-- The bits of a finite magnitude are those of a double.
theorem toBits_ofBits {w : UInt64} (hfinite : w.toNat % 1 <<< 63 < infinityBits) :
    (Float.ofBits w).toBits = w := by
  have hvalid : Format.binary64.Valid w.toBitVec := by
    refine ⟨fun hexponent _ => ?_⟩
    have hnat : (BitVec.extractLsb 62 52 w.toBitVec).toNat = 2047 := congrArg BitVec.toNat hexponent
    rw [BitVec.extractLsb_toNat, Nat.shiftRight_eq_div_pow] at hnat
    change w.toNat / 2 ^ 52 % 2 ^ 11 = 2047 at hnat
    unfold infinityBits at hfinite
    rw [Nat.one_shiftLeft] at hfinite
    omega
  show UInt64.ofBitVec (UnpackedFloat.pack Format.binary64
    (UnpackedFloat.unpack Format.binary64 w.toBitVec)) = w
  rw [pack_unpack hvalid]

-- A double is that of its sign and magnitude bits.
theorem toFloat_magnitude (x : Float) :
    toFloat (decide (1 <<< 63 ≤ x.toBits.toNat)) (x.toBits.toNat % 1 <<< 63) = x := by
  have hword : x.toBits.toNat < 2 ^ 64 := x.toBits.toNat_lt
  have hbits : (if decide (1 <<< 63 ≤ x.toBits.toNat) = true
      then 1 <<< 63 + x.toBits.toNat % 1 <<< 63
      else x.toBits.toNat % 1 <<< 63) = x.toBits.toNat := by
    by_cases hnegative : 1 <<< 63 ≤ x.toBits.toNat
    · rw [if_pos (decide_eq_true hnegative)]
      rw [Nat.one_shiftLeft] at hnegative ⊢
      omega
    · rw [if_neg (by rwa [decide_eq_true_eq])]
      rw [Nat.one_shiftLeft] at hnegative ⊢
      omega
  rw [toFloat, hbits, UInt64.ofNat_toNat, ofBits_toBits]

-- A magnitude above infinity is not a number.
theorem eq_notANumber {x : Float} (h : infinityBits < x.toBits.toNat % 1 <<< 63) :
    x = notANumber := by
  rcases x with ⟨⟨bits, hvalid⟩⟩
  change infinityBits < bits.toNat % 1 <<< 63 at h
  unfold infinityBits at h
  rw [Nat.one_shiftLeft] at h
  have hexponent : @unpackExponent Format.binary64 bits.toBitVec = -1#_ := by
    refine BitVec.eq_of_toNat_eq ?_
    show (BitVec.extractLsb 62 52 bits.toBitVec).toNat = 2047
    rw [BitVec.extractLsb_toNat, Nat.shiftRight_eq_div_pow]
    show bits.toNat / 2 ^ 52 % 2 ^ 11 = 2047
    omega
  have hmantissa : @unpackMantissa Format.binary64 bits.toBitVec ≠ 0#_ := by
    intro hzero
    have hnat : (BitVec.extractLsb 51 0 bits.toBitVec).toNat = 0 := congrArg BitVec.toNat hzero
    rw [BitVec.extractLsb_toNat, Nat.shiftRight_zero] at hnat
    change bits.toNat % 2 ^ 52 = 0 at hnat
    omega
  have hword := hvalid.eq_packedNaN hexponent hmantissa
  have hbits : bits = 0x7FF8000000000000 := UInt64.toBitVec_inj.mp (hword.trans (by decide))
  subst hbits
  rfl

theorem ofFloat_toFloat (negative : Bool) {bits : Nat} (hfinite : bits < infinityBits) :
    ofFloat (toFloat negative bits) = .finite negative (unpack bits).1 (unpack bits).2 := by
  have hbits : bits < 2 ^ 63 := hfinite.trans (by decide)
  have hword : (UInt64.ofNat (if negative then 1 <<< 63 + bits else bits)).toNat =
      if negative then 2 ^ 63 + bits else bits := by
    rw [UInt64.toNat_ofNat', Nat.one_shiftLeft]
    cases negative <;> simp <;> omega
  have hmagnitude : (if negative then 2 ^ 63 + bits else bits) % 2 ^ 63 = bits := by
    cases negative
    · exact Nat.mod_eq_of_lt hbits
    · exact (Nat.add_mod_left _ _).trans (Nat.mod_eq_of_lt hbits)
  have hsign : decide (2 ^ 63 ≤ if negative then 2 ^ 63 + bits else bits) = negative := by
    cases negative
    · exact decide_eq_false (Nat.not_le.mpr hbits)
    · exact decide_eq_true (Nat.le_add_right _ _)
  rw [ofFloat, toFloat, toBits_ofBits (by rwa [hword, Nat.one_shiftLeft, hmagnitude]), hword, ofBits]
  simp only [Nat.one_shiftLeft, hmagnitude, hsign, if_pos hfinite]

/-- All that a double can be. -/
theorem ofFloat_cases (x : Float) :
    (∃ negative bits, bits < infinityBits ∧ x = toFloat negative bits ∧
      ofFloat x = .finite negative (unpack bits).1 (unpack bits).2) ∨
    (∃ negative, x = infinity negative ∧ ofFloat x = .infinite negative) ∨
    (x = notANumber ∧ ofFloat x = .nan) := by
  have hx := toFloat_magnitude x
  unfold ofFloat ofBits
  simp only
  by_cases hfinite : x.toBits.toNat % 1 <<< 63 < infinityBits
  · rw [if_pos hfinite]
    exact .inl ⟨_, _, hfinite, hx.symm, rfl⟩
  · rw [if_neg hfinite]
    by_cases hinfinite : x.toBits.toNat % 1 <<< 63 = infinityBits
    · rw [if_pos hinfinite]
      rw [hinfinite] at hx
      exact .inr (.inl ⟨_, hx.symm, rfl⟩)
    · rw [if_neg hinfinite]
      exact .inr (.inr ⟨eq_notANumber (by omega), rfl⟩)

end Reckoner.Number.Binary64
