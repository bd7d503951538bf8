import Reckoner.Text.Utf8

/-!
# Utf8 — characters survive their bytes

The bytes of a character take the decoder from between two characters to between two characters, and
yield that character. The bounds that a first byte sets for the second one are no bounds for what is
encoded: they exclude shorter encodings, and numbers that are no characters.

No byte below 0x80 continues a character. So whatever precedes such a byte, well-formed or not, it
is a character by itself and parts the bytes in two.
-/

namespace Reckoner.Text.Utf8

namespace Decoder

/-! ## First bytes -/

theorem start_one {b : Nat} (hb : b < 0x80) : start b = (ready, [some (Char.ofNat b)]) :=
  if_pos hb

theorem start_two {b : Nat} (hlow : 0xC2 ≤ b) (hhigh : b ≤ 0xDF) :
    start b = (⟨1, b - 0xC0, 0x80, 0xBF⟩, []) := by
  rw [start, if_neg (by omega), if_pos ⟨hlow, hhigh⟩]

-- Of three bytes, the second one has a lower bound if the first one is the least, and an upper
-- bound if the character could be a surrogate.
theorem start_three {b : Nat} (hlow : 0xE0 ≤ b) (hhigh : b ≤ 0xEF) :
    start b = (⟨2, b - 0xE0, if b = 0xE0 then 0xA0 else 0x80, if b = 0xED then 0x9F else 0xBF⟩,
      []) := by
  rw [start, if_neg (by omega), if_neg (by omega)]
  by_cases hleast : b = 0xE0
  · subst hleast
    rfl
  · rw [if_neg hleast, if_neg hleast]
    by_cases hsurrogate : b = 0xED
    · subst hsurrogate
      rfl
    · rw [if_neg hsurrogate, if_neg hsurrogate, if_pos (by omega)]

-- Of four bytes, the second one has a lower bound if the first one is the least, and an upper bound
-- if the first one is the greatest.
theorem start_four {b : Nat} (hlow : 0xF0 ≤ b) (hhigh : b ≤ 0xF4) :
    start b = (⟨3, b - 0xF0, if b = 0xF0 then 0x90 else 0x80, if b = 0xF4 then 0x8F else 0xBF⟩,
      []) := by
  rw [start, if_neg (by omega), if_neg (by omega), if_neg (by omega), if_neg (by omega),
    if_neg (by omega)]
  by_cases hleast : b = 0xF0
  · subst hleast
    rfl
  · rw [if_neg hleast, if_neg hleast]
    by_cases hgreatest : b = 0xF4
    · subst hgreatest
      rfl
    · rw [if_neg hgreatest, if_neg hgreatest, if_pos (by omega)]

end Decoder

open Decoder

/-! ## Single bytes -/

variable {done : List (Option Char)} {rest : List UInt8} {b sofar low high : Nat}

theorem toNat_ofNat_of_le (hb : b ≤ 0xFF) : (UInt8.ofNat b).toNat = b := by
  rw [UInt8.toNat_ofNat']
  omega

theorem partsFrom_start (hb : b ≤ 0xFF) :
    partsFrom ready done (UInt8.ofNat b :: rest) =
      partsFrom (start b).1 ((start b).2.reverse ++ done) rest := by
  have hstep : ready.step (UInt8.ofNat b) = start b := by
    show start (UInt8.ofNat b).toNat = start b
    rw [toNat_ofNat_of_le hb]
  rw [partsFrom, hstep]

theorem step_due {missing : Nat} (hb : b ≤ 0xFF) (hlow : low ≤ b) (hhigh : b ≤ high) :
    step ⟨missing + 1, sofar, low, high⟩ (UInt8.ofNat b) =
      if missing = 0 then (ready, [some (Char.ofNat (sofar * 64 + (b - 0x80)))])
      else (⟨missing, sofar * 64 + (b - 0x80), 0x80, 0xBF⟩, []) := by
  show (if low ≤ (UInt8.ofNat b).toNat ∧ (UInt8.ofNat b).toNat ≤ high then _ else _) = _
  rw [toNat_ofNat_of_le hb, if_pos ⟨hlow, hhigh⟩]

-- A byte within the bounds goes on with the character.
theorem partsFrom_due {missing : Nat} (hb : b ≤ 0xFF) (hlow : low ≤ b) (hhigh : b ≤ high) :
    partsFrom ⟨missing + 2, sofar, low, high⟩ done (UInt8.ofNat b :: rest) =
      partsFrom ⟨missing + 1, sofar * 64 + (b - 0x80), 0x80, 0xBF⟩ done rest := by
  rw [partsFrom, step_due hb hlow hhigh, if_neg (Nat.succ_ne_zero missing)]
  rfl

-- The last byte of a character completes it.
theorem partsFrom_last (hb : b ≤ 0xFF) (hlow : low ≤ b) (hhigh : b ≤ high) :
    partsFrom ⟨1, sofar, low, high⟩ done (UInt8.ofNat b :: rest) =
      partsFrom ready (some (Char.ofNat (sofar * 64 + (b - 0x80))) :: done) rest := by
  rw [partsFrom, step_due hb hlow hhigh, if_pos rfl]
  rfl

/-! ## Characters -/

/-- The bytes of a character yield that character. -/
theorem partsFrom_utf8EncodeChar (c : Char) (done : List (Option Char)) (rest : List UInt8) :
    partsFrom ready done (String.utf8EncodeChar c ++ rest) =
      partsFrom ready (some c :: done) rest := by
  have hvalid : c.toNat < 0xD800 ∨ 0xDFFF < c.toNat ∧ c.toNat < 0x110000 := c.valid
  show partsFrom ready done ((if c.toNat ≤ 0x7F then _ else if c.toNat ≤ 0x7FF then _ else
    if c.toNat ≤ 0xFFFF then _ else _) ++ rest) = _
  by_cases hone : c.toNat ≤ 0x7F
  · rw [if_pos hone, List.singleton_append]
    show partsFrom ready done (UInt8.ofNat c.toNat :: rest) = _
    rw [partsFrom_start (by omega), start_one (by omega), Char.ofNat_toNat]
    rfl
  rw [if_neg hone]
  by_cases htwo : c.toNat ≤ 0x7FF
  · rw [if_pos htwo]
    show partsFrom ready done (UInt8.ofNat (c.toNat / 64 % 0x20 + 0xC0) ::
      UInt8.ofNat (c.toNat % 0x40 + 0x80) :: rest) = _
    rw [partsFrom_start (by omega), start_two (by omega) (by omega)]
    show partsFrom ⟨1, c.toNat / 64 % 0x20 + 0xC0 - 0xC0, 0x80, 0xBF⟩ done _ = _
    have hvalue : (c.toNat / 64 % 0x20 + 0xC0 - 0xC0) * 64 + (c.toNat % 0x40 + 0x80 - 0x80) =
        c.toNat := by omega
    rw [partsFrom_last (by omega) (by omega) (by omega), hvalue, Char.ofNat_toNat]
  rw [if_neg htwo]
  by_cases hthree : c.toNat ≤ 0xFFFF
  · rw [if_pos hthree]
    show partsFrom ready done (UInt8.ofNat (c.toNat / 4096 % 0x10 + 0xE0) ::
      UInt8.ofNat (c.toNat / 64 % 0x40 + 0x80) :: UInt8.ofNat (c.toNat % 0x40 + 0x80) :: rest) = _
    rw [partsFrom_start (by omega), start_three (by omega) (by omega)]
    show partsFrom ⟨2, c.toNat / 4096 % 0x10 + 0xE0 - 0xE0, _, _⟩ done _ = _
    have hvalue : ((c.toNat / 4096 % 0x10 + 0xE0 - 0xE0) * 64 +
        (c.toNat / 64 % 0x40 + 0x80 - 0x80)) * 64 + (c.toNat % 0x40 + 0x80 - 0x80) =
        c.toNat := by omega
    rw [partsFrom_due (by omega) (by split <;> omega) (by split <;> omega),
      partsFrom_last (by omega) (by omega) (by omega), hvalue, Char.ofNat_toNat]
  · rw [if_neg hthree]
    show partsFrom ready done (UInt8.ofNat (c.toNat / 262144 % 8 + 0xF0) ::
      UInt8.ofNat (c.toNat / 4096 % 0x40 + 0x80) :: UInt8.ofNat (c.toNat / 64 % 0x40 + 0x80) ::
      UInt8.ofNat (c.toNat % 0x40 + 0x80) :: rest) = _
    rw [partsFrom_start (by omega), start_four (by omega) (by omega)]
    show partsFrom ⟨3, c.toNat / 262144 % 8 + 0xF0 - 0xF0, _, _⟩ done _ = _
    have hvalue : (((c.toNat / 262144 % 8 + 0xF0 - 0xF0) * 64 +
        (c.toNat / 4096 % 0x40 + 0x80 - 0x80)) * 64 + (c.toNat / 64 % 0x40 + 0x80 - 0x80)) * 64 +
        (c.toNat % 0x40 + 0x80 - 0x80) = c.toNat := by omega
    rw [partsFrom_due (by omega) (by split <;> omega) (by split <;> omega),
      partsFrom_due (by omega) (by omega) (by omega), partsFrom_last (by omega) (by omega) (by omega),
      hvalue, Char.ofNat_toNat]

theorem partsFrom_encode (cs : List Char) (done : List (Option Char)) :
    partsFrom ready done (encode cs) = done.reverse ++ cs.map some := by
  induction cs generalizing done with
  | nil => exact (List.append_nil _).symm
  | cons c cs ih =>
    show partsFrom ready done (String.utf8EncodeChar c ++ encode cs) = _
    rw [partsFrom_utf8EncodeChar, ih, List.reverse_cons, List.append_assoc]
    rfl

theorem parts_encode (cs : List Char) : parts (encode cs) = cs.map some :=
  partsFrom_encode cs []

theorem decode?_encode (cs : List Char) : decode? (encode cs) = some cs := by
  have hall : (cs.map some).all Option.isSome = true := by
    rw [List.all_map]
    exact List.all_eq_true.mpr fun _ _ => rfl
  have hmap : (cs.map some).filterMap id = cs := by
    rw [List.filterMap_map]
    exact List.filterMap_some
  rw [decode?, parts_encode]
  simp only [hall, hmap, if_true]

theorem decodeLossy_encode (cs : List Char) : decodeLossy (encode cs) = cs := by
  rw [decodeLossy, parts_encode, List.map_map]
  exact List.map_id cs

/-- Where no part is malformed, nothing is replaced. -/
theorem decodeLossy_of_decode? {bytes : List UInt8} {cs : List Char}
    (h : decode? bytes = some cs) : decodeLossy bytes = cs := by
  simp only [decode?, Option.ite_none_right_eq_some, Option.some.injEq] at h
  rcases h with ⟨hall, rfl⟩
  have hparts (found : List (Option Char)) (hfound : found.all Option.isSome = true) :
      found.map (·.getD '\uFFFD') = found.filterMap id := by
    induction found with
    | nil => rfl
    | cons part found ih =>
      rw [List.all_cons, Bool.and_eq_true] at hfound
      rcases Option.isSome_iff_exists.mp hfound.1 with ⟨c, rfl⟩
      rw [List.map_cons, ih hfound.2]
      rfl
  exact hparts (parts bytes) hall

/-! ## Bytes below 0x80 -/

namespace Decoder

/-- Only bytes from 0x80 on continue the character. -/
def Guarded (d : Decoder) : Prop := d.missing ≠ 0 → 0x80 ≤ d.low

theorem guarded_ready : ready.Guarded := fun h => absurd rfl h

theorem guarded_start (byte : Nat) : (start byte).1.Guarded := by
  unfold start
  repeat' split
  all_goals first | exact guarded_ready | exact fun _ => by dsimp only; omega

theorem guarded_step {d : Decoder} (byte : UInt8) : (d.step byte).1.Guarded := by
  unfold step
  split
  · exact guarded_start _
  · split
    · dsimp only
      split
      · exact guarded_ready
      · exact fun _ => Nat.le_refl 0x80
    · exact guarded_start _

-- Such a byte ends what is not complete.
theorem step_of_lt {d : Decoder} (hd : d.Guarded) {byte : UInt8} (hbyte : byte.toNat < 0x80) :
    d.step byte = (ready, d.close ++ [some (Char.ofNat byte.toNat)]) := by
  obtain ⟨missing, sofar, low, high⟩ := d
  cases missing with
  | zero => exact start_one hbyte
  | succ missing =>
    have hlow : 0x80 ≤ low := hd (Nat.succ_ne_zero missing)
    show (if low ≤ byte.toNat ∧ byte.toNat ≤ high then _ else _) = _
    rw [if_neg (by omega), start_one hbyte]
    rfl

end Decoder

theorem partsFrom_eq (d : Decoder) (done : List (Option Char)) (bytes : List UInt8) :
    partsFrom d done bytes = done.reverse ++ partsFrom d [] bytes := by
  induction bytes generalizing d done with
  | nil => simp [partsFrom]
  | cons byte bytes ih =>
    rw [partsFrom, partsFrom, ih, ih _ ((d.step byte).2.reverse ++ [])]
    simp

theorem partsFrom_append_of_lt {d : Decoder} (hd : d.Guarded) (done : List (Option Char))
    (front : List UInt8) {byte : UInt8} (hbyte : byte.toNat < 0x80) (back : List UInt8) :
    partsFrom d done (front ++ byte :: back) =
      partsFrom d done front ++ some (Char.ofNat byte.toNat) :: parts back := by
  induction front generalizing d done with
  | nil =>
    have hnext : partsFrom d done (byte :: back) =
        partsFrom (d.step byte).1 ((d.step byte).2.reverse ++ done) back := rfl
    rw [List.nil_append, hnext, step_of_lt hd hbyte, partsFrom_eq]
    simp [partsFrom, parts]
  | cons first front ih => exact ih (guarded_step first) _

/-- A byte below 0x80 parts the bytes, and is a character by itself. -/
theorem decodeLossy_append_of_lt (front : List UInt8) {byte : UInt8} (hbyte : byte.toNat < 0x80)
    (back : List UInt8) :
    decodeLossy (front ++ byte :: back) =
      decodeLossy front ++ Char.ofNat byte.toNat :: decodeLossy back := by
  rw [decodeLossy, parts, partsFrom_append_of_lt guarded_ready [] front hbyte, List.map_append]
  rfl

end Reckoner.Text.Utf8
