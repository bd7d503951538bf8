import Mathlib.Tactic.IntervalCases
import Reckoner.Proofs.Json.Grammar
import Reckoner.Proofs.Json.RoundTrip

/-!
# Strings — code units and characters

A string is a text if its code units are those of characters. The reader takes just these strings: it
puts the halves of a pair together, and a half that is left alone is refused.
-/

namespace Reckoner.Json

/-! ## Letters and digits -/

theorem escaped?_eq_some_iff {l c : Char} : escaped? l = some c ↔ (l, c) ∈ letters := by
  constructor
  · intro h
    unfold escaped? at h
    split at h
    case h_9 => cases h
    all_goals
      cases h
      decide
  · intro h
    simp only [letters, List.mem_cons, List.not_mem_nil, or_false, Prod.mk.injEq] at h
    rcases h with ⟨rfl, rfl⟩ | ⟨rfl, rfl⟩ | ⟨rfl, rfl⟩ | ⟨rfl, rfl⟩ | ⟨rfl, rfl⟩ | ⟨rfl, rfl⟩ |
      ⟨rfl, rfl⟩ | ⟨rfl, rfl⟩ <;> rfl

theorem IsHexDigit.lt {c : Char} {n : Nat} (h : IsHexDigit c n) : n < 16 := by
  rcases h with h | h <;> exact (List.getElem?_eq_some_iff.mp h).1

-- A digit and its place in its alphabet.
theorem isHexDigit_ofNat : (∀ n < 10, IsHexDigit (Char.ofNat ('0'.toNat + n)) n) ∧
    (∀ n < 6, IsHexDigit (Char.ofNat ('a'.toNat + n)) (n + 10)) ∧
    ∀ n < 6, IsHexDigit (Char.ofNat ('A'.toNat + n)) (n + 10) := by
  unfold IsHexDigit
  decide

theorem ofNat_add_sub {first c : Char} (h : first.toNat ≤ c.toNat) :
    Char.ofNat (first.toNat + (c.toNat - first.toNat)) = c := by
  rw [Nat.add_sub_cancel' h, Char.ofNat_toNat]

theorem hexValue?_eq_some_iff {c : Char} {n : Nat} : hexValue? c = some n ↔ IsHexDigit c n := by
  constructor
  · intro h
    have hbounds : '9'.toNat = '0'.toNat + 9 ∧ 'f'.toNat = 'a'.toNat + 5 ∧
      'F'.toNat = 'A'.toNat + 5 := by decide
    have hle (a b : Char) : a ≤ b ↔ a.toNat ≤ b.toNat := Iff.rfl
    simp only [hexValue?, Char.isDigit_iff_toNat, hle] at h
    split_ifs at h with hdigit hsmall hcapital
    · have hplace := isHexDigit_ofNat.1 (c.toNat - '0'.toNat) (by omega)
      rwa [ofNat_add_sub hdigit.1, Option.some.inj h] at hplace
    · have hplace := isHexDigit_ofNat.2.1 (c.toNat - 'a'.toNat) (by omega)
      rwa [ofNat_add_sub hsmall.1, Option.some.inj h] at hplace
    · have hplace := isHexDigit_ofNat.2.2 (c.toNat - 'A'.toNat) (by omega)
      rwa [ofNat_add_sub hcapital.1, Option.some.inj h] at hplace
  · intro h
    have hlt := h.lt
    interval_cases n <;> rcases h with h | h <;> cases h <;> rfl

theorem codeUnit?_eq_some_iff {a b c d : Char} {u : Nat} :
    codeUnit? a b c d = some u ↔
      ∃ i j k l, IsHexDigit a i ∧ IsHexDigit b j ∧ IsHexDigit c k ∧ IsHexDigit d l ∧
        ((i * 16 + j) * 16 + k) * 16 + l = u := by
  simp only [← hexValue?_eq_some_iff]
  constructor
  · intro h
    unfold codeUnit? at h
    split at h
    · rename_i i j k l ha hb hc hd
      exact ⟨i, j, k, l, ha, hb, hc, hd, Option.some.inj h⟩
    · cases h
  · rintro ⟨i, j, k, l, ha, hb, hc, hd, rfl⟩
    simp only [codeUnit?, ha, hb, hc, hd]

theorem codeUnit?_lt {a b c d : Char} {u : Nat} (h : codeUnit? a b c d = some u) : u < 0x10000 := by
  rcases codeUnit?_eq_some_iff.mp h with ⟨i, j, k, l, hi, hj, hk, hl, rfl⟩
  have hi := hi.lt
  have hj := hj.lt
  have hk := hk.lt
  have hl := hl.lt
  omega

/-! ## Code units -/

/-- Two units are the halves of the pair that is a character. -/
structure IsPair (c : Char) (high low : Nat) : Prop where
  le_high : 0xD800 ≤ high
  high_lt : high < 0xDC00
  le_low : 0xDC00 ≤ low
  low_lt : low < 0xE000
  toNat_eq : c.toNat = 0x10000 + (high - 0xD800) * 0x400 + (low - 0xDC00)

/-- A character is one unit that is no half of a pair, or two units that are the halves of one. -/
theorem unitsOfChar_cases (c : Char) :
    (unitsOfChar c = [c.toNat] ∧ (c.toNat < 0xD800 ∨ 0xE000 ≤ c.toNat)) ∨
      ∃ high low, unitsOfChar c = [high, low] ∧ IsPair c high low := by
  have hvalid : c.toNat < 0xD800 ∨ 0xDFFF < c.toNat ∧ c.toNat < 0x110000 := c.valid
  rw [unitsOfChar]
  by_cases hshort : c.toNat < 0x10000
  · rw [if_pos hshort]
    exact .inl ⟨rfl, by omega⟩
  · rw [if_neg hshort]
    exact .inr ⟨_, _, rfl, ⟨by omega, by omega, by omega, by omega, by omega⟩⟩

-- The units of a character do not depend on what follows them.
theorem unitsOfChar_append_inj {c d : Char} {us vs : List Nat}
    (h : unitsOfChar c ++ us = unitsOfChar d ++ vs) : c = d ∧ us = vs := by
  rcases unitsOfChar_cases c with ⟨hc, hsingle⟩ | ⟨high, low, hc, hpair⟩ <;>
    rcases unitsOfChar_cases d with ⟨hd, hsingle'⟩ | ⟨high', low', hd, hpair'⟩ <;>
    simp only [hc, hd, List.cons_append, List.nil_append, List.cons.injEq] at h
  · exact ⟨Char.toNat_inj.mp h.1, h.2⟩
  · have hle := hpair'.le_high
    have hlt := hpair'.high_lt
    omega
  · have hle := hpair.le_high
    have hlt := hpair.high_lt
    omega
  · rcases h with ⟨rfl, rfl, hrest⟩
    exact ⟨Char.toNat_inj.mp (hpair.toNat_eq.trans hpair'.toNat_eq.symm), hrest⟩

theorem toNat_ofNat {n : Nat} (h : n < 0xD800 ∨ 0xDFFF < n ∧ n < 0x110000) :
    (Char.ofNat n).toNat = n := by
  rw [Char.ofNat, dif_pos h]
  rfl

theorem unitsOfChar_ofNat {u : Nat} (h : u < 0xD800 ∨ 0xE000 ≤ u) (hlt : u < 0x10000) :
    unitsOfChar (Char.ofNat u) = [u] := by
  rw [unitsOfChar, toNat_ofNat (by omega), if_pos hlt]

theorem unitsOfChar_ofNat_pair {high low : Nat} (hhigh : 0xD800 ≤ high ∧ high < 0xDC00)
    (hlow : 0xDC00 ≤ low ∧ low < 0xE000) :
    unitsOfChar (Char.ofNat (0x10000 + (high - 0xD800) * 0x400 + (low - 0xDC00))) =
      [high, low] := by
  rw [unitsOfChar, toNat_ofNat (by omega), if_neg (by omega), List.cons.injEq, List.cons.injEq]
  exact ⟨by omega, by omega, rfl⟩

theorem unitsOfChar_of_mem_letters {l c : Char} (h : (l, c) ∈ letters) :
    unitsOfChar c = [c.toNat] := by
  have hall : ∀ m ∈ letters, unitsOfChar m.2 = [m.2.toNat] := by decide
  exact hall _ h

theorem unitsOf_cons_ne_nil (c : Char) (text : List Char) : unitsOf (c :: text) ≠ [] := by
  rw [unitsOf, List.flatMap_cons]
  rcases unitsOfChar_cases c with ⟨hc, -⟩ | ⟨high, low, hc, -⟩ <;> rw [hc] <;>
    exact List.cons_ne_nil _ _

-- The units of one character in front of others are those of a text that begins with it.
theorem exists_of_unitsOf_eq {c : Char} {us : List Nat} {text : List Char}
    (h : unitsOf text = unitsOfChar c ++ us) : ∃ text', text = c :: text' ∧ us = unitsOf text' := by
  cases text with
  | nil =>
    rcases unitsOfChar_cases c with ⟨hc, -⟩ | ⟨high, low, hc, -⟩ <;> rw [hc] at h <;> cases h
  | cons d text =>
    rcases unitsOfChar_append_inj h with ⟨rfl, hus⟩
    exact ⟨text, rfl, hus.symm⟩

/-! ## What the reader takes is a string -/

/-- What the reader takes for a string is one, and says the text that was read. -/
theorem closes_of_stringRest {done cs rest : List Char} {s : String}
    (h : stringRest done cs = some (s, rest)) :
    ∃ text, s.toList = done.reverse ++ text ∧ Closes cs (unitsOf text) rest := by
  have hcons {done text : List Char} {c : Char} (hs : s.toList = (c :: done).reverse ++ text) :
      s.toList = done.reverse ++ c :: text := by
    rw [hs, List.reverse_cons, List.append_assoc]
    rfl
  fun_induction stringRest done cs with
  | case2 done rest =>
    cases h
    exact ⟨[], by rw [String.toList_ofList, List.append_nil], .quote rest⟩
  | case5 done a b c d high hhigh hpair a' b' c' d' cs low hlow hpair' ih =>
    rcases ih h with ⟨text, hs, hcloses⟩
    rcases codeUnit?_eq_some_iff.mp hhigh with ⟨i, j, k, l, hi, hj, hk, hl, rfl⟩
    rcases codeUnit?_eq_some_iff.mp hlow with ⟨i', j', k', l', hi', hj', hk', hl', rfl⟩
    refine ⟨_, hcons hs, ?_⟩
    rw [unitsOf, List.flatMap_cons, unitsOfChar_ofNat_pair hpair hpair']
    exact .unit hi hj hk hl (.unit hi' hj' hk' hl' hcloses)
  | case9 done a b c d cs u hu hhigh hlow ih =>
    rcases ih h with ⟨text, hs, hcloses⟩
    refine ⟨_, hcons hs, ?_⟩
    rw [unitsOf, List.flatMap_cons, unitsOfChar_ofNat (by omega) (codeUnit?_lt hu)]
    rcases codeUnit?_eq_some_iff.mp hu with ⟨i, j, k, l, hi, hj, hk, hl, rfl⟩
    exact .unit hi hj hk hl hcloses
  | case10 done l cs hplain c hc ih =>
    rcases ih h with ⟨text, hs, hcloses⟩
    have hletter := escaped?_eq_some_iff.mp hc
    refine ⟨_, hcons hs, ?_⟩
    rw [unitsOf, List.flatMap_cons, unitsOfChar_of_mem_letters hletter]
    exact .letter hletter hcloses
  | case13 done c cs hquote hunit hletter hplain ih =>
    rcases ih h with ⟨text, hs, hcloses⟩
    rw [not_or, Nat.not_lt] at hplain
    exact ⟨_, hcons hs, .plain hquote hplain.1 hplain.2 hcloses⟩
  | _ => cases h

/-! ## A string that is a text is taken -/

/-- What the reader makes of a string: of a text its characters, and of a text with the second half
of a pair in front of it the character that this half completes. -/
structure Completes (cs : List Char) (us : List Nat) (rest : List Char) : Prop where
  text : ∀ text, us = unitsOf text →
    ∀ done, stringRest done cs = some (String.ofList (done.reverse ++ text), rest)
  half : ∀ low text, us = low :: unitsOf text → 0xDC00 ≤ low → low < 0xE000 →
    ∃ a b c d cs', cs = '\\' :: 'u' :: a :: b :: c :: d :: cs' ∧ codeUnit? a b c d = some low ∧
      ∀ done, stringRest done cs' = some (String.ofList (done.reverse ++ text), rest)

namespace Completes

variable {cs rest : List Char} {us : List Nat}

theorem quote (rest : List Char) : Completes ('"' :: rest) [] rest := by
  constructor
  · intro text htext done
    cases text with
    | nil => rw [stringRest, List.append_nil]
    | cons c text => exact absurd htext.symm (unitsOf_cons_ne_nil c text)
  · intro low text hlow
    cases hlow

theorem plain {c : Char} (hquote : c ≠ '"') (hslash : c ≠ '\\') (hprintable : 0x20 ≤ c.toNat)
    (h : Completes cs us rest) : Completes (c :: cs) (unitsOfChar c ++ us) rest := by
  constructor
  · intro text htext done
    rcases exists_of_unitsOf_eq htext.symm with ⟨text, rfl, hus⟩
    rw [stringRest_plain hquote hslash (Nat.not_lt.mpr hprintable), h.text text hus,
      List.reverse_cons, List.append_assoc]
    rfl
  · -- No character begins with the second half of a pair.
    intro low text hus hlow hlow'
    rcases unitsOfChar_cases c with ⟨hc, hsingle⟩ | ⟨high, _, hc, hpair⟩ <;>
      rw [hc, List.cons_append, List.cons.injEq] at hus
    · omega
    · have hlt := hpair.high_lt
      omega

theorem letter {l c : Char} (hletter : (l, c) ∈ letters) (h : Completes cs us rest) :
    Completes ('\\' :: l :: cs) (c.toNat :: us) rest := by
  constructor
  · intro text htext done
    rw [← List.singleton_append, ← unitsOfChar_of_mem_letters hletter] at htext
    rcases exists_of_unitsOf_eq htext.symm with ⟨text, rfl, hus⟩
    rw [stringRest, escaped?_eq_some_iff.mpr hletter]
    · simp only [h.text text hus, List.reverse_cons, List.append_assoc, List.singleton_append]
    · have hall : ∀ m ∈ letters, m.1 ≠ 'u' := by decide
      exact fun _ _ _ _ _ hu _ => hall _ hletter hu
  · intro low text hus hlow
    have hall : ∀ m ∈ letters, m.2.toNat < 0xDC00 := by decide
    have hsmall : c.toNat < 0xDC00 := hall _ hletter
    rw [List.cons.injEq] at hus
    omega

theorem unit {a b c d : Char} {u : Nat} (hunit : codeUnit? a b c d = some u)
    (h : Completes cs us rest) :
    Completes ('\\' :: 'u' :: a :: b :: c :: d :: cs) (u :: us) rest := by
  constructor
  · intro text htext done
    cases text with
    | nil => cases htext
    | cons e text =>
      rw [unitsOf, List.flatMap_cons] at htext
      rcases unitsOfChar_cases e with ⟨he, hsingle⟩ | ⟨high, low, he, hpair⟩ <;>
        rw [he, List.cons_append, List.cons.injEq] at htext <;> rcases htext with ⟨rfl, hus⟩
      · rw [stringRest, hunit]
        simp only [if_neg (show ¬(0xD800 ≤ e.toNat ∧ e.toNat < 0xDC00) by omega),
          if_neg (show ¬(0xDC00 ≤ e.toNat ∧ e.toNat < 0xE000) by omega), Char.ofNat_toNat,
          h.text text hus, List.reverse_cons, List.append_assoc, List.singleton_append]
      · -- The other half comes in an escape of its own.
        rcases h.half low text hus hpair.le_low hpair.low_lt with
          ⟨a', b', c', d', cs', rfl, hunit', hread⟩
        rw [stringRest, hunit]
        simp only [if_pos (And.intro hpair.le_high hpair.high_lt), hunit',
          if_pos (And.intro hpair.le_low hpair.low_lt), ← hpair.toNat_eq, Char.ofNat_toNat,
          hread, List.reverse_cons, List.append_assoc, List.singleton_append]
  · intro low text hus hlow hlow'
    rw [List.cons.injEq] at hus
    exact ⟨a, b, c, d, cs, rfl, hus.1 ▸ hunit, h.text text hus.2⟩

end Completes

theorem Closes.completes {cs rest : List Char} {us : List Nat} (h : Closes cs us rest) :
    Completes cs us rest := by
  induction h with
  | quote rest => exact .quote rest
  | plain hquote hslash hprintable _ ih => exact .plain hquote hslash hprintable ih
  | letter hletter _ ih => exact .letter hletter ih
  | unit ha hb hc hd _ ih =>
    exact .unit (codeUnit?_eq_some_iff.mpr ⟨_, _, _, _, ha, hb, hc, hd, rfl⟩) ih

theorem Closes.length_lt {cs rest : List Char} {us : List Nat} (h : Closes cs us rest) :
    rest.length < cs.length := by
  induction h with
  | quote rest => exact Nat.lt_succ_self _
  | plain _ _ _ _ ih => exact ih.trans (Nat.lt_succ_self _)
  | letter _ _ ih => exact ih.trans (by simp only [List.length_cons]; omega)
  | unit _ _ _ _ _ ih => exact ih.trans (by simp only [List.length_cons]; omega)

end Reckoner.Json
