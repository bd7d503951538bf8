import Reckoner.Json.Reader
import Reckoner.Proofs.Number.Bits
import Reckoner.Proofs.Number.Written

/-!
# Doubles — numbers that survive their text

A double written as JSON reads back as the same double, whatever follows that cannot belong to a
number. For finite ones this needs that the digits lie in the interval of the double; infinities and
what is not a number have words of their own.
-/

namespace Reckoner.Json

open Number Layout

/-! ## Runs of digits -/

/-- Whether a text cannot continue a number. -/
def Ends (rest : List Char) : Prop :=
  ∀ c ∈ rest.head?, c.isDigit = false ∧ c ≠ '.' ∧ c ≠ 'e' ∧ c ≠ 'E'

/-! ## The parts of a number -/

theorem exponentRest?_of_ends {rest : List Char} (hrest : Ends rest) :
    exponentRest? rest = some (none, rest) := by
  cases rest with
  | nil => rfl
  | cons c rest =>
    have hc := hrest c rfl
    rw [exponentRest?, if_neg (by rintro (h | h); exacts [hc.2.2.1 h, hc.2.2.2 h])]

theorem exponentRest?_exponentText {rest : List Char} (x : Int) (hrest : Ends rest) :
    exponentRest? ('e' :: (exponentText 1 x ++ rest)) = some (some x, rest) := by
  have hdigits : ∀ c ∈ Nat.toDigits 10 x.natAbs, c.isDigit = true := fun c hc =>
    Nat.isDigit_of_mem_toDigits (by decide) (by decide) hc
  have hend : ∀ c ∈ rest.head?, c.isDigit = false := fun c hc => (hrest c hc).1
  have hvalue : ofDigits (Nat.toDigits 10 x.natAbs) = x.natAbs := Nat.ofDigitChars_ten_toDigits
  have hwidth : 1 - (Nat.toDigits 10 x.natAbs).length = 0 := by
    have := Nat.length_toDigits_pos (b := 10) (n := x.natAbs)
    omega
  have hempty : (Nat.toDigits 10 x.natAbs).isEmpty = false :=
    List.isEmpty_eq_false_iff.mpr Nat.toDigits_ne_nil
  unfold exponentText
  simp only [hwidth, List.replicate_zero, List.nil_append, List.cons_append]
  rw [exponentRest?, if_pos (Or.inl rfl)]
  by_cases hnegative : x < 0
  · rw [if_pos hnegative]
    simp only [splitSign, takeWhile_append_of_head hdigits hend,
      dropWhile_append_of_head hdigits hend, hempty, hvalue, if_true, Bool.false_eq_true, if_false]
    congr 3
    omega
  · rw [if_neg hnegative]
    simp only [splitSign, takeWhile_append_of_head hdigits hend,
      dropWhile_append_of_head hdigits hend, hempty, hvalue, Bool.false_eq_true, if_false]
    congr 3
    omega

theorem exponentRest?_exponentPart (exponent : Option Int) {rest : List Char} (hrest : Ends rest) :
    exponentRest? (exponentPart number exponent rest) = some (exponent, rest) := by
  cases exponent with
  | none => exact exponentRest?_of_ends hrest
  | some x => exact exponentRest?_exponentText x hrest

theorem fraction?_fractionPart {fraction after : List Char}
    (hfraction : ∀ c ∈ fraction, c.isDigit = true)
    (hafter : ∀ c ∈ after.head?, c.isDigit = false ∧ c ≠ '.') :
    fraction? (fractionPart fraction after) = some (fraction, after) := by
  unfold fractionPart
  by_cases hnone : fraction = []
  · subst hnone
    rw [if_pos rfl]
    unfold fraction?
    split
    · rename_i rest
      exact absurd rfl (hafter '.' rfl).2
    · rfl
  · have hend : ∀ c ∈ after.head?, c.isDigit = false := fun c hc => (hafter c hc).1
    rw [if_neg hnone, fraction?]
    simp only [takeWhile_append_of_head hfraction hend, dropWhile_append_of_head hfraction hend]
    rw [if_neg (by rwa [List.isEmpty_iff])]

/-- A number is read from its sign, its whole digits, and what the reader finds after them. -/
theorem number?_append {whole tail fraction after rest : List Char} {x : Option Int}
    (negative : Bool) (hdigits : ∀ c ∈ whole, c.isDigit = true) (hnonempty : whole ≠ [])
    (hzero : whole.length = 1 ∨ whole.head? ≠ some '0')
    (hsize : whole.length + negative.toNat ≤ maxDigits)
    (htail : ∀ c ∈ tail.head?, c.isDigit = false) (hfraction : fraction? tail = some (fraction, after))
    (hexponent : exponentRest? after = some (x, rest)) :
    number? ((if negative then ['-'] else []) ++ (whole ++ tail)) =
      some (if fraction = [] ∧ x = none then
          .int (if negative then -(ofDigits whole : Int) else ofDigits whole)
        else .float (number?.doubleOf negative whole fraction (x.getD 0)), rest) := by
  have htake := takeWhile_append_of_head hdigits htail
  have hdrop := dropWhile_append_of_head hdigits htail
  have hsign : (((if negative then ['-'] else []) ++ (whole ++ tail)).head? == some '-') =
      negative := by
    cases negative with
    | true => rfl
    | false =>
      rcases List.exists_cons_of_ne_nil hnonempty with ⟨c, digits, rfl⟩
      refine beq_eq_false_iff_ne.mpr fun heq => ?_
      cases heq
      exact nomatch hdigits '-' List.mem_cons_self
  have hunsigned : (if negative then ((if negative then ['-'] else []) ++ (whole ++ tail)).drop 1
      else (if negative then ['-'] else []) ++ (whole ++ tail)) = whole ++ tail := by
    cases negative <;> rfl
  have hform : (whole.isEmpty || (decide (1 < whole.length) && whole.head? == some '0')) = false := by
    rw [Bool.or_eq_false_iff, Bool.and_eq_false_iff, decide_eq_false_iff_not]
    refine ⟨List.isEmpty_eq_false_iff.mpr hnonempty, ?_⟩
    rcases hzero with hone | hmore
    · exact .inl (by omega)
    · exact .inr (beq_eq_false_iff_ne.mpr hmore)
  unfold number?
  simp only [hsign, hunsigned, htake, hdrop, hfraction, hexponent, hform, Bool.false_eq_true,
    if_false, if_neg (Nat.not_lt.mpr hsize)]
  cases x with
  | none => by_cases hnone : fraction = [] <;> simp [hnone]
  | some x => simp

-- The text of well-formed parts reads as the double nearest to what they spell.
theorem number?_text {p : Parts} {rest : List Char} (negative : Bool) (hp : p.WellFormed number)
    (hrest : Ends rest) :
    number? ((if negative then ['-'] else []) ++ (p.text number ++ rest)) =
      some (.float (p.value.toFloat negative), rest) := by
  rw [text_append]
  have hexponent := exponentRest?_exponentPart p.exponent hrest
  have hpart : ∀ c ∈ (exponentPart number p.exponent rest).head?, c.isDigit = false ∧ c ≠ '.' :=
    head_exponentPart ⟨rfl, by decide⟩ p.exponent fun c hc => ⟨(hrest c hc).1, (hrest c hc).2.1⟩
  have hfraction := fraction?_fractionPart hp.fraction_digits hpart
  have hafter := head_fractionPart p.fraction hpart
  have hzero : p.whole.length = 1 ∨ p.whole.head? ≠ some '0' := by
    rcases hp.leading with hone | hmore
    · exact .inl hone
    · exact .inr hmore.2
  have hsize : p.whole.length + negative.toNat ≤ maxDigits := by
    have hshort : p.whole.length ≤ 16 := hp.short
    have hone : negative.toNat ≤ 1 := Bool.toNat_le negative
    have hmax : maxDigits = 4300 := rfl
    omega
  have hdouble : ¬(p.fraction = [] ∧ p.exponent = none) := fun h => hp.point rfl h.2 h.1
  rw [number?_append negative hp.whole_digits hp.whole_ne_nil hzero hsize hafter hfraction hexponent,
    if_neg hdouble]
  rfl

/-! ## Doubles -/

-- A finite double is the one that its digits read as.
theorem exists_parts_of_finite {bits : Nat} (hfinite : bits < Binary64.infinityBits) :
    ∃ p : Parts, p.text number =
        number.ofDecimal (number.choose (Binary64.unpack bits).1 (Binary64.unpack bits).2) ∧
      p.WellFormed number ∧ p.value.nearestBits = bits := by
  unfold choose
  by_cases hzero : (Binary64.unpack bits).1 = 0
  · rw [if_pos hzero]
    have hbits : bits = 0 := by
      rcases Binary64.exists_step_unpack bits with ⟨step, -, hpack, -, hnormal⟩
      rw [hzero] at hpack hnormal
      rcases hnormal with rfl | hlarge
      · exact hpack.symm
      · omega
    subst hbits
    refine ⟨⟨['0'], ['0'], none⟩, rfl, ?_, rfl⟩
    have hdigit : ∀ c ∈ ['0'], c.isDigit = true := List.forall_mem_singleton.mpr rfl
    exact ⟨hdigit, hdigit, .inl rfl, by decide, by decide⟩
  · have hpositive := Nat.pos_of_ne_zero hzero
    rcases Binary64.exists_step_unpack bits with ⟨-, -, -, hsmall, -⟩
    have hrounds : Decimal.Rounds (Binary64.unpack bits).1 (Binary64.unpack bits).2
        (Decimal.shortest (Binary64.unpack bits).1 (Binary64.unpack bits).2).toRat :=
      Decimal.rounds_shortest hpositive hsmall
    rw [if_neg hzero]
    have hdigits := hrounds.digits_pos hpositive
    rw [← toRat_parts number hdigits] at hrounds
    exact ⟨_, text_parts number _, wellFormed_parts number hdigits,
      Decimal.nearestBits_of_rounds hpositive hfinite hrounds⟩

theorem afterWord?_eq_none {w c : Char} {word cs : List Char} (h : w ≠ c) :
    afterWord? (w :: word) (c :: cs) = none := if_neg h

-- No word begins like a number.
theorem findSome?_words_of_isDigit {c : Char} (cs : List Char) (negative : Bool)
    (hc : c.isDigit = true) :
    (words.findSome? fun word => (afterWord? word.1 ((if negative then ['-'] else []) ++ c :: cs)).map
      fun rest => (word.2, rest)) = none := by
  have hne (w : Char) (hw : w.isDigit = false) : w ≠ c := by
    rintro rfl
    rw [hw] at hc
    exact nomatch hc
  rw [List.findSome?_eq_none_iff]
  intro word hword
  rw [Option.map_eq_none_iff]
  simp only [words, List.mem_cons, List.not_mem_nil, or_false] at hword
  rcases hword with rfl | rfl | rfl | rfl | rfl | rfl <;> cases negative
  case inr.inr.inr.inr.inr.true =>
    change afterWord? ['I', 'n', 'f', 'i', 'n', 'i', 't', 'y'] (c :: cs) = none
    exact afterWord?_eq_none (hne 'I' rfl)
  all_goals first
    | exact afterWord?_eq_none (hne _ rfl)
    | exact afterWord?_eq_none (by decide)

/-- A double reads back from its text. -/
theorem wordOrNumber?_double {rest : List Char} (x : Float) (hrest : Ends rest) :
    wordOrNumber? (number.ofBinary64 (Binary64.ofFloat x) ++ rest) = some (.float x, rest) := by
  rcases Binary64.ofFloat_cases x with ⟨negative, bits, hfinite, hx, hmeaning⟩ |
    ⟨negative, hx, hmeaning⟩ | ⟨hx, hmeaning⟩
  · rcases exists_parts_of_finite hfinite with ⟨p, htext, hform, hbits⟩
    have hread := number?_text negative hform hrest
    have hnone : p.whole ≠ [] := hform.whole_ne_nil
    rcases List.exists_cons_of_ne_nil hnone with ⟨c, whole, hwhole⟩
    have hdigit := hform.whole_digits c (by rw [hwhole]; exact List.mem_cons_self)
    rw [Decimal.toFloat, hbits, ← hx] at hread
    rw [hmeaning, ofBinary64, ← htext, List.append_assoc, wordOrNumber?]
    rw [text_append, hwhole, List.cons_append] at hread ⊢
    rw [findSome?_words_of_isDigit _ negative hdigit]
    exact hread
  · rw [hmeaning, hx]
    cases negative <;> rfl
  · rw [hmeaning, hx]
    rfl

end Reckoner.Json
