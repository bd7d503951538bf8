import Mathlib
import Reckoner.Outcome
import Reckoner.Proofs.Number.Significant
import Reckoner.Proofs.Number.Tests
import Reckoner.Proofs.Number.Written
import Reckoner.Proofs.Text.Lines

/-!
# Amounts — values as they are shown

A finite value is shown by the digits of its rounding and nothing more: no zero ends a fraction and no
point ends a text. Read again, the text is the rounded number. Whole numbers of up to as many digits are
shown as they are.
-/

namespace Reckoner.Number

/-! ## Digits -/

theorem isDigitRun_iff {cs : List Char} :
    isDigitRun cs = true ↔ cs ≠ [] ∧ ∀ c ∈ cs, c.isDigit = true := by
  rw [isDigitRun, Bool.and_eq_true, Bool.not_eq_true', List.isEmpty_eq_false_iff, List.all_eq_true]

theorem ofDigits_concat (digits : List Char) (c : Char) :
    ofDigits (digits ++ [c]) = 10 * ofDigits digits + (c.toNat - '0'.toNat) := by
  rw [ofDigits, Nat.ofDigitChars_append, Nat.ofDigitChars_cons, Nat.ofDigitChars_nil, ofDigits]

theorem digitChar_toNat_sub {c : Char} (h : c.isDigit = true) :
    c.toNat - '0'.toNat < 10 ∧ Nat.digitChar (c.toNat - '0'.toNat) = c := by
  simp only [Char.isDigit, Bool.and_eq_true, decide_eq_true_eq, UInt32.le_iff_toNat_le] at h
  change 48 ≤ c.toNat ∧ c.toNat ≤ 57 at h
  have hzero : '0'.toNat = 48 := rfl
  refine ⟨by omega, Char.toNat_inj.mp ?_⟩
  rw [Nat.toNat_digitChar_of_lt_ten (by omega)]
  omega

theorem digit_pos {c : Char} (h : c.isDigit = true) (hne : c ≠ '0') : 0 < c.toNat - '0'.toNat := by
  by_contra hzero
  refine hne ?_
  rw [← (digitChar_toNat_sub h).2, show c.toNat - '0'.toNat = 0 by omega]
  rfl

/-- The rational number that a text spells, with its sign. -/
def spelled? (cs : List Char) : Option ℚ :=
  (decimal? (splitSign cs).2).map fun d => Binary64.signed (splitSign cs).1 d.toRat

namespace Layout

variable {n : Layout} {d : Decimal}

/-- Digits that do not begin with zero are those of the number that they spell. -/
theorem Leading.toDigits_ofDigits {digits : List Char} (h : Leading digits) :
    Nat.toDigits 10 (ofDigits digits) = digits := by
  induction digits using List.reverseRecOn with
  | nil => exact absurd rfl h.nonempty
  | append_singleton front c ih =>
    have hdigit := h.all c (List.mem_append_right _ (List.mem_singleton_self c))
    obtain ⟨hsmall, hchar⟩ := digitChar_toNat_sub hdigit
    by_cases hfront : front = []
    · subst hfront
      rw [ofDigits_concat, ofDigits, Nat.ofDigitChars_nil, Nat.mul_zero, Nat.zero_add,
        Nat.toDigits_of_lt_base hsmall, hchar, List.nil_append]
    · have hhead := h.head
      rw [List.head?_append_of_ne_nil _ hfront] at hhead
      have hdigits := ih ⟨fun b hb => h.all b (List.mem_append_left _ hb), hfront, hhead⟩
      have hpos : 0 < ofDigits front := by
        by_contra hzero
        rw [show ofDigits front = 0 by omega] at hdigits
        exact hhead (by rw [← hdigits]; rfl)
      rw [ofDigits_concat, ← Nat.toDigits_append_toDigits (by decide) hpos hsmall, hdigits,
        Nat.toDigits_of_lt_base hsmall, hchar]

/-! ## Parts -/

theorem exponent_parts (n : Layout) (d : Decimal) : (n.parts d).exponent =
    if n.lowest ≤ leadingExponent d ∧ leadingExponent d < n.highest then none
    else some (leadingExponent d) := by
  have hpositional (digits : List Char) (x : Int) : (n.positionalParts digits x).exponent = none := by
    unfold positionalParts
    split
    · rfl
    · split <;> rfl
  rw [parts, apply_ite Parts.exponent, hpositional]
  rfl

-- A fraction ends where the digits end.
theorem getLast?_fraction_parts (hpoint : n.keepsPoint = false) (hd : 0 < d.digits) :
    (n.parts d).fraction.getLast? ≠ some '0' := by
  have hlast := getLast?_significant hd
  have hdrop (k : Nat) : ((significant d.digits).drop k).getLast? ≠ some '0' := by
    rw [List.getLast?_drop]
    split
    · exact (Option.some_ne_none _).symm
    · exact hlast
  unfold parts
  split
  · unfold positionalParts
    split
    · show (List.replicate _ '0' ++ significant d.digits).getLast? ≠ _
      rwa [List.getLast?_append_of_ne_nil _ (significant_ne_nil d.digits)]
    · split
      · rw [hpoint]
        exact (Option.some_ne_none _).symm
      · exact hdrop _
  · exact hdrop 1

theorem digits_pos_of_toRat_pos (h : 0 < d.toRat) : 0 < d.digits := by
  by_contra hzero
  rw [Decimal.toRat, show d.digits = 0 by omega, Nat.cast_zero, zero_mul] at h
  exact h.false

/-- The exponent of the leading digit tells between which powers of ten a number lies. -/
theorem leadingExponent_bounds (h : 0 < d.toRat) :
    (10 : ℚ) ^ leadingExponent d ≤ d.toRat ∧ d.toRat < 10 ^ (leadingExponent d + 1) := by
  have hd := digits_pos_of_toRat_pos h
  have hsize : (decimalSize d.digits : Int) + d.exponent = leadingExponent d + 1 := by
    rw [decimalSize, if_neg hd.ne', leadingExponent]
    omega
  have hbounds := Decimal.order_bounds hd
  rw [hsize, add_sub_cancel_right] at hbounds
  exact hbounds

theorem leadingExponent_eq {x : Int} (hlow : (10 : ℚ) ^ x ≤ d.toRat)
    (hhigh : d.toRat < 10 ^ (x + 1)) : leadingExponent d = x := by
  obtain ⟨hleast, hmost⟩ := leadingExponent_bounds ((Decimal.ten_zpow_pos x).trans_le hlow)
  have hbelow := (zpow_lt_zpow_iff_right₀ (by norm_num)).mp (hleast.trans_lt hhigh)
  have habove := (zpow_lt_zpow_iff_right₀ (by norm_num)).mp (hlow.trans_lt hmost)
  omega

/-! ## Reading back -/

theorem ofDigits_exponent (width : Nat) (x : Int) :
    ofDigits (List.replicate (width - (Nat.toDigits 10 x.natAbs).length) '0' ++
      Nat.toDigits 10 x.natAbs) = x.natAbs := by
  rw [ofDigits_zeros_append]
  exact Nat.ofDigitChars_ten_toDigits

theorem isDigitRun_exponent (width : Nat) (x : Int) :
    isDigitRun (List.replicate (width - (Nat.toDigits 10 x.natAbs).length) '0' ++
      Nat.toDigits 10 x.natAbs) = true := by
  refine isDigitRun_iff.mpr ⟨List.append_ne_nil_of_right_ne_nil _ Nat.toDigits_ne_nil, fun c hc => ?_⟩
  rcases List.mem_append.mp hc with hzero | hdigit
  · exact isDigit_of_mem_zeros hzero
  · exact Nat.isDigit_of_mem_toDigits (by decide) (by decide) hdigit

theorem exponent?_exponentPart (hmark : n.mark = 'e' ∨ n.mark = 'E') (exponent : Option Int) :
    exponent? (exponentPart n exponent []) = some (exponent.getD 0) := by
  cases exponent with
  | none => rfl
  | some x =>
    rw [exponentPart, List.append_nil, exponentText, exponent?]
    by_cases hnegative : x < 0
    · rw [if_pos hnegative]
      simp only [splitSign]
      rw [if_pos ⟨hmark, isDigitRun_exponent n.exponentWidth x⟩, if_pos trivial, ofDigits_exponent,
        Option.getD_some, Option.some.injEq]
      omega
    · rw [if_neg hnegative]
      simp only [splitSign]
      rw [if_pos ⟨hmark, isDigitRun_exponent n.exponentWidth x⟩, if_neg Bool.false_ne_true,
        ofDigits_exponent, Option.getD_some, Option.some.injEq]
      omega

theorem splitFraction_fractionPart {fraction after : List Char}
    (hfraction : ∀ c ∈ fraction, c.isDigit = true)
    (hafter : ∀ c ∈ after.head?, c.isDigit = false ∧ c ≠ '.') :
    splitFraction (fractionPart fraction after) = (fraction, after) := by
  unfold fractionPart
  by_cases hnone : fraction = []
  · rw [if_pos hnone, hnone]
    unfold splitFraction
    split
    · exact absurd rfl (hafter '.' rfl).2
    · rfl
  · have hend : ∀ c ∈ after.head?, c.isDigit = false := fun c hc => (hafter c hc).1
    rw [if_neg hnone, splitFraction, takeWhile_append_of_head hfraction hend,
      dropWhile_append_of_head hfraction hend]

/-- The text of well-formed parts reads as the number that they spell. -/
theorem decimal?_text {p : Parts} (hp : p.WellFormed n) (hmark : n.mark = 'e' ∨ n.mark = 'E') :
    decimal? (p.text n) = some p.value := by
  have hletter : n.mark.isDigit = false ∧ n.mark ≠ '.' := by
    rcases hmark with heq | heq <;> rw [heq] <;> decide
  have hpart : ∀ c ∈ (exponentPart n p.exponent []).head?, c.isDigit = false ∧ c ≠ '.' :=
    head_exponentPart hletter p.exponent nofun
  have hafter := head_fractionPart p.fraction hpart
  have hsome : (p.whole.isEmpty && p.fraction.isEmpty) = false := by
    rw [List.isEmpty_eq_false_iff.mpr hp.whole_ne_nil, Bool.false_and]
  rw [← List.append_nil (p.text n), text_append, decimal?,
    takeWhile_append_of_head hp.whole_digits hafter, dropWhile_append_of_head hp.whole_digits hafter,
    splitFraction_fractionPart hp.fraction_digits hpart]
  simp only [hsome, Bool.false_eq_true, if_false, exponent?_exponentPart hmark, Option.map_some,
    Parts.value]

theorem splitSign_text {p : Parts} (hp : p.WellFormed n) (negative : Bool) :
    splitSign ((if negative then ['-'] else []) ++ p.text n) = (negative, p.text n) := by
  cases negative with
  | true => rfl
  | false =>
    obtain ⟨c, whole, hwhole⟩ := List.exists_cons_of_ne_nil hp.whole_ne_nil
    have hdigit := hp.whole_digits c (by rw [hwhole]; exact List.mem_cons_self)
    have htext : p.text n = c :: (whole ++ fractionPart p.fraction (exponentPart n p.exponent [])) := by
      rw [← List.append_nil (p.text n), text_append, hwhole, List.cons_append]
    rw [if_neg Bool.false_ne_true, List.nil_append, htext]
    unfold splitSign
    split
    · rename_i heq
      rw [(List.cons.inj heq).1] at hdigit
      exact nomatch hdigit
    · rename_i heq
      rw [(List.cons.inj heq).1] at hdigit
      exact nomatch hdigit
    · rfl

/-! ## Whole numbers -/

-- A fraction with a last digit above zero would not spell a whole number.
theorem fraction_eq_nil {p : Parts} {k : Nat} (hdigits : ∀ c ∈ p.fraction, c.isDigit = true)
    (hlast : p.fraction.getLast? ≠ some '0') (hexponent : p.exponent = none)
    (hvalue : p.value.toRat = k) : p.fraction = [] := by
  rcases List.eq_nil_or_concat' p.fraction with hnone | ⟨front, c, hfraction⟩
  · exact hnone
  exfalso
  rw [hfraction] at hdigits hlast
  rw [List.getLast?_concat, ne_eq, Option.some.injEq] at hlast
  have hdigit := hdigits c (List.mem_append_right _ (List.mem_singleton_self c))
  have hsmall := (digitChar_toNat_sub hdigit).1
  have hpos := digit_pos hdigit hlast
  have hscaled : (10 * ofDigits (p.whole ++ front) + (c.toNat - '0'.toNat) : Nat) =
      k * 10 ^ (front.length + 1) := by
    rw [Decimal.toRat, Parts.value, hexponent, hfraction, ← List.append_assoc, ofDigits_concat,
      Option.getD_none, zero_sub, zpow_neg, zpow_natCast, List.length_append,
      List.length_singleton] at hvalue
    have hcleared := (mul_inv_eq_iff_eq_mul₀ (by positivity)).mp hvalue
    exact_mod_cast hcleared
  rw [pow_succ, ← Nat.mul_assoc] at hscaled
  omega

/-- A whole number that is written without an exponent is written by its digits. -/
theorem text_parts_of_natCast (hpoint : n.keepsPoint = false) {k : Nat} (hk : 0 < k)
    (hd : d.toRat = k) (hexponent : (n.parts d).exponent = none) :
    (n.parts d).text n = Nat.toDigits 10 k := by
  have hdigits := digits_pos_of_toRat_pos (hd ▸ Nat.cast_pos.mpr hk)
  have hform := wellFormed_parts n hdigits
  have hvalue := (toRat_parts n hdigits).trans hd
  have hfraction := fraction_eq_nil hform.fraction_digits (getLast?_fraction_parts hpoint hdigits)
    hexponent hvalue
  have hwhole : ofDigits (n.parts d).whole = k := by
    rw [Decimal.toRat, Parts.value, hexponent, hfraction, List.append_nil, Option.getD_none,
      List.length_nil, Nat.cast_zero, sub_zero, zpow_zero, mul_one] at hvalue
    exact_mod_cast hvalue
  have hleading : Leading (n.parts d).whole := by
    refine ⟨hform.whole_digits, hform.whole_ne_nil, ?_⟩
    rcases hform.leading with hone | hmore
    · intro hzero
      obtain ⟨c, hc⟩ := List.length_eq_one_iff.mp hone
      rw [hc, List.head?_cons, Option.some.injEq] at hzero
      rw [hc, hzero] at hwhole
      exact hk.ne hwhole
    · exact hmore.2
  rw [Parts.text, hfraction, hexponent, if_pos rfl, List.append_nil, List.append_nil,
    ← hleading.toDigits_ofDigits, hwhole]

end Layout

/-! ## The form of a text -/

/-- Digits, of which the first is zero only if it is the only one. -/
structure IsWhole (digits : List Char) : Prop where
  run : isDigitRun digits = true
  leading : digits.length = 1 ∨ digits.head? ≠ some '0'

/-- A number in fixed notation: no point ends it, and no zero ends its fraction. -/
inductive IsFixed : List Char → Prop
  | whole {digits : List Char} (hwhole : IsWhole digits) : IsFixed digits
  | point {digits fraction : List Char} (hwhole : IsWhole digits)
      (hfraction : isDigitRun fraction = true) (hlast : fraction.getLast? ≠ some '0') :
      IsFixed (digits ++ '.' :: fraction)

/-- A number with the exponent `x`, which has a sign and two digits at least. -/
def IsScientific (x : ℤ) (cs : List Char) : Prop :=
  ∃ significand digits, cs = significand ++ 'E' :: (if x < 0 then '-' else '+') :: digits ∧
    IsFixed significand ∧ isDigitRun digits = true ∧ 2 ≤ digits.length ∧ ofDigits digits = x.natAbs

theorem IsFixed.digit_or_point {cs : List Char} (h : IsFixed cs) :
    ∀ c ∈ cs, c.isDigit = true ∨ c = '.' := by
  cases h with
  | whole hwhole => exact fun c hc => .inl ((isDigitRun_iff.mp hwhole.run).2 c hc)
  | point hwhole hfraction =>
    intro c hc
    rcases List.mem_append.mp hc with hfront | hback
    · exact .inl ((isDigitRun_iff.mp hwhole.run).2 c hfront)
    · rcases List.mem_cons.mp hback with hpoint | hdigit
      · exact .inr hpoint
      · exact .inl ((isDigitRun_iff.mp hfraction).2 c hdigit)

theorem IsScientific.not_isFixed {x : ℤ} {cs : List Char} (h : IsScientific x cs) :
    ¬IsFixed cs := by
  obtain ⟨significand, digits, rfl, -⟩ := h
  intro hfixed
  have hmark := hfixed.digit_or_point 'E' (by simp)
  exact absurd hmark (by decide)

namespace Layout

variable {n : Layout} {d : Decimal}

theorem Parts.WellFormed.isFixed {p : Parts} (hp : p.WellFormed n)
    (hlast : p.fraction.getLast? ≠ some '0') : IsFixed (p.whole ++ fractionPart p.fraction []) := by
  have hwhole : IsWhole p.whole :=
    ⟨isDigitRun_iff.mpr ⟨hp.whole_ne_nil, hp.whole_digits⟩, hp.leading.imp_right And.right⟩
  unfold fractionPart
  split
  · rw [List.append_nil]
    exact .whole hwhole
  · rename_i hsome
    rw [List.append_nil]
    exact .point hwhole (isDigitRun_iff.mpr ⟨hsome, hp.fraction_digits⟩) hlast

theorem fractionPart_append (fraction after : List Char) :
    fractionPart fraction after = fractionPart fraction [] ++ after := by
  unfold fractionPart
  split
  · rfl
  · rw [List.append_nil, List.cons_append]

/-- A positive number has the form that the exponent of its leading digit asks for. -/
theorem text_parts_form (hpoint : n.keepsPoint = false) (hmark : n.mark = 'E')
    (hwidth : 2 ≤ n.exponentWidth) (hd : 0 < d.digits) :
    if n.lowest ≤ leadingExponent d ∧ leadingExponent d < n.highest then
      IsFixed ((n.parts d).text n)
    else IsScientific (leadingExponent d) ((n.parts d).text n) := by
  have hfixed := (wellFormed_parts n hd).isFixed (getLast?_fraction_parts hpoint hd)
  have hexponent := exponent_parts n d
  have htext := text_append (n := n) (n.parts d) []
  rw [List.append_nil, fractionPart_append, ← List.append_assoc] at htext
  rw [htext]
  split
  · rename_i hrange
    rw [if_pos hrange] at hexponent
    rw [hexponent, exponentPart, List.append_nil]
    exact hfixed
  · rename_i hrange
    rw [if_neg hrange] at hexponent
    rw [hexponent, exponentPart, List.append_nil, hmark, exponentText]
    refine ⟨_, _, rfl, hfixed, isDigitRun_exponent _ _, ?_, ofDigits_exponent _ _⟩
    rw [List.length_append, List.length_replicate]
    omega

end Layout

end Reckoner.Number

namespace Reckoner

open Number Number.Layout Number.Binary64

/-! ## Values -/

variable {x : Float} {negative : Bool} {mantissa : Nat} {exponent : Int}

theorem toList_write (h : ofFloat x = .finite negative mantissa exponent) :
    (amount.write x).toList = (if negative then ['-'] else []) ++
      (amount.parts (amount.choose mantissa exponent)).text amount := by
  rw [Layout.write, String.toList_ofList, h, ofBinary64, text_parts]

/-- What is shown of a value other than zero is a rounding to 14 digits. -/
theorem isRounding_choose (exponent : Int) (hm : 0 < mantissa) :
    ((amount.choose mantissa exponent).carried 14).IsRounding 14 (mantissa * 2 ^ exponent) := by
  rw [← toRat_magnitude, choose, if_neg hm.ne']
  exact Decimal.isRounding_rounded (by decide) (num_magnitude_pos exponent hm)

theorem toRat_choose_pos (exponent : Int) (hm : 0 < mantissa) :
    0 < (amount.choose mantissa exponent).toRat := by
  have hround := isRounding_choose exponent hm
  rw [← Decimal.toRat_carried (show 0 < 14 by decide)]
  exact (Decimal.ten_zpow_pos _).trans_le hround.order.1

theorem leadingExponent_choose (exponent : Int) (hm : 0 < mantissa) :
    leadingExponent (amount.choose mantissa exponent) =
      ((amount.choose mantissa exponent).carried 14).exponent + 13 := by
  obtain ⟨hlow, hhigh⟩ := (isRounding_choose exponent hm).order
  rw [Decimal.toRat_carried (by decide)] at hlow hhigh
  exact leadingExponent_eq hlow (by rwa [add_assoc])

/-- The notation is fixed for a leading digit from the tenths of thousandths up, and scientific from
the fifteenth whole digit up. -/
theorem form_text_choose (exponent : Int) (hm : 0 < mantissa) :
    if -4 ≤ ((amount.choose mantissa exponent).carried 14).exponent + 13 ∧
        ((amount.choose mantissa exponent).carried 14).exponent + 13 < 14 then
      IsFixed ((amount.parts (amount.choose mantissa exponent)).text amount)
    else IsScientific (((amount.choose mantissa exponent).carried 14).exponent + 13)
      ((amount.parts (amount.choose mantissa exponent)).text amount) := by
  rw [← leadingExponent_choose exponent hm]
  exact text_parts_form (n := amount) rfl rfl le_rfl
    (digits_pos_of_toRat_pos (toRat_choose_pos exponent hm))

theorem spelled?_write (h : ofFloat x = .finite negative mantissa exponent) (hm : 0 < mantissa) :
    spelled? (amount.write x).toList =
      some (signed negative ((amount.choose mantissa exponent).carried 14).toRat) := by
  have hdigits := digits_pos_of_toRat_pos (toRat_choose_pos exponent hm)
  have hform := wellFormed_parts amount hdigits
  rw [toList_write h, spelled?, splitSign_text hform, decimal?_text hform (.inr rfl), Option.map_some,
    toRat_parts amount hdigits, Decimal.toRat_carried (by decide)]

-- A whole number with so many digits is its own rounding.
theorem toRat_choose_of_natCast {k : Nat} (hm : 0 < mantissa) (hk : k < 10 ^ 14)
    (hvalue : (mantissa : ℚ) * 2 ^ exponent = k) : (amount.choose mantissa exponent).toRat = k := by
  have hround := isRounding_choose exponent hm
  have hsame : (⟨k, 0⟩ : Decimal).toRat = k := by rw [Decimal.toRat, zpow_zero, mul_one]
  have hnear := hround.nearest ⟨k, 0⟩ hk
  rw [hvalue, hsame, sub_self, abs_zero, Decimal.toRat_carried (by decide)] at hnear
  exact sub_eq_zero.mp (abs_nonpos_iff.mp hnear)

theorem write_of_natCast (h : ofFloat x = .finite negative mantissa exponent) {k : Nat} (hk : 0 < k)
    (hsmall : k < 10 ^ 14) (hvalue : (mantissa : ℚ) * 2 ^ exponent = k) :
    (amount.write x).toList = (if negative then ['-'] else []) ++ Nat.toDigits 10 k := by
  have hm : 0 < mantissa := by
    by_contra hzero
    rw [show mantissa = 0 by omega, Nat.cast_zero, zero_mul] at hvalue
    exact hk.ne (Nat.cast_eq_zero.mp hvalue.symm).symm
  have hd := toRat_choose_of_natCast hm hsmall hvalue
  obtain ⟨hlow, hhigh⟩ := leadingExponent_bounds (toRat_choose_pos exponent hm)
  rw [hd] at hlow hhigh
  have hone : (10 : ℚ) ^ (0 : Int) ≤ k := by exact_mod_cast hk
  have hmany : (k : ℚ) < 10 ^ (14 : Int) := by exact_mod_cast hsmall
  have hpositive := (zpow_lt_zpow_iff_right₀ (by norm_num)).mp (hone.trans_lt hhigh)
  have hbelow := (zpow_lt_zpow_iff_right₀ (by norm_num)).mp (hlow.trans_lt hmany)
  have hrange : amount.lowest ≤ leadingExponent (amount.choose mantissa exponent) ∧
      leadingExponent (amount.choose mantissa exponent) < amount.highest :=
    ⟨show (-4 : Int) ≤ _ by omega, hbelow⟩
  rw [toList_write h, text_parts_of_natCast rfl hk hd (by rw [exponent_parts, if_pos hrange])]

theorem toList_toString (n : ℤ) :
    (toString n).toList = (if n < 0 then ['-'] else []) ++ Nat.toDigits 10 n.natAbs := by
  cases n with
  | ofNat k =>
    rw [if_neg (by simp)]
    exact Nat.toList_repr
  | negSucc k =>
    rw [if_pos (Int.negSucc_lt_zero k)]
    show ("-" ++ Nat.repr (k + 1)).toList = _
    rw [String.toList_append, Nat.toList_repr]
    rfl

/-- Whole numbers of up to 14 digits are shown as they are. -/
theorem write_of_intCast (h : ofFloat x = .finite negative mantissa exponent) {n : ℤ} (hn : n ≠ 0)
    (hsmall : n.natAbs < 10 ^ 14) (hvalue : (ofFloat x).toRat? = some (n : ℚ)) :
    amount.write x = toString n := by
  rw [h, toRat?, Option.some.injEq] at hvalue
  have habs : (mantissa : ℚ) * 2 ^ exponent = n.natAbs := by
    have hnonneg : (0 : ℚ) ≤ mantissa * 2 ^ exponent :=
      mul_nonneg (Nat.cast_nonneg mantissa) (two_zpow_pos exponent).le
    rw [← abs_of_nonneg hnonneg, ← abs_signed negative, hvalue, Nat.cast_natAbs, Int.cast_abs]
  have hm : mantissa ≠ 0 := fun hzero => by
    rw [signed_eq_zero_iff.mpr hzero] at hvalue
    exact hn (Int.cast_eq_zero.mp hvalue.symm)
  have hsign : n < 0 ↔ negative = true := by
    rw [← Int.cast_lt_zero (R := ℚ), ← hvalue, signed_neg_iff, and_iff_left (Nat.pos_of_ne_zero hm)]
  apply String.toList_injective
  rw [write_of_natCast h (Int.natAbs_pos.mpr hn) hsmall habs, toList_toString]
  simp only [hsign]

/-- Zero is shown with its sign. -/
theorem write_of_zero (h : ofFloat x = .finite negative 0 exponent) :
    amount.write x = if negative then "-0" else "0" := by
  apply String.toList_injective
  rw [toList_write h, show amount.choose 0 exponent = ⟨0, 0⟩ from if_pos rfl]
  cases negative <;> decide +kernel

/-- A finite value is shown by its rounding to 14 significant digits. Zero is shown with its sign. Of
any other value there is one such rounding; the text spells it, with the sign of the value, and is
wrong by half a unit of its last digit at most. The notation is fixed if the exponent of the leading
digit is from -4 to 13, and scientific otherwise. So whole numbers of up to 14 digits are shown as they
are. -/
theorem write_amount (h : ofFloat x = .finite negative mantissa exponent) :
    (mantissa = 0 → amount.write x = if negative then "-0" else "0") ∧
    (0 < mantissa → ∃ (d : Decimal) (shown : List Char),
      (d.IsRounding 14 (mantissa * 2 ^ exponent) ∧
        ∀ c : Decimal, c.IsRounding 14 (mantissa * 2 ^ exponent) → c = d) ∧
      (amount.write x).toList = (if negative then ['-'] else []) ++ shown ∧
      (IsFixed shown ↔ -4 ≤ d.exponent + 13 ∧ d.exponent + 13 < 14) ∧
      (¬IsFixed shown → IsScientific (d.exponent + 13) shown) ∧
      spelled? (amount.write x).toList = some (signed negative d.toRat) ∧
      |signed negative d.toRat - signed negative (mantissa * 2 ^ exponent)| ≤
        10 ^ d.exponent / 2) ∧
    ∀ n : ℤ, n ≠ 0 → n.natAbs < 10 ^ 14 → (ofFloat x).toRat? = some (n : ℚ) →
      amount.write x = toString n := by
  refine ⟨fun hzero => write_of_zero (hzero ▸ h), fun hm => ?_, fun n => write_of_intCast h⟩
  have hround := isRounding_choose exponent hm
  have hform := form_text_choose exponent hm
  refine ⟨_, _, ⟨hround, fun c hc => hc.unique hround (by decide)⟩, toList_write h, ?_⟩
  refine ⟨⟨fun hfixed => ?_, fun hrange => ?_⟩, fun hscientific => ?_, spelled?_write h hm, ?_⟩
  · by_contra hrange
    rw [if_neg hrange] at hform
    exact hform.not_isFixed hfixed
  · rwa [if_pos hrange] at hform
  · split at hform
    · exact absurd hform hscientific
    · exact hform
  · rw [← signed_sub, abs_signed]
    exact hround.abs_sub_le (by decide)

/-- Half a unit below a power of ten the even neighbour is that power, with a digit more. -/
theorem write_amount_half_below_power_of_ten :
    ofFloat (nearest false ⟨199999999999999, 2, Nat.two_pos⟩) = .finite false 6399999999999968 (-6) ∧
      amount.write (nearest false ⟨199999999999999, 2, Nat.two_pos⟩) = "1E+14" ∧
      ∃ d : Decimal, d.IsRounding 14 ((6399999999999968 : Nat) * 2 ^ (-6 : Int)) ∧
        d.toRat = 10 ^ 14 := by
  have h : ofFloat (nearest false ⟨199999999999999, 2, Nat.two_pos⟩) =
      .finite false 6399999999999968 (-6) := by decide +kernel
  have htext : amount.write (nearest false ⟨199999999999999, 2, Nat.two_pos⟩) = "1E+14" := by
    rw [Layout.write, h]
    decide +kernel
  have hread : decimal? "1E+14".toList = some ⟨1, 14⟩ := by decide +kernel
  obtain ⟨d, shown, ⟨hround, -⟩, -, -, -, hspelled, -⟩ := (write_amount h).2.1 (by decide)
  refine ⟨h, htext, d, hround, ?_⟩
  rw [htext, spelled?, show splitSign "1E+14".toList = (false, "1E+14".toList) from rfl, hread,
    Option.map_some, Option.some.injEq, Decimal.toRat, Nat.cast_one, one_mul] at hspelled
  exact hspelled.symm

end Reckoner
