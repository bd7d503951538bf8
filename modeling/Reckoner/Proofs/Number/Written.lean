import Mathlib.Data.List.TakeWhile
import Reckoner.Number.Layout
import Reckoner.Number.Reading
import Reckoner.Proofs.Number.Shortest

/-!
# Written — a decimal number as text

In every layout the text of a decimal number has whole digits, perhaps a point with digits after it, and
perhaps an exponent. Read by these parts it has the value of the number, whichever way it was laid out.
-/

namespace Reckoner.Number

/-! ## Digits -/

theorem takeWhile_append_of_head {p : Char → Bool} {cs rest : List Char} (hcs : ∀ c ∈ cs, p c = true)
    (hrest : ∀ c ∈ rest.head?, p c = false) : (cs ++ rest).takeWhile p = cs := by
  rw [List.takeWhile_append_of_pos hcs]
  cases rest with
  | nil => rw [List.takeWhile_nil, List.append_nil]
  | cons c rest =>
    rw [List.takeWhile_cons_of_neg (by rw [hrest c rfl]; exact Bool.false_ne_true), List.append_nil]

theorem dropWhile_append_of_head {p : Char → Bool} {cs rest : List Char} (hcs : ∀ c ∈ cs, p c = true)
    (hrest : ∀ c ∈ rest.head?, p c = false) : (cs ++ rest).dropWhile p = rest := by
  rw [List.dropWhile_append_of_pos hcs]
  cases rest with
  | nil => rfl
  | cons c rest =>
    rw [List.dropWhile_cons_of_neg (by rw [hrest c rfl]; exact Bool.false_ne_true)]

theorem ofDigits_append_zeros (digits : List Char) (count : Nat) :
    ofDigits (digits ++ List.replicate count '0') = ofDigits digits * 10 ^ count := by
  rw [ofDigits, ofDigits, Nat.ofDigitChars_append, Nat.ofDigitChars_replicate_zero, Nat.mul_comm]

theorem ofDigits_zeros_append (digits : List Char) (count : Nat) :
    ofDigits (List.replicate count '0' ++ digits) = ofDigits digits := by
  rw [ofDigits, Nat.ofDigitChars_append, Nat.ofDigitChars_replicate_zero, Nat.mul_zero, ofDigits]

-- The first digit of a positive number is not zero.
theorem head_toDigits_ne_zero {n : Nat} (hn : 0 < n) : (Nat.toDigits 10 n).head? ≠ some '0' := by
  induction n using Nat.strongRecOn with
  | ind n ih =>
    by_cases hsmall : n < 10
    · rw [Nat.toDigits_of_lt_base hsmall, List.head?_cons]
      have hdigit : ∀ k < 10, 0 < k → some (Nat.digitChar k) ≠ some '0' := by decide
      exact hdigit n hsmall hn
    · rw [Nat.toDigits_of_base_le (by decide) (by omega), List.head?_append_of_ne_nil _
        Nat.toDigits_ne_nil]
      exact ih (n / 10) (by omega) (by omega)

namespace Layout

-- The first digit of a positive number stays anyway.
theorem significant_eq {n : Nat} (hn : 0 < n) :
    significant n = ((Nat.toDigits 10 n).reverse.dropWhile (· == '0')).reverse := by
  unfold significant
  split
  · rename_i hnone
    rw [List.reverse_eq_nil_iff, List.dropWhile_eq_nil_iff] at hnone
    rcases List.exists_cons_of_ne_nil (Nat.toDigits_ne_nil (b := 10) (n := n)) with ⟨c, _, hdigits⟩
    have hzero := hnone c (by rw [hdigits]; simp)
    have hhead := head_toDigits_ne_zero hn
    rw [hdigits, List.head?_cons, beq_iff_eq.mp hzero] at hhead
    exact absurd rfl hhead
  · rfl

-- The digits of a positive number are its significant ones, and zeros after them.
theorem exists_significant {n : Nat} (hn : 0 < n) :
    ∃ zeros, Nat.toDigits 10 n = significant n ++ List.replicate zeros '0' := by
  have hzeros : ((Nat.toDigits 10 n).reverse.takeWhile (· == '0')).reverse =
      List.replicate ((Nat.toDigits 10 n).reverse.takeWhile (· == '0')).reverse.length '0' := by
    refine List.eq_replicate_iff.mpr ⟨rfl, fun c hc => ?_⟩
    have hzero := List.mem_takeWhile_imp (List.mem_reverse.mp hc)
    exact beq_iff_eq.mp hzero
  refine ⟨((Nat.toDigits 10 n).reverse.takeWhile (· == '0')).reverse.length, ?_⟩
  rw [significant_eq hn, ← hzeros, ← List.reverse_append, List.takeWhile_append_dropWhile,
    List.reverse_reverse]

theorem getLast?_significant {n : Nat} (hn : 0 < n) : (significant n).getLast? ≠ some '0' := by
  intro hlast
  have hnot := List.head?_dropWhile_not (· == '0') (Nat.toDigits 10 n).reverse
  rw [significant_eq hn, List.getLast?_reverse] at hlast
  rw [hlast] at hnot
  exact nomatch hnot

theorem significant_ne_nil (n : Nat) : significant n ≠ [] := by
  unfold significant
  split
  · exact List.cons_ne_nil _ _
  · rename_i hkept
    exact hkept

theorem isDigit_of_mem_significant {k : Nat} {c : Char} (h : c ∈ significant k) :
    c.isDigit = true := by
  unfold significant at h
  split at h
  · rw [List.mem_singleton.mp h]
    rfl
  · have hdigits := (List.dropWhile_sublist _).subset (List.mem_reverse.mp h)
    exact Nat.isDigit_of_mem_toDigits (by decide) (by decide) (List.mem_reverse.mp hdigits)

variable {n : Layout} {d : Decimal}

/-! ## The parts of a text -/

/-- A number in text, part by part. -/
structure Parts where
  whole : List Char
  /-- The digits after the point; without any there is no point. -/
  fraction : List Char
  exponent : Option Int

namespace Parts

/-- The text. -/
def text (n : Layout) (p : Parts) : List Char :=
  p.whole ++ (if p.fraction = [] then [] else '.' :: p.fraction) ++
    match p.exponent with
    | none => []
    | some x => n.mark :: exponentText n.exponentWidth x

/-- The number that the parts spell. -/
def value (p : Parts) : Decimal :=
  ⟨ofDigits (p.whole ++ p.fraction), p.exponent.getD 0 - p.fraction.length⟩

/-- What is known of the parts of a number in a layout. -/
structure WellFormed (n : Layout) (p : Parts) : Prop where
  whole_digits : ∀ c ∈ p.whole, c.isDigit = true
  fraction_digits : ∀ c ∈ p.fraction, c.isDigit = true
  /-- There are whole digits, and the first one is not zero unless it is the only one. -/
  leading : p.whole.length = 1 ∨ p.whole ≠ [] ∧ p.whole.head? ≠ some '0'
  short : p.whole.length ≤ max 1 n.highest.toNat
  point : n.keepsPoint = true → p.exponent = none → p.fraction ≠ []

theorem WellFormed.whole_ne_nil {n : Layout} {p : Parts} (h : p.WellFormed n) : p.whole ≠ [] := by
  rcases h.leading with hone | hmore
  · exact List.ne_nil_of_length_eq_add_one hone
  · exact hmore.1

end Parts

/-- The parts of a number in scientific notation. -/
def scientificParts (digits : List Char) (x : Int) : Parts :=
  ⟨digits.take 1, digits.drop 1, some x⟩

theorem text_scientificParts (digits : List Char) (x : Int) :
    (scientificParts digits x).text n = n.scientific digits x := by
  unfold scientific scientificParts Parts.text
  cases digits.drop 1 <;> rfl

/-- The parts of a number in positional notation. -/
def positionalParts (n : Layout) (digits : List Char) (x : Int) : Parts :=
  if x < 0 then ⟨['0'], List.replicate (-x - 1).toNat '0' ++ digits, none⟩
  else if digits.length ≤ x.toNat + 1 then
    ⟨digits ++ List.replicate (x.toNat + 1 - digits.length) '0',
      if n.keepsPoint then ['0'] else [], none⟩
  else ⟨digits.take (x.toNat + 1), digits.drop (x.toNat + 1), none⟩

theorem text_positionalParts {digits : List Char} (hdigits : digits ≠ []) (x : Int) :
    (n.positionalParts digits x).text n = n.positional digits x := by
  unfold positional positionalParts
  by_cases hnegative : x < 0
  · rw [if_pos hnegative, if_pos hnegative, Parts.text]
    simp only
    rw [if_neg (List.append_ne_nil_of_right_ne_nil _ hdigits), List.append_nil]
    rfl
  · rw [if_neg hnegative, if_neg hnegative]
    by_cases hwhole : digits.length ≤ x.toNat + 1
    · simp only [List.drop_eq_nil_of_le hwhole]
      rw [if_pos hwhole, Parts.text]
      cases n.keepsPoint <;> simp
    · have hrest : digits.drop (x.toNat + 1) ≠ [] := by
        rw [ne_eq, List.drop_eq_nil_iff]
        exact hwhole
      rw [if_neg hwhole, Parts.text]
      simp only
      rw [if_neg hrest, List.append_nil]

/-! ## Their form and their value -/

/-- Digits of a number that spread over whole part and fraction. -/
structure Leading (digits : List Char) : Prop where
  all : ∀ c ∈ digits, c.isDigit = true
  nonempty : digits ≠ []
  head : digits.head? ≠ some '0'

theorem leading_significant {k : Nat} (hk : 0 < k) : Leading (significant k) := by
  rcases exists_significant hk with ⟨zeros, hdigits⟩
  have hhead := head_toDigits_ne_zero hk
  rw [hdigits, List.head?_append_of_ne_nil _ (significant_ne_nil k)] at hhead
  exact ⟨fun _ => isDigit_of_mem_significant, significant_ne_nil k, hhead⟩

theorem isDigit_of_mem_zeros {count : Nat} {c : Char} (h : c ∈ List.replicate count '0') :
    c.isDigit = true := by
  rw [List.eq_of_mem_replicate h]
  rfl

theorem Leading.scientificParts {digits : List Char} (h : Leading digits) (x : Int) :
    (scientificParts digits x).WellFormed n := by
  have hlength : (digits.take 1).length = 1 := by
    have := List.length_pos_iff.mpr h.nonempty
    rw [List.length_take]
    omega
  constructor
  · exact fun c hc => h.all c (List.mem_of_mem_take hc)
  · exact fun c hc => h.all c (List.mem_of_mem_drop hc)
  · exact .inl hlength
  · exact hlength.trans_le (Nat.le_max_left _ _)
  · exact fun _ hnone => nomatch hnone

theorem Leading.positionalParts {digits : List Char} (h : Leading digits) {x : Int}
    (hx : x < n.highest) : (n.positionalParts digits x).WellFormed n := by
  unfold Layout.positionalParts
  by_cases hnegative : x < 0
  · rw [if_pos hnegative]
    constructor
    · exact List.forall_mem_singleton.mpr rfl
    · intro c hc
      rcases List.mem_append.mp hc with hzero | hdigit
      · exact isDigit_of_mem_zeros hzero
      · exact h.all c hdigit
    · exact .inl rfl
    · exact Nat.le_max_left _ _
    · exact fun _ _ => List.append_ne_nil_of_right_ne_nil _ h.nonempty
  · rw [if_neg hnegative]
    by_cases hwhole : digits.length ≤ x.toNat + 1
    · rw [if_pos hwhole]
      constructor
      · intro c hc
        rcases List.mem_append.mp hc with hdigit | hzero
        · exact h.all c hdigit
        · exact isDigit_of_mem_zeros hzero
      · intro c hc
        by_cases hkeeps : n.keepsPoint = true
        · rw [if_pos hkeeps] at hc
          rw [List.mem_singleton.mp hc]
          rfl
        · rw [if_neg hkeeps] at hc
          exact nomatch hc
      · refine .inr ⟨List.append_ne_nil_of_left_ne_nil h.nonempty _, ?_⟩
        rw [List.head?_append_of_ne_nil _ h.nonempty]
        exact h.head
      · show (digits ++ List.replicate (x.toNat + 1 - digits.length) '0').length ≤ _
        rw [List.length_append, List.length_replicate]
        omega
      · intro hkeeps _
        rw [if_pos hkeeps]
        exact List.cons_ne_nil _ _
    · rw [if_neg hwhole]
      constructor
      · exact fun c hc => h.all c (List.mem_of_mem_take hc)
      · exact fun c hc => h.all c (List.mem_of_mem_drop hc)
      · refine .inr ⟨?_, ?_⟩
        · rw [ne_eq, List.take_eq_nil_iff, not_or]
          exact ⟨Nat.succ_ne_zero _, h.nonempty⟩
        · rw [List.head?_take, if_neg (Nat.succ_ne_zero _)]
          exact h.head
      · show (digits.take (x.toNat + 1)).length ≤ _
        rw [List.length_take]
        omega
      · intro _ _
        rw [ne_eq, List.drop_eq_nil_iff]
        exact hwhole

theorem toRat_scientificParts {digits : List Char} (hdigits : digits ≠ []) (x : Int) :
    (scientificParts digits x).value.toRat = ofDigits digits * 10 ^ (x + 1 - digits.length) := by
  have hlength := List.length_pos_iff.mpr hdigits
  rw [Decimal.toRat, Parts.value, scientificParts]
  simp only [List.take_append_drop, Option.getD_some, List.length_drop]
  congr 2
  omega

theorem toRat_positionalParts (digits : List Char) (x : Int) :
    (n.positionalParts digits x).value.toRat =
      ofDigits digits * 10 ^ (x + 1 - digits.length) := by
  have hshift (count : Nat) (k : Int) :
      ((ofDigits digits * 10 ^ count : Nat) : ℚ) * 10 ^ k = ofDigits digits * 10 ^ (count + k) := by
    push_cast
    rw [mul_assoc, zpow_add₀ (by norm_num), zpow_natCast]
  unfold positionalParts Decimal.toRat Parts.value
  by_cases hnegative : x < 0
  · rw [if_pos hnegative]
    simp only [Option.getD_none, List.length_append, List.length_replicate]
    rw [← List.append_assoc, ← List.replicate_one, List.replicate_append_replicate,
      ofDigits_zeros_append]
    congr 2
    omega
  · rw [if_neg hnegative]
    by_cases hwhole : digits.length ≤ x.toNat + 1
    · rw [if_pos hwhole]
      simp only [Option.getD_none]
      by_cases hkeeps : n.keepsPoint = true
      · rw [if_pos hkeeps, ← List.replicate_one, List.append_assoc,
          List.replicate_append_replicate, ofDigits_append_zeros, hshift, List.length_replicate]
        congr 2
        omega
      · rw [if_neg hkeeps, List.append_nil, ofDigits_append_zeros, hshift, List.length_nil]
        congr 2
        omega
    · rw [if_neg hwhole]
      simp only [Option.getD_none, List.take_append_drop, List.length_drop]
      congr 2
      omega

/-- The exponent of the leading digit. -/
def leadingExponent (d : Decimal) : Int := ((Nat.toDigits 10 d.digits).length : Int) - 1 + d.exponent

/-- The parts of a decimal number. -/
def parts (n : Layout) (d : Decimal) : Parts :=
  if n.lowest ≤ leadingExponent d ∧ leadingExponent d < n.highest then
    n.positionalParts (significant d.digits) (leadingExponent d)
  else scientificParts (significant d.digits) (leadingExponent d)

theorem text_parts (n : Layout) (d : Decimal) : (n.parts d).text n = n.ofDecimal d := by
  show Parts.text n (if _ then _ else _) = if _ then _ else _
  rw [apply_ite (Parts.text n), text_positionalParts (significant_ne_nil d.digits),
    text_scientificParts]
  rfl

theorem wellFormed_parts (n : Layout) (hd : 0 < d.digits) : (n.parts d).WellFormed n := by
  have hleading := leading_significant hd
  unfold parts
  split
  · rename_i hrange
    exact hleading.positionalParts hrange.2
  · exact hleading.scientificParts _

theorem toRat_significant (hd : 0 < d.digits) : ((ofDigits (significant d.digits) : Nat) : ℚ) *
    10 ^ (leadingExponent d + 1 - (significant d.digits).length) = d.toRat := by
  rcases exists_significant hd with ⟨zeros, hzeros⟩
  have hlength : (Nat.toDigits 10 d.digits).length = (significant d.digits).length + zeros := by
    rw [hzeros, List.length_append, List.length_replicate]
  have hvalue : ((ofDigits (significant d.digits) : Nat) : ℚ) * 10 ^ (zeros : Int) = d.digits := by
    have hnat : ofDigits (Nat.toDigits 10 d.digits) = d.digits := Nat.ofDigitChars_ten_toDigits
    rw [hzeros, ofDigits_append_zeros] at hnat
    rw [zpow_natCast]
    exact_mod_cast hnat
  rw [Decimal.toRat, ← hvalue, mul_assoc, ← zpow_add₀ (by norm_num), leadingExponent]
  congr 2
  omega

/-- The parts of a positive number spell its value. -/
theorem toRat_parts (n : Layout) (hd : 0 < d.digits) : (n.parts d).value.toRat = d.toRat := by
  rw [parts, apply_ite Parts.value, apply_ite Decimal.toRat, toRat_positionalParts,
    toRat_scientificParts (significant_ne_nil d.digits), ite_self, toRat_significant hd]

/-! ## What follows the digits -/

/-- What follows the fraction of a number, up to the rest of the text. -/
def exponentPart (n : Layout) (exponent : Option Int) (rest : List Char) : List Char :=
  match exponent with
  | none => rest
  | some x => n.mark :: (exponentText n.exponentWidth x ++ rest)

/-- What follows the whole digits of a number. -/
def fractionPart (fraction after : List Char) : List Char :=
  if fraction = [] then after else '.' :: (fraction ++ after)

theorem head_exponentPart (hmark : n.mark.isDigit = false ∧ n.mark ≠ '.') (exponent : Option Int)
    {rest : List Char} (hrest : ∀ c ∈ rest.head?, c.isDigit = false ∧ c ≠ '.') :
    ∀ c ∈ (exponentPart n exponent rest).head?, c.isDigit = false ∧ c ≠ '.' := by
  intro c hc
  cases exponent with
  | none => exact hrest c hc
  | some x =>
    cases hc
    exact hmark

theorem head_fractionPart (fraction : List Char) {after : List Char}
    (hafter : ∀ c ∈ after.head?, c.isDigit = false ∧ c ≠ '.') :
    ∀ c ∈ (fractionPart fraction after).head?, c.isDigit = false := by
  intro c hc
  unfold fractionPart at hc
  split at hc
  · exact (hafter c hc).1
  · cases hc
    decide

theorem text_append (p : Parts) (rest : List Char) : p.text n ++ rest =
    p.whole ++ fractionPart p.fraction (exponentPart n p.exponent rest) := by
  unfold Parts.text fractionPart exponentPart
  cases p.exponent <;> by_cases hnone : p.fraction = []
  · rw [if_pos hnone, if_pos hnone, List.append_nil, List.append_nil]
  · rw [if_neg hnone, if_neg hnone, List.append_nil, List.append_assoc]
    rfl
  · rw [if_pos hnone, if_pos hnone, List.append_nil, List.append_assoc]
    rfl
  · rw [if_neg hnone, if_neg hnone, List.append_assoc, List.append_assoc]
    rfl

/-! ## Characters -/

/-- The characters of the texts in a layout. -/
inductive IsNumeral (n : Layout) (c : Char) : Prop where
  | digit (h : c.isDigit = true)
  | sign (h : c = '-' ∨ c = '+')
  | point (h : c = '.')
  | mark (h : c = n.mark)
  | word (h : c ∈ n.nan.toList ∨ c ∈ n.infinity.toList)

theorem isNumeral_exponentText {width : Nat} {x : Int} {c : Char} (h : c ∈ exponentText width x) :
    n.IsNumeral c := by
  rcases List.mem_cons.mp h with hsign | hdigits
  · refine .sign ?_
    rw [hsign]
    split
    · exact .inl rfl
    · exact .inr rfl
  · refine .digit ?_
    rcases List.mem_append.mp hdigits with hzero | hdigit
    · exact isDigit_of_mem_zeros hzero
    · exact Nat.isDigit_of_mem_toDigits (by decide) (by decide) hdigit

theorem isNumeral_scientific {digits : List Char} (hdigits : ∀ c ∈ digits, c.isDigit = true)
    {x : Int} {c : Char} (h : c ∈ n.scientific digits x) : n.IsNumeral c := by
  unfold scientific at h
  simp only [List.append_assoc, List.mem_append, List.mem_cons] at h
  rcases h with hwhole | hfraction | hmark | hexponent
  · exact .digit (hdigits c (List.mem_of_mem_take hwhole))
  · split at hfraction
    · exact nomatch hfraction
    · rcases List.mem_cons.mp hfraction with hpoint | hrest
      · exact .point hpoint
      · exact .digit (hdigits c (List.mem_of_mem_drop hrest))
  · exact .mark hmark
  · exact isNumeral_exponentText hexponent

theorem isNumeral_positional {digits : List Char} (hdigits : ∀ c ∈ digits, c.isDigit = true)
    {x : Int} {c : Char} (h : c ∈ n.positional digits x) : n.IsNumeral c := by
  have hzeros {count : Nat} (hzero : c ∈ List.replicate count '0') : n.IsNumeral c :=
    .digit (isDigit_of_mem_zeros hzero)
  unfold positional at h
  split at h
  · rcases List.mem_cons.mp h with rfl | h
    · exact .digit rfl
    rcases List.mem_cons.mp h with hpoint | h
    · exact .point hpoint
    rcases List.mem_append.mp h with hzero | hdigit
    · exact hzeros hzero
    · exact .digit (hdigits c hdigit)
  · simp only at h
    split at h
    · rcases List.mem_append.mp h with h | hkeeps
      · rcases List.mem_append.mp h with hdigit | hzero
        · exact .digit (hdigits c hdigit)
        · exact hzeros hzero
      · split at hkeeps
        · rcases List.mem_cons.mp hkeeps with hpoint | hzero
          · exact .point hpoint
          · rw [List.mem_singleton.mp hzero]
            exact .digit rfl
        · exact nomatch hkeeps
    · rcases List.mem_append.mp h with hwhole | hfraction
      · exact .digit (hdigits c (List.mem_of_mem_take hwhole))
      · rcases List.mem_cons.mp hfraction with hpoint | hrest
        · exact .point hpoint
        · exact .digit (hdigits c (List.mem_of_mem_drop hrest))

/-- The text of a value has no other characters. -/
theorem isNumeral_ofBinary64 {v : Binary64} {c : Char} (h : c ∈ n.ofBinary64 v) :
    n.IsNumeral c := by
  have hsigned {negative : Bool} {cs : List Char} (hcs : c ∈ cs → n.IsNumeral c)
      (hc : c ∈ (if negative then ['-'] else []) ++ cs) : n.IsNumeral c := by
    rcases List.mem_append.mp hc with hminus | hc
    · split at hminus
      · exact .sign (.inl (List.mem_singleton.mp hminus))
      · exact nomatch hminus
    · exact hcs hc
  cases v with
  | nan => exact .word (.inl h)
  | infinite negative => exact hsigned (fun hc => .word (.inr hc)) h
  | finite negative mantissa exponent =>
    refine hsigned (fun hc => ?_) h
    unfold ofDecimal at hc
    simp only at hc
    split at hc
    · exact isNumeral_positional (fun _ => isDigit_of_mem_significant) hc
    · exact isNumeral_scientific (fun _ => isDigit_of_mem_significant) hc

end Layout

end Reckoner.Number
