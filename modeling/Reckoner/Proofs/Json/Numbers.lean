import Reckoner.Proofs.Json.Doubles
import Reckoner.Proofs.Json.Grammar

/-!
# Numbers — the numbers that are read

The reader takes a number part by part, each as far as it goes. So it takes the numbers of the grammar
and no others, where what follows does not continue them.
-/

namespace Reckoner.Json

open Number

/-! ## What the reader takes is a number -/

theorem isDigits_takeWhile {cs : List Char} (h : (cs.takeWhile Char.isDigit).isEmpty ≠ true) :
    IsDigits (cs.takeWhile Char.isDigit) := by
  rw [Ne, List.isEmpty_iff] at h
  exact ⟨h, fun c hc => List.all_eq_true.mp List.all_takeWhile c hc⟩

theorem exists_of_fraction? {cs rest digits : List Char} (h : fraction? cs = some (digits, rest)) :
    ∃ text, cs = text ++ rest ∧ IsFraction text := by
  unfold fraction? at h
  split at h
  · rename_i after
    simp only at h
    split_ifs at h with hnone
    cases h
    refine ⟨_, ?_, .present (isDigits_takeWhile hnone)⟩
    rw [List.cons_append, List.takeWhile_append_dropWhile]
  · cases h
    exact ⟨[], rfl, .absent⟩

theorem exists_splitSign (cs : List Char) :
    ∃ sign, (sign = [] ∨ sign = ['+'] ∨ sign = ['-']) ∧ cs = sign ++ (splitSign cs).2 := by
  unfold splitSign
  split
  · exact ⟨['-'], .inr (.inr rfl), rfl⟩
  · exact ⟨['+'], .inr (.inl rfl), rfl⟩
  · exact ⟨[], .inl rfl, rfl⟩

theorem exists_of_exponentRest? {cs rest : List Char} {x : Option Int}
    (h : exponentRest? cs = some (x, rest)) : ∃ text, cs = text ++ rest ∧ IsExponent text := by
  cases cs with
  | nil =>
    cases h
    exact ⟨[], rfl, .absent⟩
  | cons c cs =>
    rw [exponentRest?] at h
    split_ifs at h with hmark
    · rcases exists_splitSign cs with ⟨sign, hsign, hcs⟩
      simp only at h
      rw [ite_eq_iff] at h
      rcases h with ⟨_, h⟩ | ⟨hnone, h⟩ <;> cases h
      refine ⟨_, ?_, .present hmark hsign (isDigits_takeWhile hnone)⟩
      rw [List.cons_append, List.append_assoc, List.takeWhile_append_dropWhile, ← hcs]
    · cases h
      exact ⟨[], rfl, .absent⟩

-- The sign of a number, if it has one, and the rest.
theorem eq_sign_append (cs : List Char) :
    cs = (if (cs.head? == some '-') = true then ['-'] else []) ++
      if (cs.head? == some '-') = true then cs.drop 1 else cs := by
  split
  · rename_i hminus
    rw [beq_iff_eq, List.head?_eq_some_iff] at hminus
    rcases hminus with ⟨rest, rfl⟩
    rfl
  · rfl

-- Digits that the reader takes to be the whole part of a number, with a sign and what follows them.
theorem isNumber_of_takeWhile {negative : Bool} {unsigned fraction exponent : List Char}
    (hform : ¬((unsigned.takeWhile Char.isDigit).isEmpty ||
      (decide (1 < (unsigned.takeWhile Char.isDigit).length) &&
        (unsigned.takeWhile Char.isDigit).head? == some '0')) = true)
    (hfraction : IsFraction fraction) (hexponent : IsExponent exponent) :
    IsNumber ((unsigned.takeWhile Char.isDigit).length + negative.toNat)
      ((if negative then ['-'] else []) ++
        (unsigned.takeWhile Char.isDigit ++ (fraction ++ exponent))) := by
  rw [Bool.not_eq_true, Bool.or_eq_false_iff, Bool.and_eq_false_iff] at hform
  have hwhole := isDigits_takeWhile (Bool.eq_false_iff.mp hform.1)
  -- A zero in front is the only digit.
  have hzero (h : (unsigned.takeWhile Char.isDigit).head? = some '0') :
      unsigned.takeWhile Char.isDigit = ['0'] := by
    rcases List.head?_eq_some_iff.mp h with ⟨more, hmore⟩
    rcases hform.2 with hshort | hother
    · rw [hmore] at hshort
      rw [hmore, show more = [] by simpa using hshort]
    · exact absurd h (beq_eq_false_iff_ne.mp hother)
  have hsign : (if negative = true then ['-'] else []) = [] ∨
      (if negative = true then ['-'] else []) = ['-'] := by
    cases negative
    · exact .inl rfl
    · exact .inr rfl
  have hlength : (if negative = true then ['-'] else []).length = negative.toNat := by
    cases negative <;> rfl
  have hnumber := IsNumber.intro hsign hwhole hzero hfraction hexponent
  rwa [hlength, Nat.add_comm] at hnumber

/-- What the reader takes for a number is one. -/
theorem exists_of_number? {cs rest : List Char} {v : Value} (h : number? cs = some (v, rest)) :
    ∃ size text, cs = text ++ rest ∧ IsNumber size text ∧ size ≤ 4300 ∧ v.datum = .number := by
  have hcs := eq_sign_append cs
  unfold number? at h
  simp only at h
  generalize (cs.head? == some '-') = negative at h hcs
  generalize (if negative = true then cs.drop 1 else cs) = unsigned at h hcs
  split at h
  · cases h
  rename_i hform
  split at h
  · cases h
  rename_i hsize
  cases hfraction : fraction? (unsigned.dropWhile Char.isDigit) with
  | none =>
    rw [hfraction] at h
    cases h
  | some parts =>
    rcases parts with ⟨digits, after⟩
    rw [hfraction] at h
    simp only at h
    cases hexponent : exponentRest? after with
    | none =>
      rw [hexponent] at h
      cases h
    | some parts =>
      rcases parts with ⟨x, rest'⟩
      rw [hexponent] at h
      have hlast : rest' = rest ∧ v.datum = .number := by
        cases x with
        | none =>
          simp only at h
          split at h <;> cases h <;> exact ⟨rfl, rfl⟩
        | some x =>
          cases h
          exact ⟨rfl, rfl⟩
      rcases hlast with ⟨rfl, hv⟩
      rcases exists_of_fraction? hfraction with ⟨fraction, hafter, hfraction⟩
      rcases exists_of_exponentRest? hexponent with ⟨exponent, hrest, hexponent⟩
      refine ⟨_, _, ?_, isNumber_of_takeWhile hform hfraction hexponent, Nat.not_lt.mp hsize, hv⟩
      rw [hcs]
      simp only [List.append_assoc]
      rw [← hrest, ← hafter, List.takeWhile_append_dropWhile]

/-! ## A number is taken -/

-- What follows a number or a part of it does not continue the part in front.
theorem IsExponent.head {text rest : List Char} (h : IsExponent text) (hrest : Ends rest) :
    ∀ c ∈ (text ++ rest).head?, c.isDigit = false ∧ c ≠ '.' := by
  cases h with
  | absent => exact fun c hc => ⟨(hrest c hc).1, (hrest c hc).2.1⟩
  | present hmark hsign h =>
    rintro _ ⟨⟩
    rcases hmark with rfl | rfl <;> decide

theorem IsExponent.exists_exponentRest? {text rest : List Char} (h : IsExponent text)
    (hrest : Ends rest) : ∃ x, exponentRest? (text ++ rest) = some (x, rest) := by
  cases h with
  | absent => exact ⟨none, exponentRest?_of_ends hrest⟩
  | @present mark sign digits hmark hsign h =>
    have hend : ∀ c ∈ rest.head?, c.isDigit = false := fun c hc => (hrest c hc).1
    have hsplit : (splitSign (sign ++ (digits ++ rest))).2 = digits ++ rest := by
      rcases hsign with rfl | rfl | rfl
      · rcases List.exists_cons_of_ne_nil h.1 with ⟨c, digits, rfl⟩
        have hc := h.2 c List.mem_cons_self
        rw [List.nil_append, List.cons_append]
        unfold splitSign
        split
        case h_3 => rfl
        all_goals
          rename_i heq
          cases heq
          exact absurd hc (by decide)
      · rfl
      · rfl
    rw [List.cons_append, List.append_assoc, exponentRest?, if_pos hmark]
    simp only [hsplit, takeWhile_append_of_head h.2 hend, dropWhile_append_of_head h.2 hend,
      List.isEmpty_eq_false_iff.mpr h.1, Bool.false_eq_true, if_false]
    exact ⟨_, rfl⟩

theorem IsFraction.exists_fraction? {text after : List Char} (h : IsFraction text)
    (hafter : ∀ c ∈ after.head?, c.isDigit = false ∧ c ≠ '.') :
    (∃ digits, fraction? (text ++ after) = some (digits, after)) ∧
      ∀ c ∈ (text ++ after).head?, c.isDigit = false := by
  cases h with
  | absent =>
    refine ⟨⟨[], ?_⟩, fun c hc => (hafter c hc).1⟩
    exact fraction?_fractionPart (List.forall_mem_nil _) hafter
  | @present digits h =>
    refine ⟨⟨digits, ?_⟩, ?_⟩
    · have hread := fraction?_fractionPart h.2 hafter
      rwa [Number.Layout.fractionPart, if_neg h.1] at hread
    · rintro _ ⟨⟩
      decide

/-- A number is taken, if it is not too long and what follows it does not continue it. -/
theorem exists_number?_of_isNumber {size : Nat} {text rest : List Char} (h : IsNumber size text)
    (hsize : size ≤ 4300) (hrest : Ends rest) :
    ∃ v, number? (text ++ rest) = some (v, rest) ∧ v.datum = .number := by
  cases h with
  | @intro sign whole fraction exponent hsign hwhole hzero hfraction hexponent =>
    rcases hexponent.exists_exponentRest? hrest with ⟨x, hx⟩
    rcases hfraction.exists_fraction? (hexponent.head hrest) with ⟨⟨digits, hdigits⟩, hhead⟩
    have hleading : whole.length = 1 ∨ whole.head? ≠ some '0' := by
      by_cases h : whole.head? = some '0'
      · rw [hzero h]
        exact .inl rfl
      · exact .inr h
    have hnegative : ∃ negative : Bool, sign = (if negative then ['-'] else []) ∧
        sign.length = negative.toNat := by
      rcases hsign with rfl | rfl
      · exact ⟨false, rfl, rfl⟩
      · exact ⟨true, rfl, rfl⟩
    rcases hnegative with ⟨negative, hsign, hlength⟩
    rw [hlength, Nat.add_comm] at hsize
    have hread := number?_append negative hwhole.2 hwhole.1 hleading hsize hhead hdigits hx
    have htext : sign ++ (whole ++ (fraction ++ exponent)) ++ rest =
        (if negative then ['-'] else []) ++ (whole ++ (fraction ++ (exponent ++ rest))) := by
      rw [hsign]
      simp only [List.append_assoc]
    rw [htext]
    exact ⟨_, hread, by split <;> rfl⟩

end Reckoner.Json
