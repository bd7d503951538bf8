import Reckoner.Proofs.Expr.Places
import Reckoner.Proofs.Expr.Spelled

/-!
# Canonical — one normal form for all ways to write an expression

The normal form is the only text without products between neighbours from which the blankless text
comes by leaving multiplication signs out. So it is its own normal form, and neither blanks nor
signs that are written or left out make a difference to the value.
-/

namespace Reckoner.Expr

open Text

variable {cs n : List Char}

/-! ## Signs left out -/

namespace Omits

variable {full short : List Char}

theorem sublist (h : Omits full short) : short.Sublist full := by
  induction h with
  | nil => exact .slnil
  | keep c _ ih => exact ih.cons_cons c
  | leave _ _ ih => exact (ih.cons '*').cons_cons _

-- Nothing but signs is left out.
theorem mem_or_eq_star (h : Omits full short) : ∀ c ∈ full, c ∈ short ∨ c = '*' := by
  induction h with
  | nil => exact List.forall_mem_nil _
  | keep c _ ih =>
    exact List.forall_mem_cons.mpr ⟨.inl List.mem_cons_self, fun d hd =>
      (ih d hd).imp_left (List.mem_cons_of_mem c)⟩
  | @leave c d full short _ _ ih =>
    refine List.forall_mem_cons.mpr ⟨.inl List.mem_cons_self, List.forall_mem_cons.mpr ⟨.inr rfl,
      fun e he => (ih e he).imp_left (List.mem_cons_of_mem c)⟩⟩

theorem isAllowed_iff (h : Omits full short) :
    (∀ c ∈ full, isAllowed c = true) ↔ ∀ c ∈ short, isAllowed c = true := by
  refine ⟨fun hfull c hc => hfull c (h.sublist.mem hc), fun hshort c hc => ?_⟩
  rcases h.mem_or_eq_star c hc with hmem | rfl
  · exact hshort c hmem
  · rfl

-- A text in which no neighbours stand for a product has all of its signs.
theorem eq_writeProducts (h : Omits full short)
    (hproducts : full.IsChain fun c d => multiplies c d = false) : full = writeProducts short := by
  rw [← h.writeProducts_eq.1, writeProducts_eq_self hproducts]

end Omits

/-! ## The normal form -/

theorem isAllowed_iff_mem (c : Char) :
    isAllowed c = true ↔ c ∈ "0123456789+-*/^().".toList := by
  have hlisted : ∀ c ∈ "0123456789+-*/^().".toList, isAllowed c = true :=
    List.all_eq_true.mp (by decide +kernel)
  refine ⟨fun h => ?_, hlisted c⟩
  rcases isAllowed_cases h with hc | rfl | rfl | ⟨op, rfl⟩
  · simp only [isLiteralChar, Bool.or_eq_true, beq_iff_eq] at hc
    rcases hc with hc | rfl
    · exact forall_of_isDigit (motive := (· ∈ "0123456789+-*/^().".toList)) (by decide +kernel) hc
    · decide
  · decide
  · decide
  · cases op <;> decide

-- What is checked are the characters that are not blank.
theorem normalForm_eq (cs : List Char) :
    normalForm cs = if (compact cs).all isAllowed then .ok (writeProducts (compact cs))
      else .error .invalidCharacter := by
  have hall : (writeProducts (compact cs)).all isAllowed = (compact cs).all isAllowed := by
    rw [Bool.eq_iff_iff, List.all_eq_true, List.all_eq_true]
    exact (omits_writeProducts _).isAllowed_iff
  simp only [normalForm, hall]

theorem normalForm_eq_ok_iff :
    normalForm cs = .ok n ↔ (∀ c ∈ compact cs, isAllowed c = true) ∧ Omits n (compact cs) ∧
      n.IsChain fun c d => multiplies c d = false := by
  rw [normalForm_eq, ← List.all_eq_true]
  constructor
  · intro h
    split at h
    · rename_i hall
      cases h
      exact ⟨hall, omits_writeProducts _, multiplies_writeProducts _⟩
    · cases h
  · rintro ⟨hall, homits, hproducts⟩
    rw [if_pos hall, homits.eq_writeProducts hproducts]

theorem isNormal_normalForm (h : normalForm cs = .ok n) : IsNormal n := by
  obtain ⟨hall, homits, hproducts⟩ := normalForm_eq_ok_iff.mp h
  exact ⟨homits.isAllowed_iff.mpr hall, hproducts⟩

theorem IsNormal.normalForm_eq_self (h : IsNormal n) : normalForm n = .ok n := by
  have hcompact := compact_eq_self h.allowed
  exact normalForm_eq_ok_iff.mpr ⟨by rw [hcompact]; exact h.allowed,
    by rw [hcompact]; exact .refl n, h.products⟩

-- Signs that are written or left out make no difference.
theorem normalForm_eq_of_omits {full short : List Char}
    (h : Omits (compact full) (compact short)) : normalForm full = normalForm short := by
  have hall : (compact full).all isAllowed = (compact short).all isAllowed := by
    rw [Bool.eq_iff_iff, List.all_eq_true, List.all_eq_true]
    exact h.isAllowed_iff
  rw [normalForm_eq, normalForm_eq, hall, h.writeProducts_eq.1]

theorem evaluate_eq_of_normalForm {expr other : String}
    (h : normalForm other.toList = normalForm expr.toList) : evaluate other = evaluate expr := by
  rw [evaluate, evaluate, h]

/-- An expression has a normal form just if all of its characters that are not blank belong to
expressions. The normal form is the text without blanks with a multiplication sign between any two
neighbours that stand for a product, and is its own normal form. An expression with other blanks, or
with some of the signs written out, has the same normal form and the same value or error. -/
theorem normalForm_canonical (expr : String) :
    ((∃ n, normalForm expr.toList = .ok n) ↔
        ∀ c ∈ expr.toList, isBlank c = false → c ∈ "0123456789+-*/^().".toList) ∧
      (∀ n, normalForm expr.toList = .ok n →
        (n.IsChain fun c d => multiplies c d = false) ∧ Omits n (compact expr.toList) ∧
          normalForm n = .ok n ∧ evaluate (String.ofList n) = evaluate expr) ∧
      ∀ other : String,
        compact other.toList = compact expr.toList ∨
            Omits (compact other.toList) (compact expr.toList) →
          normalForm other.toList = normalForm expr.toList ∧ evaluate other = evaluate expr := by
  refine ⟨?_, fun n hn => ?_, fun other hother => ?_⟩
  · have hallowed : (∃ n, normalForm expr.toList = .ok n) ↔
        ∀ c ∈ compact expr.toList, isAllowed c = true :=
      ⟨fun ⟨n, hn⟩ => (normalForm_eq_ok_iff.mp hn).1, fun hall =>
        ⟨_, normalForm_eq_ok_iff.mpr ⟨hall, omits_writeProducts _, multiplies_writeProducts _⟩⟩⟩
    simp [hallowed, compact, isAllowed_iff_mem]
  · obtain ⟨-, homits, hproducts⟩ := normalForm_eq_ok_iff.mp hn
    have hself := (isNormal_normalForm hn).normalForm_eq_self
    refine ⟨hproducts, homits, hself, evaluate_eq_of_normalForm ?_⟩
    rw [String.toList_ofList, hself, hn]
  · have homits : Omits (compact other.toList) (compact expr.toList) := by
      rcases hother with heq | homits
      · rw [heq]
        exact .refl _
      · exact homits
    have hnormal := normalForm_eq_of_omits homits
    exact ⟨hnormal, evaluate_eq_of_normalForm hnormal⟩

/-- Three signs are left out, one of them between digits with a blank between them. -/
theorem normalForm_canonical_product :
    normalForm "2 3(4.)5".toList = .ok "2*3*(4.)*5".toList ∧
      normalForm "2*3*(4.)*5".toList = .ok "2*3*(4.)*5".toList ∧
        evaluate "2 *3(4. )*5" = evaluate "2 3(4.)5" := by
  have hnormal : normalForm "2 3(4.)5".toList = .ok "2*3*(4.)*5".toList := by decide +kernel
  have homits : Omits (compact "2 *3(4. )*5".toList) (compact "2 3(4.)5".toList) :=
    .leave rfl (.keep '3' (.keep '(' (.keep '4' (.keep '.' (.leave rfl (.keep '5' .nil))))))
  exact ⟨hnormal, ((normalForm_canonical "2 3(4.)5").2.1 _ hnormal).2.2.1,
    ((normalForm_canonical "2 3(4.)5").2.2 _ (.inr homits)).2⟩

end Reckoner.Expr
