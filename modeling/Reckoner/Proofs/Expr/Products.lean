import Mathlib.Data.List.Chain
import Reckoner.Expr.Spelling

/-!
# Products — what writing out products changes

A multiplication sign is put between two neighbours that stand for a product, and nothing else is
changed. So the text keeps its first and its last character, no two neighbours stand for a product
any more, and leaving the signs out again gives the text back.
-/

namespace Reckoner.Expr

variable {cs : List Char}

theorem prependFactor_eq (c : Char) (cs : List Char) :
    prependFactor c cs = c :: if cs.head?.any (multiplies c) then '*' :: cs else cs := by
  cases cs with
  | nil => rfl
  | cons d cs =>
    rw [prependFactor]
    cases h : multiplies c d <;> simp [h]

theorem head?_writeProducts (cs : List Char) : (writeProducts cs).head? = cs.head? := by
  cases cs with
  | nil => rfl
  | cons c cs =>
    change (prependFactor c (writeProducts cs)).head? = some c
    rw [prependFactor_eq, List.head?_cons]

theorem writeProducts_cons (c : Char) (cs : List Char) :
    writeProducts (c :: cs) =
      c :: if cs.head?.any (multiplies c) then '*' :: writeProducts cs else writeProducts cs := by
  rw [← head?_writeProducts cs]
  exact prependFactor_eq c (writeProducts cs)

-- A character in front of a sign or of the rest.
theorem writeProducts_cons_cases (c : Char) (cs : List Char) :
    (∃ d rest, cs = d :: rest ∧ multiplies c d = true ∧
        writeProducts (c :: cs) = c :: '*' :: writeProducts cs) ∨
      ((∀ d ∈ cs.head?, multiplies c d = false) ∧
        writeProducts (c :: cs) = c :: writeProducts cs) := by
  rw [writeProducts_cons]
  cases cs with
  | nil => exact .inr ⟨fun _ h => (nomatch h), rfl⟩
  | cons d rest =>
    cases h : multiplies c d with
    | true => exact .inl ⟨d, rest, rfl, h, by simp [h]⟩
    | false => exact .inr ⟨by rintro _ ⟨⟩; exact h, by simp [h]⟩

/-- What holds of the neighbours of a text, and of each character with a multiplication sign, holds
of the neighbours when products are written out. -/
theorem isChain_writeProducts {R : Char → Char → Prop} (hstar : ∀ c, R c '*')
    (hstar' : ∀ c, R '*' c) (h : cs.IsChain fun c d => multiplies c d = false → R c d) :
    (writeProducts cs).IsChain R := by
  induction cs with
  | nil => exact .nil
  | cons c cs ih =>
    have hrest := ih h.tail
    rcases writeProducts_cons_cases c cs with ⟨d, rest, rfl, hproduct, heq⟩ | ⟨hnone, heq⟩
    · rw [heq]
      refine .cons_cons (hstar c) (List.isChain_cons.mpr ⟨fun _ _ => hstar' _, hrest⟩)
    · rw [heq]
      refine List.isChain_cons.mpr ⟨fun d hd => ?_, hrest⟩
      rw [head?_writeProducts] at hd
      exact (List.isChain_cons.mp h).1 d hd (hnone d hd)

-- No two neighbours stand for a product any more.
theorem multiplies_writeProducts (cs : List Char) :
    (writeProducts cs).IsChain fun c d => multiplies c d = false :=
  isChain_writeProducts multiplies_star star_multiplies
    ((List.isChain_isInfix cs).imp fun _ _ _ h => h)

theorem omits_writeProducts (cs : List Char) : Omits (writeProducts cs) cs := by
  induction cs with
  | nil => exact .nil
  | cons c cs ih =>
    rcases writeProducts_cons_cases c cs with ⟨d, rest, rfl, hproduct, heq⟩ | ⟨-, heq⟩
    · rw [heq]
      have hhead := head?_writeProducts (d :: rest)
      obtain ⟨rest', hrest⟩ := List.head?_eq_some_iff.mp hhead
      rw [hrest] at ih ⊢
      exact .leave hproduct ih
    · rw [heq]
      exact .keep c ih

-- A character that is no factor parts the products of a text.
theorem writeProducts_append_cons (front : List Char) {d : Char}
    (hd : ∀ c, multiplies c d = false) (back : List Char) :
    writeProducts (front ++ d :: back) = writeProducts front ++ writeProducts (d :: back) := by
  induction front with
  | nil => rfl
  | cons c front ih =>
    rw [List.cons_append, writeProducts_cons, writeProducts_cons, ih]
    cases front with
    | nil => simp [hd c, writeProducts]
    | cons e front =>
      show c :: (if multiplies c e = true then _ else _) = _
      rw [List.head?_cons, Option.any_some]
      split <;> rfl

theorem getLast?_writeProducts (cs : List Char) : (writeProducts cs).getLast? = cs.getLast? := by
  induction cs with
  | nil => rfl
  | cons c cs ih =>
    rcases writeProducts_cons_cases c cs with ⟨d, rest, rfl, -, heq⟩ | ⟨-, heq⟩
    · rw [heq, List.getLast?_cons_cons, List.getLast?_cons, ih, List.getLast?_cons_cons]
      rw [List.getLast?_cons]
      rfl
    · rw [heq, List.getLast?_cons, List.getLast?_cons, ih]

end Reckoner.Expr
