/-!
# Split — cutting text at a character

The parts of a text between the occurrences of a character. Joining them gives the text back, and
none of them has the character in it.
-/

namespace Reckoner.Text

/-- One character in front of the parts of a text. -/
def prependPart (separator c : Char) (parts : List (List Char)) : List (List Char) :=
  if c = separator then [] :: parts
  else match parts with
    | [] => [[c]]
    | part :: rest => (c :: part) :: rest

/-- The parts of a text between the occurrences of a character, also the empty ones; there is at
least one. -/
def splitAt (separator : Char) (cs : List Char) : List (List Char) :=
  cs.foldr (prependPart separator) [[]]

/-- Parts with a text between them. -/
def join (separator : List Char) (parts : List (List Char)) : List Char :=
  separator.intercalate parts

variable {separator : Char}

theorem splitAt_cons (c : Char) (cs : List Char) :
    splitAt separator (c :: cs) = prependPart separator c (splitAt separator cs) := rfl

theorem splitAt_ne_nil (cs : List Char) : splitAt separator cs ≠ [] := by
  cases cs with
  | nil => exact List.cons_ne_nil [] []
  | cons c cs =>
    simp only [splitAt_cons, prependPart]
    split
    · exact List.cons_ne_nil [] _
    · split <;> exact List.cons_ne_nil _ _

theorem join_splitAt (cs : List Char) : join [separator] (splitAt separator cs) = cs := by
  induction cs with
  | nil => rfl
  | cons c cs ih =>
    simp only [splitAt_cons, prependPart]
    cases parts : splitAt separator cs with
    | nil => exact absurd parts (splitAt_ne_nil cs)
    | cons part rest =>
      rw [parts] at ih
      split
      · rename_i same
        subst same
        simpa [join, List.intercalate] using ih
      · cases rest <;> simpa [join, List.intercalate] using ih

-- The first part, and each other one behind a separator.
theorem join_cons (first : List Char) (rest : List (List Char)) :
    join [separator] (first :: rest) = first ++ (rest.map (separator :: ·)).flatten := by
  induction rest generalizing first with
  | nil => simp [join]
  | cons part rest ih =>
    rw [join, List.intercalate_cons_cons, ← join, ih, List.map_cons, List.flatten_cons,
      List.append_assoc]
    rfl

theorem not_mem_of_mem_splitAt {cs part : List Char} (h : part ∈ splitAt separator cs) :
    separator ∉ part := by
  induction cs generalizing part with
  | nil => simp_all [splitAt]
  | cons c cs ih =>
    simp only [splitAt_cons, prependPart] at h
    split at h
    · rcases List.mem_cons.mp h with rfl | later
      · exact List.not_mem_nil
      · exact ih later
    · rename_i differs
      split at h
      · rename_i none
        exact absurd none (splitAt_ne_nil cs)
      · rename_i first rest found
        rw [found] at ih
        rcases List.mem_cons.mp h with rfl | later
        · intro member
          rcases List.mem_cons.mp member with same | inner
          · exact differs same.symm
          · exact ih (List.mem_cons_self ..) inner
        · exact ih (List.mem_cons_of_mem first later)

theorem splitAt_append {part : List Char} (h : separator ∉ part) (rest : List Char) :
    splitAt separator (part ++ separator :: rest) = part :: splitAt separator rest := by
  induction part with
  | nil => exact if_pos rfl
  | cons c part ih =>
    have differs : c ≠ separator := (List.ne_of_not_mem_cons h).symm
    rw [List.cons_append, splitAt_cons, ih (List.not_mem_of_not_mem_cons h)]
    exact if_neg differs

-- Parts with a separator after each, and nothing after the last one.
theorem splitAt_flatMap {parts : List (List Char)} (h : ∀ part ∈ parts, separator ∉ part) :
    splitAt separator (parts.flatMap fun part => part ++ [separator]) = parts ++ [[]] := by
  induction parts with
  | nil => rfl
  | cons part parts ih =>
    rw [List.forall_mem_cons] at h
    rw [List.flatMap_cons, List.append_assoc, List.singleton_append, splitAt_append h.1, ih h.2]
    rfl

end Reckoner.Text
