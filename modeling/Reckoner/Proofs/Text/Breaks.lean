import Reckoner.Proofs.Text.Lines

/-!
# Breaks — a break parts a text

Any line break parts a text in two, and the lines of the whole that are not empty are those of the
two parts. The carriage return with a line feed after it makes no difference to them, as the line
between the two is empty. Everything about lines with content follows from this one equation.
-/

namespace Reckoner.Text

/-! ## Lines that are not empty -/

/-- The lines that are not empty. -/
def nonemptyLines (cs : List Char) : List (List Char) := (lines cs).filter (!·.isEmpty)

theorem modifyHead_nil_append (parts : List (List Char)) :
    parts.modifyHead ([].reverse ++ ·) = parts := by
  cases parts <;> rfl

-- A carriage return and the line feed after it are two breaks here, with an empty line between them.
theorem filter_linesFrom (line cs : List Char) :
    (linesFrom line cs).filter (!·.isEmpty) =
      ((cs.splitOnP isLineBreak).modifyHead (line.reverse ++ ·)).filter (!·.isEmpty) := by
  fun_induction linesFrom line cs with
  | case1 line hempty =>
    rw [List.isEmpty_iff.mp hempty]
    rfl
  | case2 line hfilled =>
    rw [List.splitOnP_nil, List.modifyHead_cons, List.append_nil]
  | case3 line rest ih =>
    have hbreaks : isLineBreak '\r' = true ∧ isLineBreak '\n' = true := by decide
    rw [List.splitOnP_cons_eq_if_modifyHead, if_pos hbreaks.1, List.splitOnP_cons_eq_if_modifyHead,
      if_pos hbreaks.2, List.modifyHead_cons, List.append_nil, List.filter_cons, ih,
      modifyHead_nil_append, List.filter_cons]
    rfl
  | case4 line c rest hpair hbreak ih =>
    rw [List.splitOnP_cons_eq_if_modifyHead, if_pos hbreak, List.modifyHead_cons, List.append_nil,
      List.filter_cons, ih, modifyHead_nil_append, List.filter_cons]
  | case5 line c rest hpair hbreak ih =>
    rw [List.splitOnP_cons_eq_if_modifyHead, if_neg hbreak, ih, List.modifyHead_modifyHead]
    congr 2
    funext part
    rw [List.reverse_cons, List.append_assoc]
    rfl

theorem nonemptyLines_eq (cs : List Char) :
    nonemptyLines cs = (cs.splitOnP isLineBreak).filter (!·.isEmpty) := by
  rw [nonemptyLines, lines, filter_linesFrom, modifyHead_nil_append]

/-- A break parts a text. -/
theorem nonemptyLines_append_break {c : Char} (h : isLineBreak c = true) (front back : List Char) :
    nonemptyLines (front ++ c :: back) = nonemptyLines front ++ nonemptyLines back := by
  rw [nonemptyLines_eq, nonemptyLines_eq, nonemptyLines_eq, List.splitOnP_append_cons front back h,
    List.filter_append]

-- A text without breaks is a line.
theorem nonemptyLines_of_unbroken {cs : List Char} (h : Unbroken cs) (hnonempty : cs ≠ []) :
    nonemptyLines cs = [cs] := by
  rw [nonemptyLines_eq, List.splitOnP_eq_singleton h]
  exact filter_nonempty_eq_self (List.forall_mem_singleton.mpr hnonempty)

theorem IsContent.nonemptyLines_eq {l : List Char} (h : IsContent l) : nonemptyLines l = [l] :=
  nonemptyLines_of_unbroken h.unbroken h.nonempty

/-- Texts with a line feed after each have the lines of each. -/
theorem nonemptyLines_flatMap (texts : List (List Char)) :
    nonemptyLines (texts.flatMap fun cs => cs ++ ['\n']) = texts.flatMap nonemptyLines := by
  induction texts with
  | nil => rfl
  | cons cs texts ih =>
    rw [List.flatMap_cons, List.flatMap_cons, List.append_assoc, List.singleton_append,
      nonemptyLines_append_break rfl, ih]

-- Making the breaks of a text plain keeps each of them where it is, but for a carriage return with a
-- line feed after it, and the line between these two is empty.
theorem nonemptyLines_plainBreaksFrom (done cs : List Char) :
    nonemptyLines (plainBreaksFrom done cs) = nonemptyLines (done.reverse ++ cs) := by
  fun_induction plainBreaksFrom done cs with
  | case1 done => rw [List.append_nil]
  | case2 done rest ih =>
    rw [ih, List.reverse_cons, List.append_assoc, List.singleton_append,
      nonemptyLines_append_break rfl, nonemptyLines_append_break rfl]
    -- The line feed begins what is after the carriage return.
    exact congrArg (nonemptyLines done.reverse ++ ·) (nonemptyLines_append_break rfl [] rest).symm
  | case3 done c rest hpair ih =>
    rw [ih, List.reverse_cons, List.append_assoc, List.singleton_append]
    by_cases hreturn : c = '\r'
    · subst hreturn
      rw [if_pos rfl, nonemptyLines_append_break rfl, nonemptyLines_append_break rfl]
    · rw [if_neg hreturn]

/-! ## Lines with content -/

-- Trimming first or dropping the empty lines first comes to the same.
theorem contentLines_eq (cs : List Char) :
    contentLines cs = ((nonemptyLines cs).map trim).filter (!·.isEmpty) := by
  rw [contentLines, nonemptyLines, List.filter_map, List.filter_map, List.filter_filter]
  congr 1
  refine List.filter_congr fun l _ => ?_
  cases l with
  | nil => rfl
  | cons c l => exact (Bool.and_true _).symm

/-- Making the breaks of a text plain does not change its lines with content. -/
theorem contentLines_plainBreaks (cs : List Char) :
    contentLines (plainBreaks cs) = contentLines cs := by
  rw [contentLines_eq, contentLines_eq, plainBreaks, nonemptyLines_plainBreaksFrom]
  rfl

theorem contentLines_append_break {c : Char} (h : isLineBreak c = true) (front back : List Char) :
    contentLines (front ++ c :: back) = contentLines front ++ contentLines back := by
  rw [contentLines_eq, contentLines_eq, contentLines_eq, nonemptyLines_append_break h,
    List.map_append, List.filter_append]

theorem IsContent.contentLines_eq {l : List Char} (h : IsContent l) : contentLines l = [l] := by
  rw [Text.contentLines_eq, h.nonemptyLines_eq, List.map_singleton, h.trimmed]
  exact filter_nonempty_eq_self (List.forall_mem_singleton.mpr h.nonempty)

theorem contentLines_flatMap_newline (texts : List (List Char)) :
    contentLines (texts.flatMap fun cs => cs ++ ['\n']) = texts.flatMap contentLines := by
  rw [contentLines_eq, nonemptyLines_flatMap, List.map_flatMap, List.filter_flatMap]
  congr 1
  funext cs
  exact (contentLines_eq cs).symm

theorem mem_trimBy {p : Char → Bool} {cs : List Char} {c : Char} (hmem : c ∈ cs)
    (hc : p c = false) : c ∈ trimBy p cs := by
  have hkeep {ds : List Char} (h : c ∈ ds) : c ∈ ds.dropWhile p := by
    rw [← List.takeWhile_append_dropWhile (p := p) (l := ds)] at h
    refine (List.mem_append.mp h).resolve_left fun hskipped => ?_
    rw [List.all_eq_true.mp List.all_takeWhile c hskipped] at hc
    exact nomatch hc
  exact List.mem_reverse.mpr (hkeep (List.mem_reverse.mpr (hkeep hmem)))

/-- A text that is not blank has a line with content. -/
theorem contentLines_ne_nil {cs : List Char} {c : Char} (hmem : c ∈ cs) (hc : isBlank c = false) :
    contentLines cs ≠ [] := by
  by_cases hbroken : ∃ d ∈ cs, isLineBreak d = true
  · -- The character is on one side of the break, as it is none itself.
    rcases hbroken with ⟨d, hd, hbreak⟩
    rcases List.append_of_mem hd with ⟨front, back, hcs⟩
    have hlength : cs.length = front.length + (back.length + 1) := by
      rw [hcs, List.length_append, List.length_cons]
    rw [hcs, contentLines_append_break hbreak]
    rw [hcs] at hmem
    rcases List.mem_append.mp hmem with hfront | hrest
    · exact List.append_ne_nil_of_left_ne_nil (contentLines_ne_nil hfront hc) _
    · rcases List.mem_cons.mp hrest with rfl | hback
      · rw [isBlank_of_isLineBreak hbreak] at hc
        exact nomatch hc
      · exact List.append_ne_nil_of_right_ne_nil _ (contentLines_ne_nil hback hc)
  · have hunbroken : Unbroken cs := fun d hd =>
      Bool.eq_false_iff.mpr fun hbreak => hbroken ⟨d, hd, hbreak⟩
    have hkept : (!(trim cs).isEmpty) = true := by
      rw [Bool.not_eq_true', List.isEmpty_eq_false_iff]
      exact List.ne_nil_of_mem (mem_trimBy hmem hc)
    rw [contentLines_eq, nonemptyLines_of_unbroken hunbroken (List.ne_nil_of_mem hmem)]
    exact List.ne_nil_of_mem (List.mem_filter.mpr ⟨List.mem_singleton_self _, hkept⟩)
termination_by cs.length
decreasing_by
  all_goals omega

end Reckoner.Text
