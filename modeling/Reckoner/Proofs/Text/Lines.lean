import Reckoner.Text.Lines

/-!
# Lines — the lines of a text that is put together

The lines of a text have no breaks in them, and lines without breaks, each with a line feed after it,
are the lines of the whole. So are those that are neither empty nor have blanks at their ends, when
lines are trimmed and empty ones dropped.
-/

namespace Reckoner.Text

/-- A text without line breaks. -/
def Unbroken (cs : List Char) : Prop := ∀ c ∈ cs, isLineBreak c = false

instance (cs : List Char) : Decidable (Unbroken cs) :=
  decidable_of_iff (cs.all fun c => !isLineBreak c) (by simp [Unbroken])

theorem Unbroken.append {s t : String} (hs : Unbroken s.toList) (ht : Unbroken t.toList) :
    Unbroken (s ++ t).toList := by
  rw [String.toList_append]
  exact List.forall_mem_append.mpr ⟨hs, ht⟩

theorem isBlank_of_isLineBreak {c : Char} (h : isLineBreak c = true) : isBlank c = true := by
  simp only [isLineBreak, Bool.or_eq_true, Bool.and_eq_true, decide_eq_true_eq, beq_iff_eq] at h
  simp only [isBlank, isWhiteSpace, Bool.or_eq_true, Bool.and_eq_true, decide_eq_true_eq,
    beq_iff_eq]
  omega

/-! ## Cutting -/

theorem linesFrom_of_break {c : Char} (line rest : List Char) (hbreak : isLineBreak c = true)
    (hpair : c = '\r' → rest.head? ≠ some '\n') :
    linesFrom line (c :: rest) = line.reverse :: linesFrom [] rest := by
  rw [linesFrom]
  · exact if_pos hbreak
  · rintro rest' rfl rfl
    exact hpair rfl rfl

theorem linesFrom_of_not_break {c : Char} (line rest : List Char) (h : isLineBreak c = false) :
    linesFrom line (c :: rest) = linesFrom (c :: line) rest := by
  rw [linesFrom]
  · exact if_neg (by rw [h]; exact Bool.false_ne_true)
  · rintro rest' rfl rfl
    exact nomatch h

theorem linesFrom_append {cs : List Char} (h : Unbroken cs) (line rest : List Char) :
    linesFrom line (cs ++ rest) = linesFrom (cs.reverse ++ line) rest := by
  induction cs generalizing line with
  | nil => rfl
  | cons c cs ih =>
    rw [Unbroken, List.forall_mem_cons] at h
    rw [List.cons_append, linesFrom_of_not_break line _ h.1, ih h.2, List.reverse_cons,
      List.append_assoc]
    rfl

theorem linesFrom_newline (line rest : List Char) :
    linesFrom line ('\n' :: rest) = line.reverse :: linesFrom [] rest :=
  linesFrom_of_break line rest rfl fun heq => absurd heq (by decide)

/-- Lines without breaks are the lines of the text in which each has a line feed after it. -/
theorem lines_flatMap {ls : List (List Char)} (h : ∀ l ∈ ls, Unbroken l) :
    lines (ls.flatMap fun l => l ++ ['\n']) = ls := by
  induction ls with
  | nil => rfl
  | cons l ls ih =>
    rw [List.forall_mem_cons] at h
    rw [lines] at ih ⊢
    rw [List.flatMap_cons, List.append_assoc, linesFrom_append h.1, List.singleton_append,
      linesFrom_newline, ih h.2, List.append_nil, List.reverse_reverse]

theorem unbroken_of_mem_linesFrom {line cs l : List Char} (hline : Unbroken line)
    (hl : l ∈ linesFrom line cs) : Unbroken l := by
  have hreverse {line : List Char} (h : Unbroken line) : Unbroken line.reverse :=
    fun c hc => h c (List.mem_reverse.mp hc)
  fun_induction linesFrom line cs with
  | case1 line hempty => exact nomatch hl
  | case2 line hempty =>
    rw [List.mem_singleton.mp hl]
    exact hreverse hline
  | case3 line rest ih =>
    -- The line that a break ends, or one after it.
    rcases List.mem_cons.mp hl with rfl | hl
    · exact hreverse hline
    · exact ih (List.forall_mem_nil _) hl
  | case4 line d rest hpair hbreak ih =>
    rcases List.mem_cons.mp hl with rfl | hl
    · exact hreverse hline
    · exact ih (List.forall_mem_nil _) hl
  | case5 line d rest hpair hbreak ih =>
    exact ih (List.forall_mem_cons.mpr ⟨Bool.eq_false_iff.mpr hbreak, hline⟩) hl

/-- The lines of a text have no breaks in them. -/
theorem unbroken_of_mem_lines {cs l : List Char} (hl : l ∈ lines cs) : Unbroken l :=
  unbroken_of_mem_linesFrom (List.forall_mem_nil _) hl

/-! ## Trimming -/

theorem trimBy_eq {p : Char → Bool} {cs : List Char} (hhead : ∀ c ∈ cs.head?, p c = false)
    (hlast : ∀ c ∈ cs.getLast?, p c = false) : trimBy p cs = cs := by
  have hkeep (ds : List Char) (h : ∀ c ∈ ds.head?, p c = false) : ds.dropWhile p = ds := by
    cases ds with
    | nil => rfl
    | cons d ds =>
      exact List.dropWhile_cons_of_neg (by rw [h d rfl]; exact Bool.false_ne_true)
  rw [trimBy, hkeep cs hhead, hkeep cs.reverse (by rwa [List.head?_reverse]), List.reverse_reverse]

theorem mem_of_mem_trimBy {p : Char → Bool} {cs : List Char} {c : Char} (h : c ∈ trimBy p cs) :
    c ∈ cs := by
  have hinner := (List.dropWhile_sublist p).subset (List.mem_reverse.mp h)
  exact (List.dropWhile_sublist p).subset (List.mem_reverse.mp hinner)

theorem eq_false_of_mem_head?_dropWhile {p : Char → Bool} {cs : List Char} {c : Char}
    (h : c ∈ (cs.dropWhile p).head?) : p c = false := by
  induction cs with
  | nil => exact nomatch h
  | cons d ds ih =>
    by_cases hd : p d = true
    · rw [List.dropWhile_cons_of_pos hd] at h
      exact ih h
    · rw [List.dropWhile_cons_of_neg hd] at h
      cases h
      exact Bool.eq_false_iff.mpr hd

-- Neither end of a trimmed text satisfies the condition.
theorem trimBy_ends (p : Char → Bool) (cs : List Char) :
    (∀ c ∈ (trimBy p cs).head?, p c = false) ∧ ∀ c ∈ (trimBy p cs).getLast?, p c = false := by
  constructor
  · -- The first character of the text from the back is still there after its end is cut.
    intro c hc
    rw [trimBy, List.head?_reverse] at hc
    have hlast : c ∈ ((cs.dropWhile p).reverse.takeWhile p ++
        (cs.dropWhile p).reverse.dropWhile p).getLast? := by
      rw [List.getLast?_append, Option.mem_def.mp hc]
      rfl
    rw [List.takeWhile_append_dropWhile, List.getLast?_reverse] at hlast
    exact eq_false_of_mem_head?_dropWhile hlast
  · intro c hc
    rw [trimBy, List.getLast?_reverse] at hc
    exact eq_false_of_mem_head?_dropWhile hc

theorem trimBy_trimBy (p : Char → Bool) (cs : List Char) :
    trimBy p (trimBy p cs) = trimBy p cs := by
  rcases trimBy_ends p cs with ⟨hhead, hlast⟩
  exact trimBy_eq hhead hlast

/-! ## Lines with content -/

/-- What is known of a line with content. -/
structure IsContent (l : List Char) : Prop where
  unbroken : Unbroken l
  trimmed : trim l = l
  nonempty : l ≠ []

theorem isContent_of_mem_contentLines {cs l : List Char} (h : l ∈ contentLines cs) :
    IsContent l := by
  rcases List.mem_filter.mp h with ⟨hmem, hnonempty⟩
  rcases List.mem_map.mp hmem with ⟨line, hline, rfl⟩
  refine ⟨fun c hc => ?_, trimBy_trimBy isBlank line, ?_⟩
  · exact unbroken_of_mem_lines hline c (mem_of_mem_trimBy hc)
  · rwa [Bool.not_eq_true', List.isEmpty_eq_false_iff] at hnonempty

theorem filter_nonempty_eq_self {ls : List (List Char)} (h : ∀ l ∈ ls, l ≠ []) :
    ls.filter (!·.isEmpty) = ls := by
  refine List.filter_eq_self.mpr fun l hl => ?_
  rw [Bool.not_eq_true', List.isEmpty_eq_false_iff]
  exact h l hl

/-- Lines with content are those of the text in which each has a line feed after it. -/
theorem contentLines_flatMap {ls : List (List Char)} (h : ∀ l ∈ ls, IsContent l) :
    contentLines (ls.flatMap fun l => l ++ ['\n']) = ls := by
  rw [contentLines, lines_flatMap fun l hl => (h l hl).unbroken,
    List.map_congr_left fun l hl => (h l hl).trimmed, List.map_id']
  exact filter_nonempty_eq_self fun l hl => (h l hl).nonempty

-- A line with content is not blank: its first character is not.
theorem IsContent.isBlankText {l : List Char} (h : IsContent l) :
    isBlankText (String.ofList l) = false := by
  have hends := (trimBy_ends isBlank l).1
  rw [← trim, h.trimmed] at hends
  rcases List.exists_cons_of_ne_nil h.nonempty with ⟨c, rest, rfl⟩
  have hc := hends c rfl
  rw [Text.isBlankText, String.toList_ofList, List.all_cons, hc, Bool.false_and]

end Reckoner.Text
