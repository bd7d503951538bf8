import Reckoner.Proofs.Expr.Lexemes

/-!
# Runs — what a text loses when it falls into tokens

The texts of the tokens, one after the other, are the text that was read, but for its runs of
minuses. A run of two or more loses one of them, unless it stands where a literal may have a sign.
-/

namespace Reckoner.Expr

variable {α : Type} {read : List Char → Option α}

/-! ## Runs of minuses -/

/-- The text with one minus less in each run of two or more that stands behind a character where no
literal has a sign. The run loses its first one, which has no minus in front. -/
def shortenRuns (previous : Option Char) : List Char → List Char
  | [] => []
  | c :: cs =>
    if c = '-' ∧ cs.head? = some '-' ∧ previous ≠ some '-' ∧ admitsSign previous = false then
      shortenRuns (some c) cs
    else c :: shortenRuns (some c) cs

-- Other characters stay.
theorem shortenRuns_append {l : List Char} (hl : ∀ c ∈ l, c ≠ '-') (previous : Option Char)
    (cs : List Char) :
    shortenRuns previous (l ++ cs) = l ++ shortenRuns (l.getLast?.or previous) cs := by
  induction l generalizing previous with
  | nil => rfl
  | cons c l ih =>
    rw [List.forall_mem_cons] at hl
    rw [List.cons_append, shortenRuns, if_neg fun h => hl.1 h.1, ih hl.2, List.getLast?_cons]
    cases l.getLast? <;> rfl

-- Inside a run, minuses stay.
theorem shortenRuns_replicate (n : Nat) (cs : List Char) :
    shortenRuns (some '-') (List.replicate n '-' ++ cs) =
      List.replicate n '-' ++ shortenRuns (some '-') cs := by
  induction n with
  | zero => rfl
  | succ n ih =>
    rw [List.replicate_succ, List.cons_append, shortenRuns, if_neg fun h => h.2.2.1 rfl, ih]
    rfl

/-- What is left of a whole run. -/
theorem shortenRuns_run {previous : Option Char} (n : Nat) {cs : List Char}
    (hstart : previous ≠ some '-') (hend : ∀ c ∈ cs.head?, c ≠ '-') :
    shortenRuns previous (List.replicate (n + 1) '-' ++ cs) =
      List.replicate (if admitsSign previous then n + 1 else max 1 n) '-' ++
        shortenRuns (some '-') cs := by
  rw [List.replicate_succ, List.cons_append, shortenRuns, shortenRuns_replicate]
  cases n with
  | zero =>
    rw [if_neg fun h => hend '-' h.2.1 rfl]
    simp
  | succ n =>
    have hnext : (List.replicate (n + 1) '-' ++ cs).head? = some '-' := rfl
    cases hsign : admitsSign previous with
    | true =>
      rw [if_neg (by simp), if_pos rfl, List.replicate_succ (n := n + 1)]
      rfl
    | false =>
      rw [if_pos ⟨rfl, hnext, hstart, rfl⟩]
      simp

-- Without two minuses in a row there is nothing to leave out.
theorem shortenRuns_eq_self {cs : List Char} (hrun : ¬['-', '-'] <:+: cs)
    (previous : Option Char) : shortenRuns previous cs = cs := by
  induction cs generalizing previous with
  | nil => rfl
  | cons c cs ih =>
    rw [shortenRuns, if_neg, ih fun hmore => hrun (hmore.trans (List.suffix_cons c cs).isInfix)]
    rintro ⟨rfl, hnext, -⟩
    obtain ⟨rest, rfl⟩ := List.head?_eq_some_iff.mp hnext
    exact hrun ⟨[], rest, rfl⟩

/-! ## Texts of tokens -/

theorem Operator.eq_singleton_of_ofText? {cs : List Char} {op : Operator}
    (h : ofText? cs = some op) : cs = [op.symbol] := by
  unfold ofText? ofSymbol? at h
  split at h
  · split at h <;> cases h <;> rfl
  · cases h

theorem Token.toList_text_ofText (cs : List Char) :
    (Token.ofText read cs).text.toList = cs := by
  unfold Token.ofText
  split
  · rename_i op hoperator
    rw [Operator.eq_singleton_of_ofText? hoperator]
    exact String.toList_singleton op.symbol
  split
  · simp [text, *]
  split
  · simp [text, *]
  · cases hread : read cs <;> simp [number?, hread, text]

/-- The characters of the tokens, in a row. -/
def charactersOf (ts : List (Token α)) : List Char := ts.flatMap fun t => t.text.toList

theorem charactersOf_cons (t : Token α) (ts : List (Token α)) :
    charactersOf (t :: ts) = t.text.toList ++ charactersOf ts := rfl

theorem charactersOf_append (ts us : List (Token α)) :
    charactersOf (ts ++ us) = charactersOf ts ++ charactersOf us := List.flatMap_append

-- A literal with minuses in front of it.
theorem charactersOf_minuses (n : Nat) (l : List Char) (ts : List (Token α)) :
    charactersOf (List.replicate n (.unknown "-") ++ Token.ofText read ('-' :: l) :: ts) =
      List.replicate (n + 1) '-' ++ (l ++ charactersOf ts) := by
  induction n with
  | zero =>
    rw [List.replicate_zero, List.nil_append, charactersOf_cons, Token.toList_text_ofText]
    rfl
  | succ n ih =>
    rw [List.replicate_succ, List.cons_append, charactersOf_cons, ih]
    simp [Token.text, List.replicate_succ]

-- A run with the literal behind it.
theorem shortenRuns_signed {previous : Option Char} (n : Nat) {l cs : List Char}
    (hstart : previous ≠ some '-') (hliteral : ∀ c ∈ l, isLiteralChar c = true)
    (hends : ∀ c ∈ cs.head?, isLiteralChar c = false ∧ (l = [] → c ≠ '-')) :
    shortenRuns previous (List.replicate (n + 1) '-' ++ (l ++ cs)) =
      List.replicate (if admitsSign previous then n + 1 else max 1 n) '-' ++
        (l ++ shortenRuns ('-' :: l).getLast? cs) := by
  have hminus : ∀ c ∈ l, c ≠ '-' := fun c hc => ne_minus_of_isLiteralChar (hliteral c hc)
  rw [shortenRuns_run n hstart (ne_minus_of_mem_head? hliteral fun c hc => (hends c hc).2),
    shortenRuns_append hminus, List.getLast?_cons]
  cases l.getLast? <;> rfl

theorem Lexes.charactersOf_eq {previous : Option Char} {ts : List (Token α)} {cs : List Char}
    (h : Lexes read previous ts cs) : charactersOf ts = shortenRuns previous cs := by
  induction h with
  | nil => rfl
  | @literal previous l cs ts _ hne hliteral _ _ ih =>
    rw [charactersOf_cons, Token.toList_text_ofText, ih,
      shortenRuns_append fun c hc => ne_minus_of_isLiteralChar (hliteral c hc)]
    rw [List.getLast?_eq_getLast_of_ne_nil hne]
    rfl
  | symbol previous _ hminus _ ih =>
    rw [charactersOf_cons, Token.toList_text_ofText, ih]
    exact (shortenRuns_append (by simpa using hminus) previous _).symm
  | minus hcloses hends _ ih =>
    rw [charactersOf_cons, ih]
    have hrun := shortenRuns_run 0 (ne_minus_of_opensLiteral hcloses) hends
    simpa [Token.text, Operator.symbol] using hrun.symm
  | signed n hopens hstart hliteral hends _ ih =>
    rw [charactersOf_minuses, ih]
    have hrun := shortenRuns_signed n hstart hliteral hends
    rw [if_pos (admitsSign_of_opensLiteral hopens hstart)] at hrun
    exact hrun.symm
  | withdrawn n hcloses hliteral hends _ ih =>
    rw [charactersOf_minuses, ih]
    have hrun := shortenRuns_signed (n + 1) (ne_minus_of_opensLiteral hcloses) hliteral hends
    rw [if_neg (by simp [admitsSign_eq_false hcloses]), max_eq_right (by omega)] at hrun
    exact hrun.symm

/-- The characters of the tokens are those of the text, but for one minus of each run of two or more
that stands behind a character where no literal has a sign. -/
theorem charactersOf_tokens (cs : List Char) :
    charactersOf (tokens cs) = shortenRuns none cs ∧
      (¬['-', '-'] <:+: cs → charactersOf (tokens cs) = cs) := by
  have hshortened := (lexes_tokensBy Number.floatOfAnyScript? cs).charactersOf_eq
  exact ⟨hshortened, fun hrun => hshortened.trans (shortenRuns_eq_self hrun none)⟩

/-- The run behind the literal loses a minus, those at the start and behind the product do not. -/
theorem charactersOf_tokens_runs :
    charactersOf (tokens "--12---3 *--x".toList) = "--12--3 *--x".toList ∧
      ¬['-', '-'] <:+: "é-12. -3*-".toList ∧
        charactersOf (tokens "é-12. -3*-".toList) = "é-12. -3*-".toList := by
  have hshortened : shortenRuns none "--12---3 *--x".toList = "--12--3 *--x".toList := by
    decide +kernel
  have hrun : ¬['-', '-'] <:+: "é-12. -3*-".toList := by decide +kernel
  refine ⟨?_, hrun, ?_⟩
  · rw [← hshortened]
    exact (charactersOf_tokens "--12---3 *--x".toList).1
  · exact (charactersOf_tokens "é-12. -3*-".toList).2 hrun

end Reckoner.Expr
