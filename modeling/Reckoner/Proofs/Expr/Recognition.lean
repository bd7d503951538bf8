import Reckoner.Proofs.Expr.Balance
import Reckoner.Proofs.Expr.Spelled

/-!
# Recognition — which texts with a value are expressions

A text without a run of minuses falls into lexemes that are literals, operators and parentheses, so
it spells its tokens, and these are an expression just if neither an operand nor an operator is
missing. As a value only shows that as many of both are missing, texts with a point next to a
parenthesis can have a value without being expressions.
-/

namespace Reckoner.Expr

open Number Text

variable {α : Type} {read : List Char → Option α}

/-! ## Literals -/

-- Digits that stand for no product stand alone.
theorem eq_nil_or_singleton {cs : List Char} (hdigits : ∀ c ∈ cs, c.isDigit = true)
    (hproducts : cs.IsChain fun c d => multiplies c d = false) : cs = [] ∨ ∃ d, cs = [d] := by
  match cs, hproducts with
  | [], _ => exact .inl rfl
  | [d], _ => exact .inr ⟨d, rfl⟩
  | c :: d :: cs, hproducts =>
    have hpair := (List.isChain_cons_cons.mp hproducts).1
    simp [multiplies, hdigits c (by simp), hdigits d (by simp)] at hpair

-- What follows the digits at the front of digits and points begins with a point.
theorem dropWhile_isDigit_cases {cs : List Char} (hliteral : ∀ c ∈ cs, isLiteralChar c = true) :
    cs.dropWhile Char.isDigit = [] ∨ ∃ rest, cs.dropWhile Char.isDigit = '.' :: rest := by
  cases hafter : cs.dropWhile Char.isDigit with
  | nil => exact .inl rfl
  | cons c rest =>
    have hmem : c ∈ cs := (List.dropWhile_suffix _).mem (hafter ▸ List.mem_cons_self)
    have hc := hliteral c hmem
    have hdigit : c.isDigit = false := eq_false_of_mem_head?_dropWhile (by rw [hafter]; rfl)
    rw [isLiteralChar, hdigit, Bool.false_or, beq_iff_eq] at hc
    exact .inr ⟨rest, by rw [hc]⟩

-- A point between digits of which there is at most one on each side.
theorem isLiteral_of_point {whole fraction : List Char} (hne : whole ++ fraction ≠ [])
    (hdigits : ∀ c ∈ whole ++ fraction, c.isDigit = true) (hwhole : whole = [] ∨ ∃ d, whole = [d])
    (hfraction : fraction = [] ∨ ∃ d, fraction = [d]) : IsLiteral (whole ++ '.' :: fraction) := by
  rcases hwhole with rfl | ⟨d, rfl⟩ <;> rcases hfraction with rfl | ⟨e, rfl⟩
  · exact absurd rfl hne
  · exact .fraction (hdigits e (by simp))
  · exact .wholePoint (hdigits d (by simp))
  · exact .wholeFraction (hdigits d (by simp)) (hdigits e (by simp))

theorem isLiteral_of_decimal? {l : List Char} {x : Decimal} (h : decimal? l = some x)
    (hliteral : ∀ c ∈ l, isLiteralChar c = true)
    (hproducts : l.IsChain fun c d => multiplies c d = false) : IsLiteral l := by
  have hdigits (cs : List Char) : ∀ c ∈ cs.takeWhile Char.isDigit, c.isDigit = true :=
    List.all_eq_true.mp List.all_takeWhile
  -- Of digits in a row there is one.
  have hfew (cs : List Char) (hpart : cs <:+ l) :
      cs.takeWhile Char.isDigit = [] ∨ ∃ d, cs.takeWhile Char.isDigit = [d] :=
    have hchain := List.IsChain.prefix (hproducts.suffix hpart) (List.takeWhile_prefix Char.isDigit)
    eq_nil_or_singleton (hdigits cs) hchain
  have hsplit := List.takeWhile_append_dropWhile (p := Char.isDigit) (l := l)
  rw [decimal?] at h
  rcases dropWhile_isDigit_cases hliteral with hafter | ⟨after, hafter⟩
  · have hall := hfew l (List.suffix_refl l)
    rw [hafter, List.append_nil] at hsplit
    rw [hsplit] at hall
    rcases hall with rfl | ⟨d, rfl⟩
    · cases h
    · exact .whole (hdigits [d] d (by rw [hsplit]; exact List.mem_cons_self))
  · have hrest : after <:+ l := by
      rw [← hsplit, hafter]
      exact ⟨l.takeWhile Char.isDigit ++ ['.'], by simp⟩
    simp only [hafter, splitFraction] at h
    rcases dropWhile_isDigit_cases fun c hc => hliteral c (hrest.mem hc) with hend | ⟨more, hend⟩
    · have hsplit' := List.takeWhile_append_dropWhile (p := Char.isDigit) (l := after)
      rw [hend, List.append_nil] at hsplit'
      rw [← hsplit, hafter, ← hsplit']
      refine isLiteral_of_point (fun hnone => ?_)
        (List.forall_mem_append.mpr ⟨hdigits l, hdigits after⟩)
        (hfew l (List.suffix_refl l)) (hfew after hrest)
      rw [List.append_eq_nil_iff] at hnone
      simp [hnone] at h
    · -- A second point is no exponent.
      have hnone : exponent? ('.' :: more) = none := by simp [exponent?]
      rw [hend, hnone] at h
      split at h <;> cases h

/-- Digits and points that read as a number are a literal, if no digits stand for a product. -/
theorem isLiteral_of_read {l : List Char} (hne : l ≠ [])
    (hliteral : ∀ c ∈ l, isLiteralChar c = true)
    (hproducts : l.IsChain fun c d => multiplies c d = false)
    (hread : ∃ v, floatOfAnyScript? l = some v ∨ floatOfAnyScript? ('-' :: l) = some v) :
    IsLiteral l := by
  rw [floatOfAnyScript?_of_isLiteralChar hne hliteral,
    floatOfAnyScript?_signed hne hliteral] at hread
  cases hdecimal : decimal? l with
  | some x => exact isLiteral_of_decimal? hdecimal hliteral hproducts
  | none =>
    rw [hdecimal] at hread
    obtain ⟨v, hv | hv⟩ := hread <;> exact nomatch hv

/-! ## Lexemes that are literals, operators and parentheses -/

theorem Spells.symbol {previous : Option Char} {c : Char} {cs : List Char} {ts : List (Token α)}
    (hallowed : Expr.isAllowed c = true) (hliteral : isLiteralChar c = false)
    (h : Spells read (some c) ts cs) :
    Spells read previous (Token.ofText read [c] :: ts) (c :: cs) := by
  rcases isAllowed_cases hallowed with hc | rfl | rfl | ⟨op, rfl⟩
  · exact nomatch hc.symm.trans hliteral
  · exact .leftParen previous h
  · exact .rightParen previous h
  · rw [Token.ofText_symbol]
    exact .operator previous op h

theorem IsNormal.isChain_part {cs l : List Char} (h : IsNormal cs) (hpart : l <:+: cs) :
    l.IsChain fun c d => multiplies c d = false :=
  List.IsChain.infix h.products hpart

/-- Known lexemes without a run of minuses are spelled. -/
theorem Lexes.spells {previous : Option Char} {ts : List (Token Float)} {cs : List Char}
    (h : Lexes floatOfAnyScript? previous ts cs) (hnormal : IsNormal (previous.toList ++ cs))
    (hknown : ∀ t ∈ ts, t.isUnknown = false) (hrun : ¬['-', '-'] <:+: cs) :
    Spells floatOfAnyScript? previous ts cs := by
  induction h with
  | nil previous => exact .nil previous
  | @literal previous l cs ts _ hne hliteral _ _ ih =>
    rw [List.forall_mem_cons] at hknown
    obtain ⟨v, hread, htoken⟩ := Token.exists_number_of_literal hne hliteral hknown.1
    have hproducts := hnormal.isChain_part (l := l) ⟨previous.toList, cs, by simp⟩
    have hspelled := isLiteral_of_read hne hliteral hproducts ⟨v, .inl hread⟩
    rw [htoken]
    exact .literal previous hspelled hread (ih (hnormal.behind hne) hknown.2
      fun hmore => hrun (hmore.trans (List.suffix_append l cs).isInfix))
  | @symbol previous c cs ts hliteral _ _ ih =>
    rw [List.forall_mem_cons] at hknown
    refine .symbol (hnormal.allowed c (by simp)) hliteral (ih
      (hnormal.behind (List.cons_ne_nil c [])) hknown.2
      fun hmore => hrun (hmore.trans (List.suffix_cons c cs).isInfix))
  | @minus previous cs ts _ _ _ ih =>
    rw [List.forall_mem_cons] at hknown
    exact .operator previous .sub (ih (hnormal.behind (List.cons_ne_nil '-' [])) hknown.2
      fun hmore => hrun (hmore.trans (List.suffix_cons '-' cs).isInfix))
  | @signed previous n l cs ts hopens hstart hliteral _ _ ih =>
    obtain ⟨rfl, hlexeme⟩ := eq_zero_of_known hknown
    rw [List.forall_mem_cons] at hlexeme
    have hrest := ih (hnormal.behind (List.cons_ne_nil '-' l)) hlexeme.2
      fun hmore => hrun (hmore.trans (List.suffix_append ('-' :: l) cs).isInfix)
    by_cases hne : l = []
    · subst hne
      exact .operator previous .sub hrest
    · obtain ⟨v, hread, htoken⟩ := Token.exists_number_of_signed hne hlexeme.1
      have hproducts := hnormal.isChain_part (l := l) ⟨previous.toList ++ ['-'], cs, by simp⟩
      have hspelled := isLiteral_of_read hne hliteral hproducts ⟨v, .inr hread⟩
      rw [List.getLast?_cons_of_ne_nil hne] at hrest
      show Spells _ _ (Token.ofText _ ('-' :: l) :: ts) ('-' :: (l ++ cs))
      rw [htoken]
      exact .negative (admitsSign_of_opensLiteral hopens hstart) hspelled hread hrest
  | withdrawn => exact absurd ⟨[], _, rfl⟩ hrun

/-! ## Neighbours that no expression has -/

-- Writing out the products makes no run of minuses.
theorem not_doubleMinus_writeProducts {cs : List Char} (hrun : ¬['-', '-'] <:+: cs) :
    ¬['-', '-'] <:+: writeProducts cs := by
  have hchain : (writeProducts cs).IsChain fun c d => ¬(c = '-' ∧ d = '-') :=
    isChain_writeProducts (fun _ h => nomatch h.2) (fun _ h => nomatch h.1)
      (isChain_iff_forall_pair.mpr fun c d hpair _ hminuses =>
        hrun (by rwa [hminuses.1, hminuses.2] at hpair))
  exact fun hpair => isChain_iff_forall_pair.mp hchain '-' '-' hpair ⟨rfl, rfl⟩

/-! ## Texts with a value -/

theorem Spells.isUnknown_eq_false {previous : Option Char} {ts : List (Token α)} {cs : List Char}
    (h : Spells read previous ts cs) : ∀ t ∈ ts, t.isUnknown = false := by
  induction h with
  | nil => exact List.forall_mem_nil _
  | _ => exact List.forall_mem_cons.mpr ⟨rfl, ‹_›⟩

/-- A text that spells an expression lacks neither an operand nor an operator. -/
theorem Tree.SpelledBy.missing_eq_zero {t : Tree Float} {cs : List Char}
    (h : t.SpelledBy floatOfAnyScript? cs) (hrun : ¬['-', '-'] <:+: compact cs) :
    missingOperands (compact cs) = 0 ∧ missingOperators (compact cs) = 0 := by
  obtain ⟨ts, full, hwrites, hspells, homits⟩ := h
  have halternating := hwrites.alternating
  have hfull : writeProducts (compact cs) = full := by
    rw [← homits.writeProducts_eq.1]
    exact writeProducts_eq_self (hspells.isChain .operand halternating).1
  have hnormal : IsNormal full := ⟨hspells.isAllowed, (hspells.isChain .operand halternating).1⟩
  have hlexes := lexes_tokensBy floatOfAnyScript? full
  rw [hspells.tokensBy_eq halternating] at hlexes
  have hnone := (hlexes.alternatesFrom_iff hnormal hspells.isUnknown_eq_false
    (hfull ▸ not_doubleMinus_writeProducts hrun)).mp halternating
  rw [← missingOperands_writeProducts, ← missingOperators_writeProducts, hfull]
  exact hnone

/-- A text without a run of minuses that has a value lacks as many operands as operators, and it
spells an expression just if no point stands next to a parenthesis that it would have to be
multiplied with. -/
theorem spelledBy_iff_of_evaluate {expr : String} {v : Float} (hvalue : evaluate expr = .ok v)
    (hrun : ¬['-', '-'] <:+: compact expr.toList) :
    missingOperands (compact expr.toList) = missingOperators (compact expr.toList) ∧
      ((∃ t : Tree Float, t.SpelledBy floatOfAnyScript? expr.toList) ↔
        ¬['.', '('] <:+: compact expr.toList ∧ ¬[')', '.'] <:+: compact expr.toList) := by
  have hmissing := missing_of_evaluate hvalue
  refine ⟨hmissing, fun ⟨t, ht⟩ => ?_, fun ⟨hopen, hclose⟩ => ?_⟩
  · obtain ⟨hopen, hclose, -⟩ := missingOperators_eq_zero.mp (ht.missing_eq_zero hrun).2
    exact ⟨hopen, hclose⟩
  · have hoperators := missingOperators_eq_zero.mpr ⟨hopen, hclose, hrun⟩
    have hoperands := hmissing.trans hoperators
    rw [← missingOperands_writeProducts] at hoperands
    rw [← missingOperators_writeProducts] at hoperators
    obtain ⟨hnormal, hcounted⟩ := normal_of_evaluate hvalue
    have hlexes := lexes_tokensBy floatOfAnyScript? (writeProducts (compact expr.toList))
    have hsingle := not_doubleMinus_writeProducts hrun
    have halternating := (hlexes.alternatesFrom_iff hnormal hcounted.known hsingle).mpr
      ⟨hoperands, hoperators⟩
    obtain ⟨t, ht⟩ := (Alternating.isInfix halternating hcounted.closes).exists_tree
    exact ⟨t, _, _, ht, hlexes.spells hnormal hcounted.known hsingle, omits_writeProducts _⟩

/-- A product with a parenthesis, and a point that stands next to none that matters. -/
theorem exists_spelledBy_half :
    (∃ v, evaluate "2(.5)-1" = .ok v) ∧
      ∃ t : Tree Float, t.SpelledBy floatOfAnyScript? "2(.5)-1".toList := by
  obtain ⟨v, hvalue, -⟩ := exists_of_any_toOption (x := evaluate "2(.5)-1") (p := fun v => v == 0)
    (by decide +kernel)
  have hrun : ¬['-', '-'] <:+: compact "2(.5)-1".toList := by decide +kernel
  have hparted : ¬['.', '('] <:+: compact "2(.5)-1".toList ∧
      ¬[')', '.'] <:+: compact "2(.5)-1".toList := by decide +kernel
  exact ⟨⟨v, hvalue⟩, (spelledBy_iff_of_evaluate hvalue hrun).2.mpr hparted⟩

/-- The first minus has no operand on its left and none but the parenthesis on its right, and the
two numbers behind it have no operator between them: what the one lacks, the other has left over. -/
theorem evaluate_minus_in_front_of_group :
    (∃ v, evaluate "-(2).5" = .ok v ∧ (v == 1.5) = true) ∧
      ¬['-', '-'] <:+: compact "-(2).5".toList ∧
      ¬∃ t : Tree Float, t.SpelledBy floatOfAnyScript? "-(2).5".toList := by
  have hrun : ¬['-', '-'] <:+: compact "-(2).5".toList := by decide +kernel
  refine ⟨exists_of_any_toOption (by decide +kernel), hrun, fun ⟨t, ht⟩ => ?_⟩
  exact absurd (ht.missing_eq_zero hrun).1 (by decide +kernel)

end Reckoner.Expr
