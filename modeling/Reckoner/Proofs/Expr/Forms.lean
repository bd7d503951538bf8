import Reckoner.Proofs.Expr.Canonical
import Reckoner.Proofs.Expr.Recognition
import Reckoner.Proofs.Expr.Runs
import Reckoner.Proofs.Number.Correct

/-!
# Forms — what the tokens of a normal form can be

In a normal form digits stand alone, so a run of digits and points is a literal unless it has no
digit or more than one point. Each run becomes one token: a number, which is the double nearest to
the literal, or an unknown one. What else is unknown is a minus out of a run of minuses.
-/

namespace Reckoner.Expr

open Number

variable {α : Type} {read : List Char → Option α}

/-! ## Literals and what is none -/

/-- Digits and points that are no literal: there is no digit, or there are two points. -/
structure IsMalformed (l : List Char) : Prop where
  ne_nil : l ≠ []
  literal : ∀ c ∈ l, isLiteralChar c = true
  excess : (∀ c ∈ l, c.isDigit = false) ∨ 2 ≤ l.count '.'

theorem IsLiteral.not_isMalformed {l : List Char} (h : IsLiteral l) : ¬IsMalformed l := by
  have hne {d : Char} (hd : d.isDigit = true) : d ≠ '.' := by
    rintro rfl
    exact absurd hd (by decide)
  rintro ⟨-, -, hdigits | hpoints⟩
  · cases h <;> simp_all
  · cases h <;> simp_all

/-- In a normal form, digits and points are a literal or malformed. -/
theorem isLiteral_or_isMalformed {l : List Char} (hne : l ≠ [])
    (hliteral : ∀ c ∈ l, isLiteralChar c = true)
    (hproducts : l.IsChain fun c d => multiplies c d = false) : IsLiteral l ∨ IsMalformed l := by
  by_cases hdigits : ∀ c ∈ l, c.isDigit = false
  · exact .inr ⟨hne, hliteral, .inl hdigits⟩
  by_cases hpoints : 2 ≤ l.count '.'
  · exact .inr ⟨hne, hliteral, .inr hpoints⟩
  left
  have hwhole : ∀ c ∈ l.takeWhile Char.isDigit, c.isDigit = true :=
    List.all_eq_true.mp List.all_takeWhile
  have hfew {part : List Char} (hpart : part <:+: l) (hall : ∀ c ∈ part, c.isDigit = true) :=
    have hchain := List.IsChain.infix hproducts hpart
    eq_nil_or_singleton hall hchain
  have hsplit := List.takeWhile_append_dropWhile (p := Char.isDigit) (l := l)
  rcases dropWhile_isDigit_cases hliteral with hafter | ⟨rest, hafter⟩
  · rw [hafter, List.append_nil] at hsplit
    rw [hsplit] at hwhole
    rcases hfew List.infix_rfl hwhole with rfl | ⟨d, rfl⟩
    · exact absurd rfl hne
    · exact .whole (hwhole d List.mem_cons_self)
  · -- Behind the point there is no other one.
    have hfraction : ∀ c ∈ rest, c.isDigit = true := by
      intro c hc
      have hcount : rest.count '.' = 0 := by
        rw [← hsplit, hafter, List.count_append, List.count_cons_self] at hpoints
        omega
      have hpoint : c ≠ '.' := by
        rintro rfl
        exact List.count_eq_zero.mp hcount hc
      have hmem : c ∈ l := by
        rw [← hsplit, hafter]
        exact List.mem_append_right _ (List.mem_cons_of_mem _ hc)
      simpa [isLiteralChar, hpoint] using hliteral c hmem
    rw [hafter] at hsplit
    rw [← hsplit]
    refine isLiteral_of_point (fun hnone => hdigits ?_)
      (List.forall_mem_append.mpr ⟨hwhole, hfraction⟩)
      (hfew (List.takeWhile_prefix _).isInfix hwhole) (hfew ?_ hfraction)
    · rw [List.append_eq_nil_iff] at hnone
      rw [← hsplit, hnone.1, hnone.2]
      exact List.forall_mem_singleton.mpr rfl
    · exact ⟨l.takeWhile Char.isDigit ++ ['.'], [], by simpa using hsplit⟩

/-! ## The values of literals -/

/-- What holds of the literals with the ten digits holds of every literal. -/
theorem IsLiteral.of_digits {motive : List Char → Prop} {l : List Char} (h : IsLiteral l)
    (hdigits : ∀ n < 10, motive [Char.ofNat (n + 48)] ∧ motive [Char.ofNat (n + 48), '.'] ∧
      motive ['.', Char.ofNat (n + 48)] ∧
        ∀ m < 10, motive [Char.ofNat (n + 48), '.', Char.ofNat (m + 48)]) : motive l := by
  cases h with
  | whole hd =>
    exact forall_of_isDigit (motive := fun d => motive [d]) (fun n hn => (hdigits n hn).1) hd
  | wholePoint hd =>
    exact forall_of_isDigit (motive := fun d => motive [d, '.']) (fun n hn => (hdigits n hn).2.1) hd
  | fraction hd =>
    exact forall_of_isDigit (motive := fun d => motive ['.', d])
      (fun n hn => (hdigits n hn).2.2.1) hd
  | wholeFraction hd he =>
    refine forall_of_isDigit (motive := fun d => motive [d, '.', _]) (fun n hn => ?_) hd
    exact forall_of_isDigit (motive := fun e => motive [Char.ofNat (n + 48), '.', e])
      (hdigits n hn).2.2.2 he

theorem literalValue_le (negative : Bool) {l : List Char} (h : IsLiteral l) :
    (literalValue negative l).abs ≤ 9.9 := by
  refine h.of_digits (motive := fun l => (literalValue negative l).abs ≤ 9.9) ?_
  cases negative <;> decide +kernel

theorem isNearest_literalValue (negative : Bool) {l : List Char} (h : IsLiteral l) :
    Binary64.IsNearest negative (literalDecimal l).toRat (literalValue negative l) := by
  obtain ⟨hdigits, hplaces⟩ : (literalDecimal l).digits < 100 ∧ (literalDecimal l).exponent ≤ 0 :=
    h.of_digits (motive := fun l =>
      (literalDecimal l).digits < 100 ∧ (literalDecimal l).exponent ≤ 0) (by decide +kernel)
  refine Decimal.isNearest_toFloat negative ?_
  have hlimit : ((literalDecimal l).digits : ℚ) < 2 ^ (1023 : Int) := by
    have hcast : ((literalDecimal l).digits : ℚ) < 100 := by exact_mod_cast hdigits
    calc ((literalDecimal l).digits : ℚ) < 2 ^ (7 : Int) := hcast.trans (by norm_num)
      _ ≤ 2 ^ (1023 : Int) := zpow_le_zpow_right₀ (by norm_num) (by norm_num)
  have hpower : (10 : ℚ) ^ (literalDecimal l).exponent ≤ 1 :=
    zpow_le_one_of_nonpos₀ (by norm_num) hplaces
  calc (literalDecimal l).toRat ≤ (literalDecimal l).digits * 1 :=
      mul_le_mul_of_nonneg_left hpower (Nat.cast_nonneg _)
    _ < 2 ^ (1023 : Int) := by rwa [mul_one]

/-- The characters of a literal with or without a minus. -/
def withSign (negative : Bool) (l : List Char) : List Char := if negative then '-' :: l else l

theorem floatOfAnyScript?_withSign (negative : Bool) {l : List Char} (hne : l ≠ [])
    (hliteral : ∀ c ∈ l, isLiteralChar c = true) :
    floatOfAnyScript? (withSign negative l) = (decimal? l).map (Decimal.toFloat negative) := by
  cases negative
  · exact floatOfAnyScript?_of_isLiteralChar hne hliteral
  · exact floatOfAnyScript?_signed hne hliteral

theorem Token.ofText_withSign (negative : Bool) {l : List Char} (hne : l ≠ [])
    (hliteral : ∀ c ∈ l, isLiteralChar c = true) :
    ofText read (withSign negative l) = (number? read (withSign negative l)).getD
      (.unknown (String.ofList (withSign negative l))) := by
  cases negative
  · exact ofText_of_isLiteralChar hne hliteral
  · exact ofText_minus_cons hne

/-! ## Tokens -/

/-- What a token of a normal form can be. A minus alone is no malformed literal, as that has digits
or points. -/
inductive Token.InNormalForm : Token Float → Prop where
  | operator (op : Operator) : InNormalForm (.operator op)
  | leftParen : InNormalForm .leftParen
  | rightParen : InNormalForm .rightParen
  /-- A literal and the double nearest to it, which is finite and not above `9.9`. -/
  | number (negative : Bool) {l : List Char} {x : Float} : IsLiteral l →
    Binary64.IsNearest negative (literalDecimal l).toRat x → x.abs ≤ 9.9 →
      InNormalForm (.number (String.ofList (withSign negative l)) x)
  | minus : InNormalForm (.unknown "-")
  | malformed (negative : Bool) {l : List Char} : IsMalformed l →
    InNormalForm (.unknown (String.ofList (withSign negative l)))

theorem Token.InNormalForm.literal (negative : Bool) {l : List Char} (hne : l ≠ [])
    (hliteral : ∀ c ∈ l, isLiteralChar c = true)
    (hproducts : l.IsChain fun c d => multiplies c d = false) :
    (ofText floatOfAnyScript? (withSign negative l)).InNormalForm := by
  rw [ofText_withSign negative hne hliteral, number?,
    floatOfAnyScript?_withSign negative hne hliteral]
  rcases isLiteral_or_isMalformed hne hliteral hproducts with h | h
  · rw [decimal?_literal h]
    exact .number negative h (isNearest_literalValue negative h) (literalValue_le negative h)
  · have hnone : decimal? l = none := by
      cases hdecimal : decimal? l with
      | none => rfl
      | some x => exact absurd h (isLiteral_of_decimal? hdecimal hliteral hproducts).not_isMalformed
    rw [hnone]
    exact .malformed negative h

theorem Token.InNormalForm.symbol {c : Char} (hallowed : isAllowed c = true)
    (hliteral : isLiteralChar c = false) : (ofText floatOfAnyScript? [c]).InNormalForm := by
  rcases isAllowed_cases hallowed with hc | rfl | rfl | ⟨op, rfl⟩
  · exact nomatch hc.symm.trans hliteral
  · exact .leftParen
  · exact .rightParen
  · rw [ofText_symbol]
    exact .operator op

-- A literal with minuses in front of it, or only these.
theorem inNormalForm_minuses (n : Nat) {l cs : List Char} {ts : List (Token Float)}
    (hliteral : ∀ c ∈ l, isLiteralChar c = true) (hnormal : IsNormal ('-' :: (l ++ cs)))
    (hts : ∀ t ∈ ts, t.InNormalForm) :
    ∀ t ∈ List.replicate n (.unknown "-") ++ Token.ofText floatOfAnyScript? ('-' :: l) :: ts,
      t.InNormalForm := by
  refine List.forall_mem_append.mpr ⟨fun t ht => ?_, List.forall_mem_cons.mpr ⟨?_, hts⟩⟩
  · rw [List.eq_of_mem_replicate ht]
    exact .minus
  · by_cases hne : l = []
    · subst hne
      exact .operator .sub
    · exact .literal true hne hliteral (hnormal.isChain_part ⟨['-'], cs, rfl⟩)

/-- The tokens of a text whose products are written out. -/
theorem Lexes.inNormalForm {previous : Option Char} {ts : List (Token Float)} {cs : List Char}
    (h : Lexes floatOfAnyScript? previous ts cs) (hnormal : IsNormal (previous.toList ++ cs)) :
    ∀ t ∈ ts, t.InNormalForm := by
  induction h with
  | nil => exact List.forall_mem_nil _
  | @literal previous l cs ts _ hne hliteral _ _ ih =>
    have hproducts := hnormal.isChain_part (l := l) ⟨previous.toList, cs, by simp⟩
    exact List.forall_mem_cons.mpr ⟨.literal false hne hliteral hproducts,
      ih (hnormal.behind hne)⟩
  | @symbol previous c cs ts hliteral _ _ ih =>
    exact List.forall_mem_cons.mpr ⟨.symbol (hnormal.allowed c (by simp)) hliteral,
      ih (hnormal.behind (List.cons_ne_nil c []))⟩
  | @minus previous cs ts _ _ _ ih =>
    exact List.forall_mem_cons.mpr ⟨.operator .sub, ih (hnormal.behind (List.cons_ne_nil '-' []))⟩
  | @signed previous n l cs ts _ _ hliteral _ _ ih =>
    obtain ⟨hend, hrest⟩ := hnormal.behind_minuses n
    exact inNormalForm_minuses n hliteral hend (ih hrest)
  | @withdrawn previous n l cs ts _ hliteral _ _ ih =>
    obtain ⟨hend, hrest⟩ := hnormal.behind_minuses (n + 1)
    exact inNormalForm_minuses n hliteral hend (ih hrest)

/-! ## Minuses alone -/

theorem Token.ofText_ne_minus (cs : List Char) : ofText read cs ≠ .unknown "-" := by
  intro h
  have htext : (ofText read cs).text.toList = cs := Token.toList_text_ofText cs
  rw [h] at htext
  obtain rfl : cs = ['-'] := htext.symm.trans (show "-".toList = ['-'] by decide)
  exact nomatch (rfl : ofText read ['-'] = .operator .sub).symm.trans h

theorem suffix_of_ofText_cons {cs : List Char} {ts us : List (Token α)}
    (h : .unknown "-" :: us <:+ Token.ofText read cs :: ts) : .unknown "-" :: us <:+ ts :=
  (List.suffix_cons_iff.mp h).resolve_left fun heq =>
    Token.ofText_ne_minus cs (List.cons.inj heq).1.symm

theorem head?_charactersOf_minuses {n : Nat} {l : List Char} {ts us : List (Token α)}
    (hrest : .unknown "-" :: us <:+ ts → (charactersOf us).head? = some '-')
    (h : .unknown "-" :: us <:+
      List.replicate n (.unknown "-") ++ Token.ofText read ('-' :: l) :: ts) :
    (charactersOf us).head? = some '-' := by
  induction n with
  | zero => exact hrest (suffix_of_ofText_cons h)
  | succ n ih =>
    rw [List.replicate_succ, List.cons_append] at h
    rcases List.suffix_cons_iff.mp h with heq | hmore
    · rw [(List.cons.inj heq).2, charactersOf_minuses]
      rfl
    · exact ih hmore

-- Behind a minus that is unknown there is another one.
theorem Lexes.head?_charactersOf {previous : Option Char} {ts us : List (Token α)} {cs : List Char}
    (h : Lexes read previous ts cs) (hus : .unknown "-" :: us <:+ ts) :
    (charactersOf us).head? = some '-' := by
  induction h with
  | nil => exact nomatch List.suffix_nil.mp hus
  | literal _ _ _ _ _ ih => exact ih (suffix_of_ofText_cons hus)
  | symbol _ _ _ _ ih => exact ih (suffix_of_ofText_cons hus)
  | minus _ _ _ ih =>
    exact ih ((List.suffix_cons_iff.mp hus).resolve_left fun heq => nomatch (List.cons.inj heq).1)
  | signed _ _ _ _ _ _ ih => exact head?_charactersOf_minuses ih hus
  | withdrawn _ _ _ _ _ ih => exact head?_charactersOf_minuses ih hus

/-! ## Runs of digits and points -/

/-- The digits and points of a number or of an unknown token other than a minus. -/
def Token.literal? : Token α → Option (List Char)
  | .number text _ => some (text.toList.filter isLiteralChar)
  | .unknown text => if text = "-" then none else some (text.toList.filter isLiteralChar)
  | _ => none

/-- The runs of digits and points of a text, each as long as it can be. -/
def literalRuns (cs : List Char) : List (List Char) :=
  (cs.splitOnP (!isLiteralChar ·)).filter (!·.isEmpty)

-- Everything follows from this one equation.
theorem literalRuns_append_cons (front : List Char) {c : Char} (hc : isLiteralChar c = false)
    (back : List Char) :
    literalRuns (front ++ c :: back) = literalRuns front ++ literalRuns back := by
  rw [literalRuns, List.splitOnP_append_cons _ _ (by rw [hc]; rfl), List.filter_append]
  rfl

theorem literalRuns_cons {c : Char} (hc : isLiteralChar c = false) (cs : List Char) :
    literalRuns (c :: cs) = literalRuns cs := literalRuns_append_cons [] hc cs

theorem literalRuns_append (front : List Char) {back : List Char}
    (hends : ∀ c ∈ back.head?, isLiteralChar c = false) :
    literalRuns (front ++ back) = literalRuns front ++ literalRuns back := by
  cases back with
  | nil => rw [List.append_nil]; exact (List.append_nil _).symm
  | cons c back => rw [literalRuns_append_cons front (hends c rfl), literalRuns_cons (hends c rfl)]

theorem literalRuns_of_isLiteralChar {l : List Char} (hne : l ≠ [])
    (hliteral : ∀ c ∈ l, isLiteralChar c = true) : literalRuns l = [l] := by
  have hsplit : l.splitOnP (!isLiteralChar ·) = [l] :=
    List.splitOnP_eq_singleton fun c hc => by rw [hliteral c hc]; rfl
  rw [literalRuns, hsplit]
  cases l with
  | nil => exact absurd rfl hne
  | cons => rfl

theorem literalRuns_minuses (n : Nat) (cs : List Char) :
    literalRuns (List.replicate n '-' ++ cs) = literalRuns cs := by
  induction n with
  | zero => rfl
  | succ n ih => rw [List.replicate_succ, List.cons_append, literalRuns_cons rfl, ih]

theorem Token.literal?_ofText (negative : Bool) {l : List Char} (hne : l ≠ [])
    (hliteral : ∀ c ∈ l, isLiteralChar c = true) :
    (ofText read (withSign negative l)).literal? = some l := by
  have hfilter : (withSign negative l).filter isLiteralChar = l := by
    cases negative
    · exact List.filter_eq_self.mpr hliteral
    · exact List.filter_eq_self.mpr hliteral
  have hminus : String.ofList (withSign negative l) ≠ "-" := by
    intro heq
    rw [← String.toList_inj, String.toList_ofList] at heq
    rw [heq] at hfilter
    exact hne hfilter.symm
  rw [ofText_withSign negative hne hliteral, number?]
  cases read (withSign negative l) with
  | none =>
    show (if _ then _ else _) = _
    rw [if_neg hminus, String.toList_ofList, hfilter]
  | some v =>
    show some _ = _
    rw [String.toList_ofList, hfilter]

theorem Token.literal?_symbol {c : Char} (hallowed : isAllowed c = true)
    (hliteral : isLiteralChar c = false) : (ofText read [c]).literal? = none := by
  rcases isAllowed_cases hallowed with hc | rfl | rfl | ⟨op, rfl⟩
  · exact nomatch hc.symm.trans hliteral
  · rfl
  · rfl
  · rw [ofText_symbol]
    rfl

theorem filterMap_literal?_minuses (n : Nat) {l : List Char} {ts : List (Token α)}
    (hliteral : ∀ c ∈ l, isLiteralChar c = true) :
    (List.replicate n (Token.unknown "-") ++ Token.ofText read ('-' :: l) :: ts).filterMap
        Token.literal? = literalRuns l ++ ts.filterMap Token.literal? := by
  induction n with
  | succ n ih => exact ih
  | zero =>
    by_cases hne : l = []
    · subst hne
      rfl
    · rw [literalRuns_of_isLiteralChar hne hliteral]
      exact List.filterMap_cons_some (Token.literal?_ofText true hne hliteral)

/-- The tokens with digits or points have the runs of the text, in order. -/
theorem Lexes.filterMap_literal? {previous : Option Char} {ts : List (Token α)} {cs : List Char}
    (h : Lexes read previous ts cs) (hallowed : ∀ c ∈ cs, isAllowed c = true) :
    ts.filterMap Token.literal? = literalRuns cs := by
  have hbehind (front : List Char) {cs : List Char} (h : ∀ c ∈ front ++ cs, isAllowed c = true) :
      ∀ c ∈ cs, isAllowed c = true := fun c hc => h c (List.mem_append_right front hc)
  induction h with
  | nil => rfl
  | @literal _ l _ _ _ hne hliteral hends _ ih =>
    rw [literalRuns_append _ hends, literalRuns_of_isLiteralChar hne hliteral,
      ← ih (hbehind l hallowed)]
    exact List.filterMap_cons_some (Token.literal?_ofText false hne hliteral)
  | symbol _ hliteral _ _ ih =>
    rw [List.forall_mem_cons] at hallowed
    rw [literalRuns_cons hliteral, List.filterMap_cons_none
      (Token.literal?_symbol hallowed.1 hliteral), ih hallowed.2]
  | minus _ _ _ ih =>
    rw [List.forall_mem_cons] at hallowed
    rw [literalRuns_cons rfl, List.filterMap_cons_none rfl, ih hallowed.2]
  | @signed _ n l cs _ _ _ hliteral hends _ ih =>
    have hrest := ih (hbehind l (hbehind _ (hbehind ['-'] hallowed)))
    rw [filterMap_literal?_minuses n hliteral, hrest, literalRuns_cons rfl, literalRuns_minuses,
      literalRuns_append l fun c hc => (hends c hc).1]
  | @withdrawn _ n l cs _ _ hliteral hends _ ih =>
    have hrest := ih (hbehind l (hbehind _ (hbehind ['-', '-'] hallowed)))
    rw [filterMap_literal?_minuses n hliteral, hrest, literalRuns_cons rfl, literalRuns_cons rfl,
      literalRuns_minuses, literalRuns_append l fun c hc => (hends c hc).1]

/-! ## The tokens of a normal form -/

/-- Each token of a normal form is an operator, a parenthesis, a literal with the double nearest to
it, or unknown: a minus with another one behind it, or digits and points that are no literal. The
runs of digits and points are those of the numbers and of the unknown tokens other than minuses. -/
theorem inNormalForm_tokens {expr n : List Char} (h : normalForm expr = .ok n) :
    (∀ t ∈ tokens n, t.InNormalForm) ∧
      (∀ us, .unknown "-" :: us <:+ tokens n →
        (charactersOf us).head? = some '-' ∧ ['-', '-'] <:+: n) ∧
      (tokens n).filterMap Token.literal? = literalRuns n := by
  have hlexes : Lexes floatOfAnyScript? none (tokens n) n := lexes_tokensBy floatOfAnyScript? n
  have hnormal := isNormal_normalForm h
  refine ⟨hlexes.inNormalForm hnormal, fun us hus => ?_, hlexes.filterMap_literal? hnormal.allowed⟩
  have hnext := hlexes.head?_charactersOf hus
  refine ⟨hnext, ?_⟩
  -- Without a run the text would be what its tokens are.
  by_contra hrun
  have htext := hlexes.charactersOf_eq
  rw [shortenRuns_eq_self hrun] at htext
  obtain ⟨rest, hrest⟩ := List.head?_eq_some_iff.mp hnext
  obtain ⟨front, hfront⟩ := hus
  refine hrun ⟨charactersOf front, rest, ?_⟩
  rw [← htext, ← hfront, charactersOf_append, charactersOf_cons, hrest]
  simp [Token.text]

/-- A run of three minuses behind a literal, with a literal that has a point but no digit. -/
theorem inNormalForm_tokens_minuses :
    normalForm "2(3)---4.5/.".toList = .ok "2*(3)---4.5/.".toList ∧
      (∀ t ∈ tokens "2*(3)---4.5/.".toList, t.InNormalForm) ∧
      (tokens "2*(3)---4.5/.".toList).filterMap Token.literal? =
        ["2".toList, "3".toList, "4.5".toList, ".".toList] := by
  have hnormal : normalForm "2(3)---4.5/.".toList = .ok "2*(3)---4.5/.".toList := by
    decide +kernel
  have hruns : literalRuns "2*(3)---4.5/.".toList =
      ["2".toList, "3".toList, "4.5".toList, ".".toList] := by decide +kernel
  obtain ⟨hforms, -, hliterals⟩ := inNormalForm_tokens hnormal
  exact ⟨hnormal, hforms, hliterals.trans hruns⟩

end Reckoner.Expr
