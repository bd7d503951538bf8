import Reckoner.Proofs.Expr.Places

/-!
# Balance — as many operands as operators are missing

Nothing asks whether a text is an expression; the evaluation only counts. Each token settles what
was due in front of it and makes something else due behind it, whether or not what was due is there.
So what can be said of every text with a value is that it lacks as many operands as operators.
-/

namespace Reckoner.Expr

variable {α : Type} {read : List Char → Option α}

/-! ## Tokens of lexemes -/

namespace Token

theorem exists_number_of_getD {l : List Char}
    (hknown : ((number? read l).getD (.unknown (String.ofList l))).isUnknown = false) :
    ∃ v, read l = some v ∧
      (number? read l).getD (.unknown (String.ofList l)) = .number (String.ofList l) v := by
  cases hread : read l with
  | none =>
    rw [number?, hread] at hknown
    cases hknown
  | some v => exact ⟨v, rfl, by rw [number?, hread]; rfl⟩

-- A known token of digits and points is a number.
theorem exists_number_of_literal {l : List Char} (hne : l ≠ [])
    (hliteral : ∀ c ∈ l, isLiteralChar c = true)
    (hknown : (Token.ofText read l).isUnknown = false) :
    ∃ v, read l = some v ∧ Token.ofText read l = .number (String.ofList l) v := by
  rw [ofText_of_isLiteralChar hne hliteral] at hknown ⊢
  exact exists_number_of_getD hknown

-- With a minus in front it is a number too.
theorem exists_number_of_signed {l : List Char} (hne : l ≠ [])
    (hknown : (Token.ofText read ('-' :: l)).isUnknown = false) :
    ∃ v, read ('-' :: l) = some v ∧
      Token.ofText read ('-' :: l) = .number (String.ofList ('-' :: l)) v := by
  rw [ofText_minus_cons hne] at hknown ⊢
  exact exists_number_of_getD hknown

end Token

theorem numbers_cons (t : Token α) (ts : List (Token α)) :
    numbers (t :: ts) = numbers ts + t.isNumber.toNat := by
  rw [numbers, List.countP_cons]
  cases t.isNumber <;> rfl

theorem operators_cons (t : Token α) (ts : List (Token α)) :
    operators (t :: ts) = operators ts + t.isOperator.toNat := by
  rw [operators, List.countP_cons]
  cases t.isOperator <;> rfl

-- Among known tokens there are none of a run of minuses.
theorem eq_zero_of_known {n : Nat} {text : String} {ts : List (Token α)}
    (h : ∀ t ∈ List.replicate n (.unknown text) ++ ts, t.isUnknown = false) :
    n = 0 ∧ ∀ t ∈ ts, t.isUnknown = false := by
  refine ⟨?_, fun t ht => h t (List.mem_append_right _ ht)⟩
  by_contra hn
  have hunknown := h (.unknown text) (List.mem_append_left _ (List.mem_replicate.mpr ⟨hn, rfl⟩))
  exact nomatch hunknown

/-! ## What a token takes off a text -/

/-- What is due behind a token. -/
def Token.leaves (t : Token α) : Expects := if t.endsOperand then .operator else .operand

/-- What a known token takes off a text in normal form, and what is missing where it begins. Of the
text `cs` behind `previous` it leaves `rest` behind `next`. -/
inductive Takes (previous next : Option Char) (cs rest : List Char) (t : Token α) : Prop where
  /-- An operand, in front of which an operator is missing if one is due. -/
  | operand : t.startsOperand = true → Expects.behind next = t.leaves →
    places lacksOperand previous cs = places lacksOperand next rest →
    places lacksOperator previous cs =
      (Expects.behind previous).credit + places lacksOperator next rest →
    Takes previous next cs rest t
  /-- An operator or a closing parenthesis, where an operand is missing if one is due. -/
  | operator : t.startsOperand = false → Expects.behind next = t.leaves →
    places lacksOperand previous cs + (Expects.behind previous).credit =
      1 + places lacksOperand next rest →
    places lacksOperator previous cs = places lacksOperator next rest →
    Takes previous next cs rest t
  /-- Two minuses with no literal behind them: the first one is missing, and so is what the second
  one would be the sign of. -/
  | withdrawn : t = .operator .sub → Expects.behind previous = .operator →
    Expects.behind next = .operand → cs = '-' :: '-' :: rest →
    places lacksOperand previous cs = 1 + places lacksOperand next rest →
    places lacksOperator previous cs = 1 + places lacksOperator next rest →
    Takes previous next cs rest t

theorem Takes.symbol {previous : Option Char} {c : Char} {cs : List Char}
    (hnormal : IsNormal (previous.toList ++ c :: cs)) (hliteral : isLiteralChar c = false)
    (hminus : c ≠ '-') : Takes previous (some c) (c :: cs) cs (Token.ofText read [c]) := by
  -- Neither a closing parenthesis nor an operator begins an operand.
  have hcloses (hbegins : beginsOperand (c :: cs) = false) (hgap : ∀ d, isGap d c = false) :
      places lacksOperand previous (c :: cs) + (Expects.behind previous).credit =
          1 + places lacksOperand (some c) cs ∧
        places lacksOperator previous (c :: cs) = places lacksOperator (some c) cs := by
    have hplace := lacksOperand_add_credit previous hbegins
    rw [places, places, lacksOperator_of_forall previous cs fun d _ => hgap d]
    exact ⟨by omega, Nat.zero_add _⟩
  rcases isAllowed_cases (hnormal.allowed c (by simp)) with hc | rfl | rfl | ⟨op, rfl⟩
  · rw [hc] at hliteral
    cases hliteral
  · refine .operand rfl rfl ?_ ?_
    · rw [places, lacksOperand_of_beginsOperand previous rfl]
      exact Nat.zero_add _
    · rw [places, lacksOperator_eq_credit hnormal (.inl rfl)]
  · obtain ⟨hoperands, hoperators⟩ := hcloses rfl fun d => by simp [isGap]
    exact .operator rfl rfl hoperands hoperators
  · have hop : beginsOperand (op.symbol :: cs) = false ∧ (∀ d, isGap d op.symbol = false) ∧
        Expects.behind (some op.symbol) = .operand := by
      cases op with
      | sub => exact absurd rfl hminus
      | _ => exact ⟨rfl, fun d => by simp [isGap, Operator.symbol], rfl⟩
    obtain ⟨hoperands, hoperators⟩ := hcloses hop.1 hop.2.1
    rw [Token.ofText_symbol]
    exact .operator rfl hop.2.2 hoperands hoperators

-- A minus behind an operand.
theorem Takes.minus {previous : Option Char} (cs : List Char)
    (hcloses : opensLiteral previous = false) :
    Takes previous (some '-') ('-' :: cs) cs (.operator (α := α) .sub) := by
  refine .operator rfl rfl ?_ ?_
  · rw [places, lacksOperand, Expects.behind, hcloses]
    show 0 + places lacksOperand (some '-') cs + 1 = 1 + places lacksOperand (some '-') cs
    omega
  · rw [places, lacksOperator_minus (ne_minus_of_opensLiteral hcloses)]
    exact Nat.zero_add _

-- A minus where a literal can begin.
theorem Takes.signed {previous : Option Char} {l cs : List Char}
    (hopens : opensLiteral previous = true) (hstart : previous ≠ some '-')
    (hliteral : ∀ c ∈ l, isLiteralChar c = true) (hends : ∀ c ∈ cs.head?, isLiteralChar c = false)
    (hnormal : IsNormal ('-' :: (l ++ cs)))
    (hknown : (Token.ofText read ('-' :: l)).isUnknown = false) :
    Takes previous ('-' :: l).getLast? ('-' :: (l ++ cs)) cs (Token.ofText read ('-' :: l)) := by
  have hcredit : (Expects.behind previous).credit = 0 := by rw [Expects.behind, hopens]; rfl
  by_cases hne : l = []
  · subst hne
    have hplace := lacksOperand_add_credit previous (beginsOperand_minus hends)
    refine .operator rfl rfl ?_ ?_
    · show places lacksOperand previous ('-' :: cs) + _ = 1 + places lacksOperand (some '-') cs
      rw [places]
      omega
    · show places lacksOperator previous ('-' :: cs) = places lacksOperator (some '-') cs
      rw [places, lacksOperator_minus hstart]
      exact Nat.zero_add _
  · obtain ⟨v, -, htoken⟩ := Token.exists_number_of_signed hne hknown
    obtain ⟨hbegins, hoperands, hoperators⟩ := places_of_signed hnormal hne hliteral
    rw [htoken, List.getLast?_cons_of_ne_nil hne]
    refine .operand rfl (behind_literal hliteral hne) ?_ ?_
    · rw [places, lacksOperand_of_beginsOperand previous hbegins, hoperands]
      exact Nat.zero_add _
    · rw [places, lacksOperator_minus hstart, hoperators, hcredit]
      rfl

-- Two minuses behind an operand.
theorem Takes.doubled {previous : Option Char} {l cs : List Char}
    (hcloses : opensLiteral previous = false)
    (hliteral : ∀ c ∈ l, isLiteralChar c = true) (hends : ∀ c ∈ cs.head?, isLiteralChar c = false)
    (hnormal : IsNormal ('-' :: (l ++ cs)))
    (hknown : (Token.ofText read ('-' :: l)).isUnknown = false) :
    Takes previous ('-' :: l).getLast? ('-' :: '-' :: (l ++ cs)) cs
      (Token.ofText read ('-' :: l)) := by
  have hoperator : Expects.behind previous = .operator := by rw [Expects.behind, hcloses]; rfl
  have hfirst (rest : List Char) : lacksOperand previous rest = false := by
    rw [lacksOperand, hcloses, Bool.false_and]
  have hminus := ne_minus_of_opensLiteral hcloses
  have hgap : lacksOperator (some '-') ('-' :: (l ++ cs)) = true := rfl
  by_cases hne : l = []
  · subst hne
    refine .withdrawn rfl hoperator rfl rfl ?_ ?_
    · have hplace := lacksOperand_add_credit (some '-') (beginsOperand_minus hends)
      change _ + 0 = 1 at hplace
      rw [List.nil_append, places, places, hfirst]
      show 0 + (_ + places lacksOperand (some '-') cs) = 1 + places lacksOperand (some '-') cs
      omega
    · rw [places, places, lacksOperator_minus hminus, hgap]
      exact Nat.zero_add _
  · obtain ⟨v, -, htoken⟩ := Token.exists_number_of_signed hne hknown
    obtain ⟨hbegins, hoperands, hoperators⟩ := places_of_signed hnormal hne hliteral
    rw [htoken, List.getLast?_cons_of_ne_nil hne]
    refine .operand rfl (behind_literal hliteral hne) ?_ ?_
    · rw [places, places, hfirst, lacksOperand_of_beginsOperand _ hbegins, hoperands]
      simp only [Bool.toNat_false, Nat.zero_add]
    · rw [places, places, lacksOperator_minus hminus, hgap, hoperators, hoperator]
      exact Nat.zero_add _

theorem Lexes.exists_takes {previous : Option Char} {t : Token α} {ts : List (Token α)}
    {cs : List Char} (h : Lexes read previous (t :: ts) cs)
    (hnormal : IsNormal (previous.toList ++ cs)) (hknown : ∀ u ∈ t :: ts, u.isUnknown = false) :
    ∃ next rest, Takes previous next cs rest t ∧ Lexes read next ts rest ∧
      IsNormal (next.toList ++ rest) ∧ rest <:+ cs := by
  generalize hus : t :: ts = us at h hknown
  cases h with
  | nil => exact nomatch hus
  | @literal _ l rest _ hstart hne hliteral hends hrest =>
    cases hus
    rw [List.forall_mem_cons] at hknown
    obtain ⟨v, -, htoken⟩ := Token.exists_number_of_literal hne hliteral hknown.1
    obtain ⟨hoperands, hoperators⟩ := places_of_literal hnormal hstart hne hliteral
    refine ⟨l.getLast?, rest, ?_, hrest, hnormal.behind hne, List.suffix_append l rest⟩
    rw [htoken]
    exact .operand rfl (behind_literal hliteral hne) hoperands hoperators
  | @symbol _ c rest _ hliteral hminus hrest =>
    cases hus
    exact ⟨some c, rest, .symbol hnormal hliteral hminus, hrest,
      hnormal.behind (List.cons_ne_nil c []), List.suffix_cons c rest⟩
  | @minus _ rest _ hcloses _ hrest =>
    cases hus
    exact ⟨some '-', rest, .minus rest hcloses, hrest,
      hnormal.behind (List.cons_ne_nil '-' []), List.suffix_cons '-' rest⟩
  | @signed _ n l rest _ hopens hstart hliteral hends hrest =>
    obtain ⟨rfl, hlexeme⟩ := eq_zero_of_known hknown
    cases hus
    refine ⟨_, rest, ?_, hrest, hnormal.behind (List.cons_ne_nil '-' l),
      List.suffix_append ('-' :: l) rest⟩
    exact .signed hopens hstart hliteral (fun c hc => (hends c hc).1)
      (hnormal.suffix (List.suffix_append _ _)) (hlexeme _ List.mem_cons_self)
  | @withdrawn _ n l rest _ hcloses hliteral hends hrest =>
    obtain ⟨rfl, hlexeme⟩ := eq_zero_of_known hknown
    cases hus
    have hsecond : IsNormal ((some '-').toList ++ ('-' :: l ++ rest)) :=
      hnormal.suffix (List.suffix_append _ _)
    refine ⟨_, rest, ?_, hrest, hsecond.behind (List.cons_ne_nil '-' l),
      List.suffix_append ('-' :: '-' :: l) rest⟩
    exact .doubled hcloses hliteral (fun c hc => (hends c hc).1)
      (hsecond.suffix (List.suffix_append _ _)) (hlexeme _ List.mem_cons_self)

theorem Lexes.eq_nil {previous : Option Char} {cs : List Char}
    (h : Lexes read previous ([] : List (Token α)) cs) : cs = [] := by
  generalize hus : ([] : List (Token α)) = us at h
  cases h with
  | nil => rfl
  | signed n => cases n <;> exact nomatch hus
  | withdrawn n => cases n <;> exact nomatch hus
  | _ => exact nomatch hus

/-! ## One token and all of them -/

theorem Token.count_of_operand {t : Token α} (h : t.startsOperand = true) :
    t.isNumber.toNat = t.isOperator.toNat + t.leaves.credit := by
  cases t with
  | number | leftParen => rfl
  | _ => exact nomatch h

theorem Token.count_of_operator {t : Token α} (h : t.startsOperand = false)
    (hknown : t.isUnknown = false) :
    t.isNumber.toNat + 1 = t.isOperator.toNat + t.leaves.credit := by
  cases t with
  | number | leftParen => exact nomatch h
  | rightParen | operator => rfl
  | unknown => exact nomatch hknown

-- One token keeps the balance: a number settles what was due, an operator makes an operand due.
theorem Takes.balance {previous next : Option Char} {cs rest : List Char} {t : Token α}
    (h : Takes previous next cs rest t) (hknown : t.isUnknown = false) :
    t.isNumber.toNat + (Expects.behind previous).credit + places lacksOperand previous cs +
        places lacksOperator next rest =
      t.isOperator.toNat + (Expects.behind next).credit + places lacksOperand next rest +
        places lacksOperator previous cs := by
  cases h with
  | operand hstarts hnext hoperands hoperators =>
    have hcount := Token.count_of_operand hstarts
    rw [hnext]
    omega
  | operator hstarts hnext hoperands hoperators =>
    have hcount := Token.count_of_operator hstarts hknown
    rw [hnext]
    omega
  | withdrawn ht hprevious hnext _ hoperands hoperators =>
    rw [ht, hprevious, hnext, hoperands, hoperators]
    show 0 + 1 + _ + _ = 1 + 0 + _ + _
    omega

/-- The numbers and operators of a text, and those that are missing. -/
theorem Lexes.balance {previous : Option Char} {ts : List (Token α)} {cs : List Char}
    (h : Lexes read previous ts cs) (hnormal : IsNormal (previous.toList ++ cs))
    (hknown : ∀ t ∈ ts, t.isUnknown = false) :
    numbers ts + (Expects.behind previous).credit + places lacksOperand previous cs =
      operators ts + 1 + places lacksOperator previous cs := by
  induction ts generalizing previous cs with
  | nil =>
    obtain rfl := h.eq_nil
    have hend := lacksOperand_add_credit previous (show beginsOperand [] = false from rfl)
    have hnone : lacksOperator previous [] = false := by cases previous <;> rfl
    simp only [places, numbers, operators, List.countP_nil, hnone, Bool.toNat_false]
    omega
  | cons t ts ih =>
    obtain ⟨next, rest, htakes, hlexes, hrest, -⟩ := h.exists_takes hnormal hknown
    have hlater := ih hlexes hrest fun u hu => hknown u (List.mem_cons_of_mem t hu)
    have hstep := htakes.balance (hknown t List.mem_cons_self)
    rw [numbers_cons, operators_cons]
    omega

/-! ## Operands and operators in turn -/

theorem alternatesFrom_cons (q : Expects) {t : Token α} (hknown : t.isUnknown = false)
    (ts : List (Token α)) :
    alternatesFrom q (t :: ts) = true ↔
      (q = .operand ↔ t.startsOperand = true) ∧ alternatesFrom t.leaves ts = true := by
  cases t with
  | unknown => exact nomatch hknown
  | _ => cases q <;> simp [alternatesFrom, Token.startsOperand, Token.leaves, Token.endsOperand]

-- A token other than that of a run stands in its turn just if nothing is missing where it begins.
theorem Takes.alternatesFrom_iff {previous next : Option Char} {cs rest : List Char} {t : Token α}
    {ts : List (Token α)} (h : Takes previous next cs rest t) (hknown : t.isUnknown = false)
    (hrun : ¬['-', '-'] <:+: cs)
    (hlater : alternatesFrom (Expects.behind next) ts = true ↔
      places lacksOperand next rest = 0 ∧ places lacksOperator next rest = 0) :
    alternatesFrom (Expects.behind previous) (t :: ts) = true ↔
      places lacksOperand previous cs = 0 ∧ places lacksOperator previous cs = 0 := by
  have hdue := (Expects.behind previous).eq_operand_iff
  rw [alternatesFrom_cons _ hknown]
  cases h with
  | withdrawn _ _ _ hcs _ _ => exact absurd ⟨[], rest, by rw [hcs]; rfl⟩ hrun
  | operand hstarts hnext hoperands hoperators =>
    rw [hnext] at hlater
    rw [iff_true_right hstarts, hdue, hlater]
    omega
  | operator hstarts hnext hoperands hoperators =>
    rw [hnext] at hlater
    have hle := (Expects.behind previous).credit_le
    rw [iff_false_right (Bool.eq_false_iff.mp hstarts), hdue, hlater]
    omega

/-- Without a run of minuses, operands and operators take turns just if none is missing. -/
theorem Lexes.alternatesFrom_iff {previous : Option Char} {ts : List (Token α)} {cs : List Char}
    (h : Lexes read previous ts cs) (hnormal : IsNormal (previous.toList ++ cs))
    (hknown : ∀ t ∈ ts, t.isUnknown = false) (hrun : ¬['-', '-'] <:+: cs) :
    alternatesFrom (Expects.behind previous) ts = true ↔
      places lacksOperand previous cs = 0 ∧ places lacksOperator previous cs = 0 := by
  induction ts generalizing previous cs with
  | nil =>
    obtain rfl := h.eq_nil
    have hnone : lacksOperator previous [] = false := by cases previous <;> rfl
    rw [places, places, hnone, lacksOperand, Expects.behind]
    cases opensLiteral previous <;> simp [Expr.alternatesFrom, beginsOperand]
  | cons t ts ih =>
    obtain ⟨next, rest, htakes, hlexes, hrest, hsuffix⟩ := h.exists_takes hnormal hknown
    have hlater := ih hlexes hrest (fun u hu => hknown u (List.mem_cons_of_mem t hu))
      fun hmore => hrun (hmore.trans hsuffix.isInfix)
    exact htakes.alternatesFrom_iff (hknown t List.mem_cons_self) hrun hlater

/-! ## Expressions with a value -/

-- A value that computes to one of a kind.
theorem exists_of_any_toOption {ε β : Type} {x : Except ε β} {p : β → Bool}
    (h : x.toOption.any p = true) : ∃ v, x = .ok v ∧ p v = true := by
  cases x with
  | error e => exact nomatch h
  | ok v => exact ⟨v, rfl, h⟩

-- A failure that computes to the one expected.
theorem eq_error_of_matches {ε β : Type} [DecidableEq ε] {x : Except ε β} {e : ε}
    (h : (match x with | .error e' => decide (e' = e) | .ok _ => false) = true) :
    x = .error e := by
  cases x with
  | error e' => rw [of_decide_eq_true h]
  | ok v => exact nomatch h

/-- What is known of an expression that has a value: its normal form, and the tokens of it. -/
theorem normal_of_evaluate {expr : String} {v : Float} (h : evaluate expr = .ok v) :
    IsNormal (writeProducts (compact expr.toList)) ∧
      WellCounted (tokens (writeProducts (compact expr.toList))) := by
  rw [evaluate, normalForm] at h
  by_cases hall : (writeProducts (compact expr.toList)).all isAllowed = true
  · simp only [if_pos hall] at h
    exact ⟨⟨List.all_eq_true.mp hall, multiplies_writeProducts _⟩, wellCounted_of_evaluateTokens h⟩
  · simp only [if_neg hall] at h
    cases h

/-- An expression with a value lacks as many operands as operators. -/
theorem missing_of_evaluate {expr : String} {v : Float} (h : evaluate expr = .ok v) :
    missingOperands (compact expr.toList) = missingOperators (compact expr.toList) := by
  obtain ⟨hnormal, hcounted⟩ := normal_of_evaluate h
  have hlexes := lexes_tokensBy Number.floatOfAnyScript? (writeProducts (compact expr.toList))
  have hbalance := hlexes.balance hnormal hcounted.known
  have hcount := hcounted.count
  change numbers _ + 0 + missingOperands _ = _ + missingOperators _ at hbalance
  rw [missingOperands_writeProducts, missingOperators_writeProducts] at hbalance
  rw [tokens] at hcount
  omega

end Reckoner.Expr
