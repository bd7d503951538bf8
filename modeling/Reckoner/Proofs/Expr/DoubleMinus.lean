import Reckoner.Proofs.Expr.Balance

/-!
# DoubleMinus — what two minuses in a row do

Minuses are not chained, but nothing refuses them as such. Behind anything but an operand the first
of two becomes an unknown token. Behind an operand it is withdrawn, so that an operator is missing;
where the second one is an operator again, the two of them are one.
-/

namespace Reckoner.Expr

variable {α : Type} {read : List Char → Option α}

/-! ## Runs where a literal can begin -/

/-- The text begins with two minuses, where a literal can begin. -/
def startsRun (previous : Option Char) : List Char → Bool
  | '-' :: '-' :: _ => opensLiteral previous
  | _ => false

theorem startsRun_eq_false (previous : Option Char) {c : Char} {cs : List Char}
    (h : c = '-' → ∀ d ∈ cs.head?, d ≠ '-') : startsRun previous (c :: cs) = false := by
  unfold startsRun
  split
  · rename_i heq
    obtain ⟨hc, rfl⟩ := List.cons.inj heq
    exact absurd rfl (h hc '-' rfl)
  · rfl

theorem places_startsRun_literal {l : List Char} (hne : l ≠ [])
    (hliteral : ∀ c ∈ l, isLiteralChar c = true) (previous : Option Char) (cs : List Char) :
    places startsRun previous (l ++ cs) = places startsRun l.getLast? cs := by
  have hnone (previous : Option Char) {c : Char} (cs : List Char) (hc : isLiteralChar c = true) :
      startsRun previous (c :: cs) = false :=
    startsRun_eq_false previous fun heq => absurd heq (ne_minus_of_isLiteralChar hc)
  rw [places_literal (fun c d cs _ hd => hnone (some c) cs hd) hne hliteral]
  obtain ⟨c, l, rfl⟩ := List.exists_cons_of_ne_nil hne
  rw [List.cons_append, hnone previous _ (hliteral c List.mem_cons_self)]
  exact Nat.zero_add _

-- A minus with the digits and points behind it, if another minus does not follow.
theorem places_startsRun_minus {l cs : List Char} (hliteral : ∀ c ∈ l, isLiteralChar c = true)
    (hends : ∀ c ∈ cs.head?, isLiteralChar c = false ∧ (l = [] → c ≠ '-'))
    (previous : Option Char) :
    places startsRun previous ('-' :: (l ++ cs)) = places startsRun ('-' :: l).getLast? cs := by
  have hsecond := ne_minus_of_mem_head? hliteral fun c hc => (hends c hc).2
  rw [places_cons, startsRun_eq_false previous fun _ => hsecond, Bool.toNat_false, Nat.zero_add]
  by_cases hne : l = []
  · subst hne
    rfl
  · rw [places_startsRun_literal hne hliteral, List.getLast?_cons_of_ne_nil hne]

/-- Among known tokens there are none of a run of minuses where a literal can begin. -/
theorem Lexes.places_startsRun {previous : Option Char} {ts : List (Token α)} {cs : List Char}
    (h : Lexes read previous ts cs) (hknown : ∀ t ∈ ts, t.isUnknown = false) :
    places startsRun previous cs = 0 := by
  induction h with
  | nil => rfl
  | @literal previous l cs ts _ hne hliteral _ _ ih =>
    rw [places_startsRun_literal hne hliteral]
    exact ih fun t ht => hknown t (List.mem_cons_of_mem _ ht)
  | @symbol previous c cs ts _ hminus _ ih =>
    rw [places_cons, startsRun_eq_false previous fun heq => absurd heq hminus]
    exact (Nat.zero_add _).trans (ih fun t ht => hknown t (List.mem_cons_of_mem _ ht))
  | @minus previous cs ts _ hends _ ih =>
    rw [places_cons, startsRun_eq_false previous fun _ => hends]
    exact (Nat.zero_add _).trans (ih fun t ht => hknown t (List.mem_cons_of_mem _ ht))
  | @signed previous n l cs ts _ _ hliteral hends _ ih =>
    obtain ⟨rfl, hlexeme⟩ := eq_zero_of_known hknown
    rw [List.replicate_zero, List.nil_append, places_startsRun_minus hliteral hends]
    exact ih fun t ht => hlexeme t (List.mem_cons_of_mem _ ht)
  | @withdrawn previous n l cs ts hcloses hliteral hends _ ih =>
    obtain ⟨rfl, hlexeme⟩ := eq_zero_of_known hknown
    have hfirst (rest : List Char) : startsRun previous rest = false := by
      unfold startsRun
      split
      · exact hcloses
      · rfl
    rw [places_cons, hfirst, List.replicate_zero, List.nil_append,
      places_startsRun_minus hliteral hends]
    exact (Nat.zero_add _).trans (ih fun t ht => hlexeme t (List.mem_cons_of_mem _ ht))

theorem eq_false_of_places_eq_zero {p : Option Char → List Char → Bool} {previous : Option Char}
    {front back : List Char} (h : places p previous (front ++ back) = 0) :
    p (front.getLast?.or previous) back = false := by
  induction front generalizing previous with
  | nil =>
    rw [List.nil_append] at h
    cases back with
    | nil => exact Bool.toNat_eq_zero.mp h
    | cons c back => exact Bool.toNat_eq_zero.mp (Nat.add_eq_zero_iff.mp h).1
  | cons c front ih =>
    have hlater := ih (Nat.add_eq_zero_iff.mp h).2
    rwa [Option.or_some, ← Option.some_or, ← List.getLast?_cons] at hlater

/-! ## Runs behind an operand -/

theorem opensLiteral_of_isAllowed {c : Char} (hallowed : isAllowed c = true)
    (hcloses : closesOperand c = false) : opensLiteral (some c) = true := by
  rcases isAllowed_cases hallowed with hc | rfl | rfl | ⟨op, rfl⟩
  · rw [closesOperand, hc] at hcloses
    cases hcloses
  · rfl
  · cases hcloses
  · cases op <;> rfl

theorem Lexer.previous_foldl_step (l : Lexer α) (cs : List Char) :
    (cs.foldl (step read) l).previous = cs.getLast?.or l.previous := by
  induction cs generalizing l with
  | nil => rfl
  | cons c cs ih =>
    rw [List.foldl_cons, ih, previous_step, Option.or_some, List.getLast?_cons, Option.some_or]

/-- Behind an operand, two minuses with no literal behind them have the tokens of one. -/
theorem tokensBy_doubleMinus {front back : List Char}
    (hcloses : ∃ c ∈ front.getLast?, closesOperand c = true)
    (hends : ∀ c ∈ back.head?, isLiteralChar c = false ∧ c ≠ '-') :
    tokensBy read (front ++ '-' :: '-' :: back) = tokensBy read (front ++ '-' :: back) := by
  obtain ⟨c, hlast, hc⟩ := hcloses
  obtain ⟨hopens, hminus⟩ := not_opensLiteral_of_closesOperand hc
  let l := front.foldl (Lexer.step read) .initial
  have hprevious : l.previous = some c := by
    rw [Lexer.previous_foldl_step, hlast]
    rfl
  have hfirst : l.step read '-' = ⟨.operator .sub :: l.flush read, [], some '-'⟩ := by
    refine Lexer.step_symbol l rfl fun _ => ?_
    rw [hprevious]
    exact ⟨fun h => hminus (Option.some.inj h), hopens⟩
  -- The second minus is pending, and it is an operator once the next character comes.
  have hsecond : Lexer.step read ⟨.operator .sub :: l.flush read, [], some '-'⟩ '-' =
      ⟨l.flush read, ['-'], some '-'⟩ := rfl
  have hsettled : (back.foldl (Lexer.step read) ⟨l.flush read, ['-'], some '-'⟩).flush read = _ :=
    Lexer.flush_foldl_settled _ (fun d hd => (hends d hd).1) fun _ d hd => (hends d hd).2
  rw [tokensBy, tokensBy, List.foldl_append, List.foldl_append]
  congr 1
  change (back.foldl _ ((l.step read '-').step read '-')).flush read =
    (back.foldl _ (l.step read '-')).flush read
  rw [hfirst, hsecond, hsettled]
  rfl

/-! ## Expressions with a run of minuses -/

theorem multiplies_minus (c : Char) : multiplies c '-' = false := by
  simp [multiplies]

theorem minus_multiplies (c : Char) : multiplies '-' c = false := by
  simp [multiplies]

theorem writeProducts_minus (cs : List Char) :
    writeProducts ('-' :: cs) = '-' :: writeProducts cs := by
  rw [writeProducts_cons]
  cases cs with
  | nil => rfl
  | cons c cs =>
    rw [List.head?_cons, Option.any_some, minus_multiplies]
    rfl

/-- A value shows that the run stands behind an operand. -/
theorem closesOperand_of_evaluate {expr : String} {v : Float} {front back : List Char}
    (hrun : compact expr.toList = front ++ '-' :: '-' :: back) (hvalue : evaluate expr = .ok v) :
    ∃ c ∈ front.getLast?, closesOperand c = true := by
  obtain ⟨hnormal, hcounted⟩ := normal_of_evaluate hvalue
  have hlexes := lexes_tokensBy Number.floatOfAnyScript? (writeProducts (compact expr.toList))
  have hplaces := hlexes.places_startsRun hcounted.known
  rw [hrun, writeProducts_append_cons front multiplies_minus, writeProducts_minus,
    writeProducts_minus] at hplaces hnormal
  have hnone : startsRun ((writeProducts front).getLast?.or none) ('-' :: '-' :: _) = false :=
    eq_false_of_places_eq_zero hplaces
  rw [getLast?_writeProducts, Option.or_none] at hnone
  cases hlast : front.getLast? with
  | none =>
    rw [hlast] at hnone
    exact nomatch hnone
  | some c =>
    rw [hlast] at hnone
    change opensLiteral (some c) = false at hnone
    refine ⟨c, rfl, ?_⟩
    by_contra hcloses
    have hmem : c ∈ writeProducts front :=
      List.mem_of_getLast? ((getLast?_writeProducts front).trans hlast)
    have hopens := opensLiteral_of_isAllowed (hnormal.allowed c (List.mem_append_left _ hmem))
      (Bool.not_eq_true _ ▸ hcloses)
    exact nomatch hopens.symm.trans hnone

theorem evaluate_doubleMinus {expr : String} {front back : List Char}
    (hrun : compact expr.toList = front ++ '-' :: '-' :: back)
    (hcloses : ∃ c ∈ front.getLast?, closesOperand c = true)
    (hends : ∀ c ∈ back.head?, isLiteralChar c = false ∧ c ≠ '-') :
    evaluate expr = evaluate (String.ofList (front ++ '-' :: back)) := by
  have hcompact : compact (front ++ '-' :: back) = front ++ '-' :: back := by
    refine List.filter_eq_self.mpr fun c hc => ?_
    have hmem : c ∈ compact expr.toList := by
      rw [hrun]
      exact List.Sublist.mem hc ((List.sublist_cons_self '-' _).append_left front)
    exact (List.mem_filter.mp hmem).2
  obtain ⟨c, hlast, hc⟩ := hcloses
  have hlast' := (getLast?_writeProducts front).trans hlast
  rw [← head?_writeProducts] at hends
  have htokens : tokens (writeProducts front ++ '-' :: '-' :: writeProducts back) =
      tokens (writeProducts front ++ '-' :: writeProducts back) :=
    tokensBy_doubleMinus ⟨c, hlast', hc⟩ hends
  have hallowed : (writeProducts front ++ '-' :: '-' :: writeProducts back).all isAllowed =
      (writeProducts front ++ '-' :: writeProducts back).all isAllowed := by
    simp only [List.all_append, List.all_cons, show isAllowed '-' = true from rfl, Bool.true_and]
  rw [evaluate, evaluate, normalForm, normalForm, String.toList_ofList, hrun, hcompact]
  simp only [writeProducts_append_cons front multiplies_minus, writeProducts_minus, hallowed]
  by_cases hall : (writeProducts front ++ '-' :: writeProducts back).all isAllowed = true
  · simp only [if_pos hall]
    exact congrArg valueOf htokens
  · simp only [if_neg hall]

/-- Two minuses in a row leave an expression without a value, unless they stand behind an operand
and as many operands as operators are missing. Where no literal follows, they are one minus. -/
theorem evaluate_of_doubleMinus {expr : String} {front back : List Char}
    (hrun : compact expr.toList = front ++ '-' :: '-' :: back) :
    ((∀ c ∈ front.getLast?, closesOperand c = false) → ∃ e, evaluate expr = .error e) ∧
      (missingOperands (compact expr.toList) ≠ missingOperators (compact expr.toList) →
        ∃ e, evaluate expr = .error e) ∧
      ((∃ c ∈ front.getLast?, closesOperand c = true) →
        (∀ c ∈ back.head?, isLiteralChar c = false ∧ c ≠ '-') →
        evaluate expr = evaluate (String.ofList (front ++ '-' :: back))) := by
  refine ⟨fun hopens => ?_, fun hmissing => ?_, evaluate_doubleMinus hrun⟩
  · cases hvalue : evaluate expr with
    | error e => exact ⟨e, rfl⟩
    | ok v =>
      obtain ⟨c, hc, hcloses⟩ := closesOperand_of_evaluate hrun hvalue
      exact nomatch hcloses.symm.trans (hopens c hc)
  · cases hvalue : evaluate expr with
    | error e => exact ⟨e, rfl⟩
    | ok v => exact absurd (missing_of_evaluate hvalue) hmissing

/-- `3--2` lacks an operator, in `2*--3` the run is behind an operator, and in `3--*2` no literal
follows. -/
theorem evaluate_of_doubleMinus_three :
    (∃ e, evaluate "3--2" = .error e) ∧ (∃ e, evaluate "2*--3" = .error e) ∧
      evaluate "3--*2" = evaluate "3-*2" := by
  have hliteral : compact "3--2".toList = ['3'] ++ '-' :: '-' :: ['2'] := by decide +kernel
  have hoperator : compact "2*--3".toList = ['2', '*'] ++ '-' :: '-' :: ['3'] := by decide +kernel
  have hsymbol : compact "3--*2".toList = ['3'] ++ '-' :: '-' :: ['*', '2'] := by decide +kernel
  refine ⟨(evaluate_of_doubleMinus hliteral).2.1 (by decide +kernel),
    (evaluate_of_doubleMinus hoperator).1 ?_,
    (evaluate_of_doubleMinus hsymbol).2.2 ⟨'3', rfl, rfl⟩ ?_⟩
  · rintro _ ⟨⟩
    rfl
  · rintro _ ⟨⟩
    decide

/-- With a parenthesis behind the run, the second minus lacks an operand, which makes up for the
operator that is missing. -/
theorem evaluate_doubleMinus_in_front_of_group :
    ['-', '-'] <:+: compact "3--(2)".toList ∧
      ∃ v, evaluate "3--(2)" = .ok v ∧ (v == 1) = true :=
  ⟨by decide +kernel, exists_of_any_toOption (by decide +kernel)⟩

end Reckoner.Expr
