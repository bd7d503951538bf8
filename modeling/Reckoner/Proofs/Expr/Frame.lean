import Reckoner.Proofs.Expr.Parentheses

/-!
# Frame — a group and its value

Tokens that have a value by themselves never reach below the stacks that they begin with. Inside
parentheses they do what they do alone, with everything that was there before untouched below them.
So a group stands for its value, wherever it is and whatever the tokens around it are.
-/

namespace Reckoner.Expr

variable {α : Type} {A : Arithmetic α}

namespace Stacks

variable {s s' : Stacks α}

/-- The stacks of a group that is open above others. -/
def inside (below s : Stacks α) : Stacks α :=
  ⟨s.values ++ below.values, s.held ++ .leftParen :: below.held⟩

theorem applyTop_append {op : Operator} {values rest : List α}
    (h : applyTop A op values = .ok rest) (below : List α) :
    applyTop A op (values ++ below) = .ok (rest ++ below) := by
  rcases values with _ | ⟨b, _ | ⟨a, values⟩⟩
  · cases h
  · cases h
  · rw [applyTop_pair] at h
    obtain ⟨c, hvalue, h⟩ := exists_of_bind_eq_ok h
    cases h
    rw [List.cons_append, List.cons_append, applyTop_pair, hvalue]
    rfl

-- The parenthesis stops what the end of the stack stops otherwise.
theorem reduceWhile_inside {p : Operator → Bool} {values : List α} {held : List Held}
    (h : reduceWhile A p values held = .ok s) (below : Stacks α) :
    reduceWhile A p (values ++ below.values) (held ++ .leftParen :: below.held) =
      .ok (below.inside s) := by
  induction held generalizing values with
  | nil =>
    cases h
    rfl
  | cons top rest ih =>
    cases top with
    | leftParen =>
      cases h
      rfl
    | operator op =>
      rw [List.cons_append]
      by_cases hop : p op = true
      · rw [reduceWhile_operator hop] at h ⊢
        obtain ⟨others, happlied, h⟩ := exists_of_bind_eq_ok h
        rw [applyTop_append happlied]
        exact ih h
      · have hstop := Bool.eq_false_iff.mpr hop
        rw [reduceWhile_stop hstop] at h ⊢
        cases h
        rfl

theorem push_inside {t : Token α} (h : push A s t = .ok s') (below : Stacks α) :
    push A (below.inside s) t = .ok (below.inside s') := by
  cases t with
  | number =>
    cases h
    rfl
  | leftParen =>
    cases h
    rfl
  | rightParen =>
    rw [push_rightParen] at h ⊢
    obtain ⟨r, hreduced, hclose⟩ := exists_of_bind_eq_ok h
    have hinside := reduceWhile_inside hreduced below
    -- Alone, the tokens have closed a parenthesis of their own.
    match r, hclose with
    | ⟨values, .leftParen :: held⟩, hclose =>
      cases hclose
      exact congrArg (· >>= close) hinside
  | operator op =>
    rw [push_operator] at h ⊢
    obtain ⟨r, hreduced, hpush⟩ := exists_of_bind_eq_ok h
    cases hpush
    exact congrArg (· >>= _) (reduceWhile_inside hreduced below)
  | unknown => exact nomatch h

theorem foldlM_push_inside {ts : List (Token α)} (h : ts.foldlM (push A) s = .ok s')
    (below : Stacks α) : ts.foldlM (push A) (below.inside s) = .ok (below.inside s') := by
  induction ts generalizing s with
  | nil =>
    cases h
    rfl
  | cons t ts ih =>
    rw [List.foldlM_cons] at h ⊢
    obtain ⟨next, hpush, hrest⟩ := exists_of_bind_eq_ok h
    rw [push_inside hpush below]
    exact ih hrest

-- The parenthesis at the end leaves the value on top of what was there before the group.
theorem push_inside_rightParen {v : α} (h : s.result A = .ok v) (below : Stacks α) :
    push A (below.inside s) .rightParen = .ok ⟨v :: below.values, below.held⟩ := by
  rw [result_eq] at h
  obtain ⟨r, hreduced, hsingle⟩ := exists_of_bind_eq_ok h
  obtain rfl := eq_of_single hsingle
  rw [push_rightParen]
  exact congrArg (· >>= close) (reduceWhile_inside hreduced below)

end Stacks

theorem foldlM_push_group_of_evaluateTokens {ts : List (Token α)} {v : α}
    (h : evaluateTokens A ts = .ok v) (s : Stacks α) :
    (Token.leftParen :: (ts ++ [Token.rightParen])).foldlM (Stacks.push A) s =
      .ok ⟨v :: s.values, s.held⟩ := by
  rw [evaluateTokens_eq] at h
  obtain ⟨last, hrun, hresult⟩ := exists_of_bind_eq_ok h
  change (ts ++ [Token.rightParen]).foldlM (Stacks.push A) (s.inside .empty) = _
  rw [List.foldlM_append, Stacks.foldlM_push_inside hrun s]
  change [Token.rightParen].foldlM (Stacks.push A) (s.inside last) = _
  rw [List.foldlM_cons, Stacks.push_inside_rightParen hresult s]
  rfl

/-- Tokens that have a value can stand in parentheses wherever a number of that value can: what
comes out is the same value or the same error, whatever comes before and behind. -/
theorem evaluateTokens_group {ts : List (Token α)} {v : α} (h : evaluateTokens A ts = .ok v)
    (text : String) (before after : List (Token α)) :
    evaluateTokens A (before ++ [.number text v] ++ after) =
      evaluateTokens A (before ++ (.leftParen :: (ts ++ [.rightParen])) ++ after) := by
  have hgroup (s : Stacks α) : [Token.number text v].foldlM (Stacks.push A) s =
      (Token.leftParen :: (ts ++ [Token.rightParen])).foldlM (Stacks.push A) s :=
    (foldlM_push_group_of_evaluateTokens h s).symm
  rw [evaluateTokens_eq, evaluateTokens_eq]
  simp only [List.foldlM_append]
  rw [funext hgroup]

/-- A group whose operators stand before and behind their operands, as a factor. -/
theorem evaluateTokens_group_scatteredTokens :
    evaluateTokens .whole scatteredTokens = .ok 10 ∧
      evaluateTokens .whole ([.number "7" 7, .operator .sub] ++
        (.leftParen :: (scatteredTokens ++ [.rightParen])) ++ [.operator .mul, .number "2" 2]) =
          .ok (-13) := by
  have hvalue : evaluateTokens .whole scatteredTokens = .ok 10 := rfl
  refine ⟨hvalue, ?_⟩
  rw [← evaluateTokens_group hvalue "10"]
  rfl

end Reckoner.Expr
