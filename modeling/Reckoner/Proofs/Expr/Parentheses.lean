import Reckoner.Proofs.Expr.Acceptance

/-!
# Parentheses — closed in order, or the one thing that is wrong

Parentheses are balanced if none is closed that is not open and all of them are closed at the end.
Tokens that have a value are balanced, in whatever order they come.

Where operands and operators take turns, parentheses are all that can be wrong with the tokens, and
divisions by zero all that can be wrong with their values: there are never fewer values than the
waiting operators need, so that none of them is ever applied to a value that is not there.
-/

namespace Reckoner.Expr

variable {α : Type} {A : Arithmetic α}

/-! ## Balance -/

namespace Token

def isLeftParen : Token α → Bool
  | .leftParen => true
  | _ => false

def isRightParen : Token α → Bool
  | .rightParen => true
  | _ => false

end Token

/-- How many parentheses are opened among the tokens. -/
def opened (ts : List (Token α)) : Nat := ts.countP Token.isLeftParen

/-- How many parentheses are closed among the tokens. -/
def closed (ts : List (Token α)) : Nat := ts.countP Token.isRightParen

/-- Up to no token more parentheses are closed than opened, and in the end as many. -/
structure Balanced (ts : List (Token α)) : Prop where
  within : ∀ us, us <+: ts → closed us ≤ opened us
  settled : closed ts = opened ts

theorem opened_cons (t : Token α) (ts : List (Token α)) :
    opened (t :: ts) = opened ts + t.isLeftParen.toNat := by
  rw [opened, List.countP_cons]
  cases t.isLeftParen <;> rfl

theorem closed_cons (t : Token α) (ts : List (Token α)) :
    closed (t :: ts) = closed ts + t.isRightParen.toNat := by
  rw [closed, List.countP_cons]
  cases t.isRightParen <;> rfl

-- With no token at all nothing is closed, so that only what begins with the first one counts.
theorem closed_le_cons_iff (depth : Nat) (t : Token α) (ts : List (Token α)) :
    (∀ us, us <+: t :: ts → closed us ≤ depth + opened us) ↔
      ∀ us, us <+: ts →
        closed us + t.isRightParen.toNat ≤ depth + (opened us + t.isLeftParen.toNat) := by
  simp only [← opened_cons, ← closed_cons]
  constructor
  · intro h us hus
    exact h (t :: us) (List.cons_prefix_cons.mpr ⟨rfl, hus⟩)
  · intro h us hus
    rcases List.prefix_cons_iff.mp hus with rfl | ⟨rest, rfl, hrest⟩
    · exact Nat.zero_le _
    · exact h rest hrest

-- Some parentheses may be open before the tokens; they have to be closed as well.
theorem closesFrom_iff (depth : Nat) (ts : List (Token α)) :
    closesFrom depth ts = true ↔
      (∀ us, us <+: ts → closed us ≤ depth + opened us) ∧ closed ts = depth + opened ts := by
  induction ts generalizing depth with
  | nil =>
    simp only [closesFrom, beq_iff_eq, List.prefix_nil, forall_eq]
    exact ⟨fun h => ⟨Nat.zero_le _, h.symm⟩, fun h => h.2.symm⟩
  | cons t ts ih =>
    rw [closed_le_cons_iff, opened_cons, closed_cons]
    cases t with
    | leftParen =>
      change closesFrom (depth + 1) ts = true ↔ _
      rw [ih]
      simp only [Token.isLeftParen, Token.isRightParen, Bool.toNat_true, Bool.toNat_false]
      exact and_congr (forall₂_congr fun us _ => by omega) (by omega)
    | rightParen =>
      simp only [Token.isLeftParen, Token.isRightParen, Bool.toNat_true, Bool.toNat_false]
      cases depth with
      | zero =>
        have hone : ¬closed ([] : List (Token α)) + 1 ≤ 0 + opened ([] : List (Token α)) :=
          Nat.not_succ_le_zero 0
        exact iff_of_false Bool.false_ne_true fun h => hone (h.1 [] List.nil_prefix)
      | succ depth =>
        change closesFrom depth ts = true ↔ _
        rw [ih]
        exact and_congr (forall₂_congr fun us _ => by omega) (by omega)
    | _ =>
      simp only [Token.isLeftParen, Token.isRightParen, Bool.toNat_false, Nat.add_zero]
      rw [← ih]
      cases depth <;> rfl

theorem balanced_iff_closesFrom (ts : List (Token α)) :
    Balanced ts ↔ closesFrom 0 ts = true := by
  rw [closesFrom_iff]
  simp only [Nat.zero_add]
  exact ⟨fun h => ⟨h.within, h.settled⟩, fun h => ⟨h.1, h.2⟩⟩

instance (ts : List (Token α)) : Decidable (Balanced ts) :=
  decidable_of_iff _ (balanced_iff_closesFrom ts).symm

/-! ## Tokens that have a value -/

/-- Tokens that have a value hold no unknown one, their parentheses are balanced, and there is one
number more than there are operators; in which order they come does not matter for that. -/
theorem balanced_of_evaluateTokens {ts : List (Token α)} {v : α}
    (h : evaluateTokens A ts = .ok v) :
    (∀ t ∈ ts, t.isUnknown = false) ∧ Balanced ts ∧ numbers ts = operators ts + 1 := by
  have hcounted := wellCounted_of_evaluateTokens h
  exact ⟨hcounted.known, (balanced_iff_closesFrom ts).mpr hcounted.closes, hcounted.count⟩

/-- The tokens of `+ ( 2 3 * ) 4`. -/
def scatteredTokens : List (Token Int) := [
  .operator .add, .leftParen, .number "2" 2, .number "3" 3, .operator .mul, .rightParen,
  .number "4" 4]

/-- An operator before its operands and one behind them: the tokens have a value all the same. -/
theorem balanced_scatteredTokens :
    evaluateTokens .whole scatteredTokens = .ok 10 ∧
      (∀ t ∈ scatteredTokens, t.isUnknown = false) ∧ Balanced scatteredTokens ∧
        numbers scatteredTokens = operators scatteredTokens + 1 := by
  have hvalue : evaluateTokens .whole scatteredTokens = .ok 10 := rfl
  exact ⟨hvalue, balanced_of_evaluateTokens hvalue⟩

/-! ## Operands and operators in turn -/

/-- What can be wrong if operands and operators take turns: a parenthesis has no partner, or a divisor
is zero. -/
def EvalError.OfTurns (e : EvalError) : Prop := e = .mismatchedParentheses ∨ e = .divisionByZero

namespace Stacks

variable {s : Stacks α}

/-- There is a value for each operator that waits, and one more behind an operand. -/
def Supplied (q : Expects) (s : Stacks α) : Prop :=
  s.values.length = Held.waiting s.held + q.credit

/-- Operands and operators take turns in the tokens to come, and there are the values for that. -/
def SuppliedFor (ts : List (Token α)) (s : Stacks α) : Prop :=
  ∃ q, alternatesFrom q ts = true ∧ s.Supplied q

-- An operator that is applied takes itself away and one value.
theorem supplied_applyTop {op : Operator} {values : List α} {held : List Held}
    (hsupplied : Supplied .operator ⟨values, .operator op :: held⟩) :
    Delivers EvalError.OfTurns (fun rest => Supplied .operator ⟨rest, held⟩)
      (applyTop A op values) := by
  have hlength : values.length = Held.waiting held + 2 := by
    rw [hsupplied, Held.waiting_operator]
    rfl
  match values, hlength with
  | b :: a :: rest, hlength =>
    rw [applyTop_pair]
    cases hvalue : A.apply op a b with
    | ok c => exact Nat.succ.inj hlength
    | error e => exact .inr (Arithmetic.eq_divisionByZero_of_apply hvalue)

theorem supplied_reduceWhile (p : Operator → Bool) {values : List α} {held : List Held}
    (hsupplied : Supplied .operator ⟨values, held⟩) :
    Delivers EvalError.OfTurns (Supplied .operator) (reduceWhile A p values held) :=
  delivers_reduceWhile (I := fun values held => Supplied .operator ⟨values, held⟩)
    (fun _ _ _ => supplied_applyTop) hsupplied

theorem supplied_close (hsupplied : s.Supplied .operator) :
    Delivers EvalError.OfTurns (Supplied .operator) s.close := by
  rcases s with ⟨values, _ | ⟨_ | _, below⟩⟩
  · exact .inl rfl
  · exact .inl rfl
  · exact hsupplied

theorem supplied_single (hsupplied : s.Supplied .operator) :
    Delivers EvalError.OfTurns (fun _ => True) s.single := by
  rcases s with ⟨values, _ | ⟨top, below⟩⟩
  · obtain ⟨value, rfl⟩ := List.length_eq_one_iff.mp hsupplied
    exact trivial
  · rcases values with _ | ⟨_, _ | _⟩ <;> exact .inl rfl

-- A token that stands in its turn finds the values that it needs.
theorem supplied_push {t : Token α} {ts : List (Token α)} (hsupplied : s.SuppliedFor (t :: ts)) :
    Delivers EvalError.OfTurns (SuppliedFor ts) (push A s t) := by
  obtain ⟨q, halternates, hs⟩ := hsupplied
  match q, t, halternates with
  | .operand, .number _ _, halternates => exact ⟨.operator, halternates, congrArg (· + 1) hs⟩
  | .operand, .leftParen, halternates => exact ⟨.operand, halternates, hs⟩
  | .operator, .rightParen, halternates =>
    rw [push_rightParen]
    exact (supplied_reduceWhile _ hs).bind fun _ hr =>
      (supplied_close hr).mono fun _ hnext => ⟨.operator, halternates, hnext⟩
  | .operator, .operator op, halternates =>
    rw [push_operator]
    refine (supplied_reduceWhile _ hs).bind fun r hr => ⟨.operand, halternates, ?_⟩
    change r.values.length = Held.waiting (.operator op :: r.held)
    rw [Held.waiting_operator]
    exact hr

theorem SuppliedFor.supplied (hsupplied : s.SuppliedFor []) : s.Supplied .operator := by
  obtain ⟨q, hend, hs⟩ := hsupplied
  cases q with
  | operand => exact nomatch hend
  | operator => exact hs

end Stacks

theorem Alternating.delivers {ts : List (Token α)} (halternating : Alternating ts) :
    Delivers EvalError.OfTurns (fun _ => True) (evaluateTokens A ts) := by
  have hempty : Stacks.empty.SuppliedFor ts := ⟨.operand, halternating, rfl⟩
  rw [evaluateTokens_eq]
  refine (Stacks.delivers_foldlM (fun t ts s => Stacks.supplied_push) hempty).bind fun s hs => ?_
  rw [Stacks.result_eq]
  exact (Stacks.supplied_reduceWhile _ hs.supplied).bind fun _ => Stacks.supplied_single

/-- Where operands and operators take turns, it depends on the parentheses alone whether there is a
value, if no divisor is zero. Without balance the parentheses are the error that is reported. -/
theorem evaluateTokens_of_alternating {ts : List (Token α)} (halternating : Alternating ts) :
    (¬Balanced ts → evaluateTokens A ts = .error .mismatchedParentheses ∨
      evaluateTokens A ts = .error .divisionByZero) ∧
    (Balanced ts → (∃ v, evaluateTokens A ts = .ok v) ∨
      evaluateTokens A ts = .error .divisionByZero) := by
  have hdelivers := halternating.delivers (A := A)
  constructor
  · intro hunbalanced
    cases hvalue : evaluateTokens A ts with
    | ok v =>
      have hcloses := (wellCounted_of_evaluateTokens hvalue).closes
      exact absurd ((balanced_iff_closesFrom ts).mpr hcloses) hunbalanced
    | error e =>
      rw [hvalue] at hdelivers
      exact hdelivers.imp (congrArg _) (congrArg _)
  · intro hbalanced
    obtain ⟨t, ht⟩ := (halternating.isInfix ((balanced_iff_closesFrom ts).mp hbalanced)).exists_tree
    rw [ht.evaluateTokens_eq]
    exact (t.value_ok_or_dividesByZero A).imp_right Tree.value_eq_error_iff.mpr

/-- The tokens of `2 ^ ( 3 - 4 * ( 5 ) / 6`. -/
def unclosedTokens : List (Token Int) := [
  .number "2" 2, .operator .pow, .leftParen, .number "3" 3, .operator .sub, .number "4" 4,
  .operator .mul, .leftParen, .number "5" 5, .rightParen, .operator .div, .number "6" 6]

/-- The second parenthesis has a partner and the first one has none. -/
theorem evaluateTokens_unclosedTokens :
    Alternating unclosedTokens ∧ ¬Balanced unclosedTokens ∧
      (evaluateTokens .whole unclosedTokens = .error .mismatchedParentheses ∨
        evaluateTokens .whole unclosedTokens = .error .divisionByZero) := by
  have halternating : Alternating unclosedTokens := rfl
  have hunbalanced : ¬Balanced unclosedTokens := by decide
  exact ⟨halternating, hunbalanced, (evaluateTokens_of_alternating halternating).1 hunbalanced⟩

end Reckoner.Expr
