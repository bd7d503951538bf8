import Mathlib.Data.List.Forall2
import Reckoner.Proofs.Expr.Acceptance

/-!
# Shape — numbers do not decide what is done

Which operators wait and which are applied depends on what the tokens are, and not on the numbers
among them. Two evaluations of tokens that differ in their numbers only go side by side, with the
same operators on both stacks and as many values. They part only where one of them divides by zero.
-/

namespace Reckoner.Expr

variable {α β γ δ : Type} {A : Arithmetic α} {B : Arithmetic β}

/-! ## Tokens and outcomes -/

/-- Two tokens are the same, or both are numbers. -/
inductive Token.Alike : Token α → Token β → Prop where
  | number (text : String) (a : α) (otherText : String) (b : β) :
    Alike (.number text a) (.number otherText b)
  | operator (op : Operator) : Alike (.operator op) (.operator op)
  | leftParen : Alike .leftParen .leftParen
  | rightParen : Alike .rightParen .rightParen
  | unknown (text : String) : Alike (.unknown text) (.unknown text)

/-- Two outcomes agree: both came out and are related, or both are one error. If one of them is a
division by zero, nothing is known of the other. -/
inductive Agree (R : γ → δ → Prop) : Except EvalError γ → Except EvalError δ → Prop where
  | ok {c : γ} {d : δ} : R c d → Agree R (.ok c) (.ok d)
  | error (e : EvalError) : Agree R (.error e) (.error e)
  | left (y : Except EvalError δ) : Agree R (.error .divisionByZero) y
  | right (x : Except EvalError γ) : Agree R x (.error .divisionByZero)

theorem Agree.bind {γ' δ' : Type} {R : γ → δ → Prop} {S : γ' → δ' → Prop}
    {x : Except EvalError γ} {y : Except EvalError δ} {f : γ → Except EvalError γ'}
    {g : δ → Except EvalError δ'} (h : Agree R x y) (hnext : ∀ c d, R c d → Agree S (f c) (g d)) :
    Agree S (x >>= f) (y >>= g) := by
  cases h with
  | ok hrelated => exact hnext _ _ hrelated
  | error e => exact .error e
  | left y => exact .left _
  | right x => exact .right _

/-! ## Side by side -/

theorem agree_apply (op : Operator) (a b : α) (c d : β) :
    Agree (fun _ _ => True) (A.apply op a b) (B.apply op c d) := by
  cases hleft : A.apply op a b with
  | error e =>
    rw [Arithmetic.eq_divisionByZero_of_apply hleft]
    exact .left _
  | ok v =>
    cases hright : B.apply op c d with
    | error e =>
      rw [Arithmetic.eq_divisionByZero_of_apply hright]
      exact .right _
    | ok w => exact .ok trivial

namespace Stacks

/-- The same waits on both stacks, and there are as many values. -/
structure Matches (s : Stacks α) (r : Stacks β) : Prop where
  held : s.held = r.held
  length : s.values.length = r.values.length

variable {s : Stacks α} {r : Stacks β} {values : List α} {others : List β}

theorem agree_applyTop (op : Operator) (hlength : values.length = others.length) :
    Agree (fun rest rest' => rest.length = rest'.length) (applyTop A op values)
      (applyTop B op others) := by
  match values, others, hlength with
  | [], [], _ => exact .error _
  | [_], [_], _ => exact .error _
  | b :: a :: rest, d :: c :: rest', hlength =>
    rw [applyTop_pair, applyTop_pair]
    exact (agree_apply op a b c d).bind fun _ _ _ => .ok (Nat.succ.inj hlength)

theorem agree_reduceWhile (p : Operator → Bool) (held : List Held)
    (hlength : values.length = others.length) :
    Agree Matches (reduceWhile A p values held) (reduceWhile B p others held) := by
  induction held generalizing values others with
  | nil => exact .ok ⟨rfl, hlength⟩
  | cons top below ih =>
    cases top with
    | leftParen => exact .ok ⟨rfl, hlength⟩
    | operator op =>
      by_cases hop : p op = true
      · rw [reduceWhile_operator hop, reduceWhile_operator hop]
        exact (agree_applyTop op hlength).bind fun _ _ => ih
      · have hstop := Bool.eq_false_iff.mpr hop
        rw [reduceWhile_stop hstop, reduceWhile_stop hstop]
        exact .ok ⟨rfl, hlength⟩

theorem agree_close (h : s.Matches r) : Agree Matches s.close r.close := by
  obtain ⟨values, held⟩ := s
  obtain ⟨others, held'⟩ := r
  obtain ⟨rfl, hlength⟩ := h
  match held with
  | [] => exact .error _
  | .operator _ :: _ => exact .error _
  | .leftParen :: _ => exact .ok ⟨rfl, hlength⟩

theorem agree_single (h : s.Matches r) : Agree (fun _ _ => True) s.single r.single := by
  obtain ⟨values, held⟩ := s
  obtain ⟨others, held'⟩ := r
  obtain ⟨rfl, hlength⟩ := h
  match held, values, others, hlength with
  | [], [], [], _ => exact .error _
  | [], [_], [_], _ => exact .ok trivial
  | [], _ :: _ :: _, _ :: _ :: _, _ => exact .error _
  | _ :: _, [], [], _ => exact .error _
  | _ :: _, [_], [_], _ => exact .error _
  | _ :: _, _ :: _ :: _, _ :: _ :: _, _ => exact .error _

theorem agree_push (h : s.Matches r) {t : Token α} {u : Token β} (halike : t.Alike u) :
    Agree Matches (push A s t) (push B r u) := by
  cases halike with
  | number => exact .ok ⟨h.held, congrArg (· + 1) h.length⟩
  | leftParen => exact .ok ⟨congrArg (_ :: ·) h.held, h.length⟩
  | rightParen =>
    rw [push_rightParen, push_rightParen, h.held]
    exact (agree_reduceWhile _ r.held h.length).bind fun _ _ => agree_close
  | operator op =>
    rw [push_operator, push_operator, h.held]
    exact (agree_reduceWhile _ r.held h.length).bind fun _ _ hreduced =>
      .ok ⟨congrArg (_ :: ·) hreduced.held, hreduced.length⟩
  | unknown text => exact .error _

theorem agree_foldlM {ts : List (Token α)} {us : List (Token β)}
    (halike : List.Forall₂ Token.Alike ts us) (h : s.Matches r) :
    Agree Matches (ts.foldlM (push A) s) (us.foldlM (push B) r) := by
  induction halike generalizing s r with
  | nil => exact .ok h
  | cons hfirst _ ih =>
    rw [List.foldlM_cons, List.foldlM_cons]
    exact (agree_push h hfirst).bind fun _ _ => ih

end Stacks

theorem agree_evaluateTokens {ts : List (Token α)} {us : List (Token β)}
    (halike : List.Forall₂ Token.Alike ts us) :
    Agree (fun _ _ => True) (evaluateTokens A ts) (evaluateTokens B us) := by
  have hempty : (Stacks.empty : Stacks α).Matches (Stacks.empty : Stacks β) := ⟨rfl, rfl⟩
  rw [evaluateTokens_eq, evaluateTokens_eq]
  refine (Stacks.agree_foldlM halike hempty).bind fun s r h => ?_
  rw [Stacks.result_eq, Stacks.result_eq, h.held]
  exact (Stacks.agree_reduceWhile _ r.held h.length).bind fun _ _ => Stacks.agree_single

/-- Tokens that differ in their numbers only have a value together or fail with the same error,
unless one of them comes to a division by zero. -/
theorem evaluateTokens_of_alike {ts : List (Token α)} {us : List (Token β)}
    (halike : List.Forall₂ Token.Alike ts us)
    (hts : evaluateTokens A ts ≠ .error .divisionByZero)
    (hus : evaluateTokens B us ≠ .error .divisionByZero) :
    (∃ v w, evaluateTokens A ts = .ok v ∧ evaluateTokens B us = .ok w) ∨
      ∃ e, evaluateTokens A ts = .error e ∧ evaluateTokens B us = .error e := by
  have hagree := agree_evaluateTokens (A := A) (B := B) halike
  generalize evaluateTokens A ts = x at hagree hts ⊢
  generalize evaluateTokens B us = y at hagree hus ⊢
  cases hagree with
  | ok => exact .inl ⟨_, _, rfl, rfl⟩
  | error e => exact .inr ⟨e, rfl, rfl⟩
  | left => exact absurd rfl hts
  | right => exact absurd rfl hus

/-- The tokens of `a / ( b - c ) )`. -/
def overclosedQuotient (a b c : Int) : List (Token Int) := [
  .number (toString a) a, .operator .div, .leftParen, .number (toString b) b, .operator .sub,
  .number (toString c) c, .rightParen, .rightParen]

/-- With two divisors that are not zero, the last parenthesis is the error of both. -/
theorem evaluateTokens_of_alike_overclosedQuotient :
    List.Forall₂ Token.Alike (overclosedQuotient 8 3 1) (overclosedQuotient 6 5 2) ∧
      evaluateTokens .whole (overclosedQuotient 8 3 1) ≠ .error .divisionByZero ∧
      evaluateTokens .whole (overclosedQuotient 6 5 2) ≠ .error .divisionByZero ∧
      ((∃ v w, evaluateTokens .whole (overclosedQuotient 8 3 1) = .ok v ∧
          evaluateTokens .whole (overclosedQuotient 6 5 2) = .ok w) ∨
        ∃ e, evaluateTokens .whole (overclosedQuotient 8 3 1) = .error e ∧
          evaluateTokens .whole (overclosedQuotient 6 5 2) = .error e) := by
  have halike : List.Forall₂ Token.Alike (overclosedQuotient 8 3 1) (overclosedQuotient 6 5 2) :=
    .cons (.number ..) (.cons (.operator .div) (.cons .leftParen (.cons (.number ..)
      (.cons (.operator .sub) (.cons (.number ..) (.cons .rightParen (.cons .rightParen .nil)))))))
  have hfirst : evaluateTokens .whole (overclosedQuotient 8 3 1) ≠ .error .divisionByZero :=
    fun h => nomatch h
  have hsecond : evaluateTokens .whole (overclosedQuotient 6 5 2) ≠ .error .divisionByZero :=
    fun h => nomatch h
  exact ⟨halike, hfirst, hsecond, evaluateTokens_of_alike halike hfirst hsecond⟩

end Reckoner.Expr
