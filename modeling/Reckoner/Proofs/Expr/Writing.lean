import Reckoner.Expr.Infix
import Reckoner.Expr.Stacks

/-!
# Writing — tokens that write a tree have its value

Reading the tokens of a tree on top of any two stacks leaves its value there, as soon as what waits
of it is applied. The levels of `Writes` are what makes this true: an operator yields to those of
its left operand and to none that waits below it.
-/

namespace Reckoner.Expr

variable {α : Type} {A : Arithmetic α}

/-! ## Outcomes -/

-- What comes out of two steps has come out of both.
theorem exists_of_bind_eq_ok {ε β γ : Type} {x : Except ε β} {f : β → Except ε γ} {c : γ}
    (h : x >>= f = .ok c) : ∃ b, x = .ok b ∧ f b = .ok c := by
  cases x with
  | error e => exact nomatch h
  | ok b => exact ⟨b, rfl, h⟩

/-- What comes out satisfies `p`, and an error that comes instead satisfies `failed`. -/
def Delivers {β : Type} (failed : EvalError → Prop) (p : β → Prop) : Except EvalError β → Prop
  | .ok b => p b
  | .error e => failed e

theorem Delivers.bind {β γ : Type} {failed : EvalError → Prop} {p : β → Prop} {q : γ → Prop}
    {x : Except EvalError β} {f : β → Except EvalError γ} (hx : Delivers failed p x)
    (hf : ∀ b, p b → Delivers failed q (f b)) : Delivers failed q (x >>= f) := by
  cases x with
  | ok b => exact hf b hx
  | error e => exact hx

theorem Delivers.mono {β : Type} {failed : EvalError → Prop} {p q : β → Prop}
    {x : Except EvalError β} (hx : Delivers failed p x) (himp : ∀ b, p b → q b) :
    Delivers failed q x := by
  cases x with
  | ok b => exact himp b hx
  | error e => exact hx

/-! ## Divisions by zero -/

/-- Somewhere in the tree there is a quotient whose right operand is zero. -/
inductive Tree.DividesByZero (A : Arithmetic α) : Tree α → Prop where
  | here {left right : Tree α} {b : α} : right.value A = .ok b → A.isZero b = true →
    DividesByZero A (.binary .div left right)
  | inLeft {left : Tree α} (op : Operator) (right : Tree α) :
    DividesByZero A left → DividesByZero A (.binary op left right)
  | inRight {right : Tree α} (op : Operator) (left : Tree α) :
    DividesByZero A right → DividesByZero A (.binary op left right)

theorem Arithmetic.apply_eq_error_iff {op : Operator} {a b : α} {e : EvalError} :
    A.apply op a b = .error e ↔ op = .div ∧ A.isZero b = true ∧ e = .divisionByZero := by
  cases op with
  | div =>
    show (if A.isZero b = true then Except.error EvalError.divisionByZero else .ok (A.div a b)) = _ ↔ _
    by_cases hzero : A.isZero b = true
    · rw [if_pos hzero]
      simp only [Except.error.injEq, true_and, hzero]
      exact eq_comm
    · rw [if_neg hzero]
      simp [hzero]
  | _ => simp [Arithmetic.apply]

theorem Tree.value_binary (op : Operator) (left right : Tree α) :
    (Tree.binary op left right).value A =
      left.value A >>= fun a => right.value A >>= fun b => A.apply op a b := by
  rw [Tree.value]
  cases left.value A with
  | error e => rfl
  | ok a => cases right.value A <;> rfl

-- A tree has no value just if it divides by zero.
theorem Tree.value_eq_error_iff {t : Tree α} :
    t.value A = .error .divisionByZero ↔ t.DividesByZero A := by
  induction t with
  | number text value => exact ⟨fun h => (nomatch h), fun h => (nomatch h)⟩
  | binary op left right ihLeft ihRight =>
    rw [Tree.value_binary]
    constructor
    · intro h
      cases hleft : left.value A with
      | error e =>
        rw [Tree.eq_divisionByZero_of_value hleft] at hleft
        exact .inLeft op right (ihLeft.mp hleft)
      | ok a =>
        cases hright : right.value A with
        | error e =>
          rw [Tree.eq_divisionByZero_of_value hright] at hright
          exact .inRight op left (ihRight.mp hright)
        | ok b =>
          rw [hleft, hright] at h
          obtain ⟨rfl, hzero, -⟩ := Arithmetic.apply_eq_error_iff.mp h
          exact .here hright hzero
    · intro h
      cases hleft : left.value A with
      | error e => rw [Tree.eq_divisionByZero_of_value hleft]; rfl
      | ok a =>
        cases hright : right.value A with
        | error e => rw [Tree.eq_divisionByZero_of_value hright]; rfl
        | ok b =>
          show A.apply op a b = _
          cases h with
          | here hvalue hzero =>
            rw [hvalue] at hright
            cases hright
            exact Arithmetic.apply_eq_error_iff.mpr ⟨rfl, hzero, rfl⟩
          | inLeft _ _ h => rw [ihLeft.mpr h] at hleft; exact nomatch hleft
          | inRight _ _ h => rw [ihRight.mpr h] at hright; exact nomatch hright

theorem Tree.value_ok_or_dividesByZero (A : Arithmetic α) (t : Tree α) :
    (∃ v, t.value A = .ok v) ∨ t.DividesByZero A := by
  cases h : t.value A with
  | ok v => exact .inl ⟨v, rfl⟩
  | error e =>
    rw [Tree.eq_divisionByZero_of_value h] at h
    exact .inr (Tree.value_eq_error_iff.mp h)

theorem Tree.exists_of_value_binary {op : Operator} {left right : Tree α} {v : α}
    (h : (Tree.binary op left right).value A = .ok v) :
    ∃ a b, left.value A = .ok a ∧ right.value A = .ok b := by
  rw [Tree.value_binary] at h
  obtain ⟨a, hleft, h⟩ := exists_of_bind_eq_ok h
  obtain ⟨b, hright, -⟩ := exists_of_bind_eq_ok h
  exact ⟨a, b, hleft, hright⟩

-- A tree without a value divides by zero itself.
theorem Tree.value_bind_eq_error {t : Tree α} {β : Type} {f : α → Except EvalError β}
    (h : ∀ a, t.value A = .ok a → f a = .error .divisionByZero) :
    t.value A >>= f = .error .divisionByZero := by
  cases hvalue : t.value A with
  | error e =>
    rw [Tree.eq_divisionByZero_of_value hvalue]
    rfl
  | ok a => exact h a hvalue

/-! ## Which operators yield -/

theorem Operator.yieldsTo_iff_leftLevel (incoming waiting : Operator) :
    incoming.yieldsTo waiting = true ↔ incoming.leftLevel ≤ waiting.precedence := by
  unfold yieldsTo leftLevel
  cases incoming.associativity
  · exact decide_eq_true_iff
  · rw [decide_eq_true_iff]
    exact Nat.lt_iff_add_one_le

-- Operators of one precedence associate to the same side, so that it does not matter which of the
-- two is asked.
theorem Operator.yieldsTo_iff_rightLevel (incoming waiting : Operator) :
    incoming.yieldsTo waiting = true ↔ incoming.precedence < waiting.rightLevel := by
  cases incoming <;> cases waiting <;> decide

/-- What waits on top binds its right operand at this level, or is a parenthesis. -/
def Held.Admits (level : Nat) : List Held → Prop
  | .operator op :: _ => op.rightLevel ≤ level
  | _ => True

theorem Held.Admits.mono {m n : Nat} {held : List Held} (h : Held.Admits m held) (hle : m ≤ n) :
    Held.Admits n held := by
  match held, h with
  | [], _ => trivial
  | .leftParen :: _, _ => trivial
  | .operator _ :: _, hright => exact Nat.le_trans hright hle

theorem Operator.precedence_le_leftLevel (op : Operator) : op.precedence ≤ op.leftLevel := by
  unfold leftLevel
  split <;> omega

theorem Operator.precedence_le_rightLevel (op : Operator) : op.precedence ≤ op.rightLevel := by
  unfold rightLevel
  split <;> omega

theorem Operator.rightLevel_le_of_lt {waiting op : Operator}
    (h : waiting.precedence < op.precedence) : waiting.rightLevel ≤ op.precedence := by
  unfold rightLevel
  split <;> omega

/-! ## Reductions -/

namespace Stacks

variable {p : Operator → Bool} {values : List α} {held : List Held}

@[simp] theorem reduceWhile_nil : reduceWhile A p values [] = .ok ⟨values, []⟩ := rfl

@[simp] theorem reduceWhile_leftParen :
    reduceWhile A p values (.leftParen :: held) = .ok ⟨values, .leftParen :: held⟩ := rfl

theorem reduceWhile_stop {op : Operator} (hstop : p op = false) :
    reduceWhile A p values (.operator op :: held) = .ok ⟨values, .operator op :: held⟩ := by
  rw [reduceWhile, if_neg (by rw [hstop]; exact Bool.false_ne_true)]

theorem reduceWhile_operator {op : Operator} (happly : p op = true) :
    reduceWhile A p values (.operator op :: held) =
      applyTop A op values >>= fun rest => reduceWhile A p rest held := by
  rw [reduceWhile, if_pos happly]
  cases applyTop A op values <;> rfl

theorem applyTop_pair (op : Operator) (a b : α) :
    applyTop A op (b :: a :: values) = A.apply op a b >>= fun c => .ok (c :: values) := by
  rw [applyTop]
  cases A.apply op a b <;> rfl

/-- Takes an opening parenthesis off the stack. -/
def close : Stacks α → Except EvalError (Stacks α)
  | ⟨values, .leftParen :: held⟩ => .ok ⟨values, held⟩
  | _ => .error .mismatchedParentheses

/-- The only value there is, when nothing waits. -/
def single : Stacks α → Except EvalError α
  | ⟨[value], []⟩ => .ok value
  | ⟨_, []⟩ => .error .invalidExpression
  | _ => .error .mismatchedParentheses

theorem push_rightParen (s : Stacks α) :
    push A s .rightParen = reduceWhile A (fun _ => true) s.values s.held >>= close := by
  rw [push]
  cases reduceWhile A (fun _ => true) s.values s.held with
  | error e => rfl
  | ok r => rcases r with ⟨values, _ | ⟨_ | _, held⟩⟩ <;> rfl

theorem push_operator (s : Stacks α) (op : Operator) :
    push A s (.operator op) =
      reduceWhile A op.yieldsTo s.values s.held >>= fun r =>
        .ok ⟨r.values, .operator op :: r.held⟩ := by
  rw [push]
  cases reduceWhile A op.yieldsTo s.values s.held <;> rfl

theorem result_eq (s : Stacks α) :
    s.result A = reduceWhile A (fun _ => true) s.values s.held >>= single := by
  rw [result]
  cases reduceWhile A (fun _ => true) s.values s.held with
  | error e => rfl
  | ok r => rcases r with ⟨_ | ⟨_, _ | _⟩, _ | _⟩ <;> rfl

-- A reduction keeps what every operator keeps that is applied.
theorem delivers_reduceWhile {failed : EvalError → Prop} {I : List α → List Held → Prop}
    (happlied : ∀ op values held, I values (.operator op :: held) →
      Delivers failed (fun rest => I rest held) (applyTop A op values)) (h : I values held) :
    Delivers failed (fun s => I s.values s.held) (reduceWhile A p values held) := by
  induction held generalizing values with
  | nil => exact h
  | cons top below ih =>
    cases top with
    | leftParen => exact h
    | operator op =>
      by_cases hop : p op = true
      · rw [reduceWhile_operator hop]
        exact (happlied op values below h).bind fun _ => ih
      · rw [reduceWhile_stop (Bool.eq_false_iff.mpr hop)]
        exact h

-- A run keeps what every token keeps. This may be about the tokens that are still to come.
theorem delivers_foldlM {failed : EvalError → Prop} {I : List (Token α) → Stacks α → Prop}
    (hpushed : ∀ t ts s, I (t :: ts) s → Delivers failed (I ts) (push A s t))
    {ts : List (Token α)} {s : Stacks α} (h : I ts s) :
    Delivers failed (I []) (ts.foldlM (push A) s) := by
  induction ts generalizing s with
  | nil => exact h
  | cons t ts ih =>
    rw [List.foldlM_cons]
    exact (hpushed t ts s h).bind fun _ => ih

-- No operator of at least this level makes an admitting stack give way.
theorem reduceWhile_yieldsTo {level : Nat} {op : Operator} (hadmits : Held.Admits level held)
    (hlevel : level ≤ op.precedence) :
    reduceWhile A op.yieldsTo values held = .ok ⟨values, held⟩ := by
  match held, hadmits with
  | [], _ => rfl
  | .leftParen :: _, _ => rfl
  | .operator waiting :: _, hright =>
    apply reduceWhile_stop
    rw [Bool.eq_false_iff, Ne, Operator.yieldsTo_iff_rightLevel]
    exact Nat.not_lt.mpr (Nat.le_trans hright hlevel)

end Stacks

theorem evaluateTokens_eq (ts : List (Token α)) :
    evaluateTokens A ts = ts.foldlM (Stacks.push A) .empty >>= fun s => s.result A := by
  rw [evaluateTokens]
  cases ts.foldlM (Stacks.push A) .empty <;> rfl

/-! ## Reading a tree -/

namespace Stacks

variable {ts : List (Token α)} {values : List α} {held : List Held} {x : Except EvalError α}

-- An operator makes the operand before it give way, and nothing that admits its level.
theorem foldlM_push_operator {level : Nat} {op : Operator}
    (hread : (ts.foldlM (push A) ⟨values, held⟩ >>= fun s =>
      reduceWhile A op.yieldsTo s.values s.held) =
        x >>= fun a => reduceWhile A op.yieldsTo (a :: values) held)
    (hadmits : Held.Admits level held) (hlevel : level ≤ op.precedence) :
    (ts.foldlM (push A) ⟨values, held⟩ >>= fun s => push A s (.operator op)) =
      x >>= fun a => .ok ⟨a :: values, .operator op :: held⟩ := by
  simp only [push_operator, ← bind_assoc]
  rw [hread, bind_assoc]
  congr 1
  funext a
  rw [reduceWhile_yieldsTo hadmits hlevel]
  rfl

-- Inside parentheses everything is applied, down to the opening one.
theorem foldlM_push_group
    (hread : (ts.foldlM (push A) ⟨values, .leftParen :: held⟩ >>= fun s =>
      reduceWhile A (fun _ => true) s.values s.held) =
        x >>= fun v => reduceWhile A (fun _ => true) (v :: values) (.leftParen :: held)) :
    (Token.leftParen :: (ts ++ [Token.rightParen])).foldlM (push A) ⟨values, held⟩ =
      x >>= fun v => .ok ⟨v :: values, held⟩ := by
  show (ts ++ [Token.rightParen]).foldlM (push A) ⟨values, .leftParen :: held⟩ = _
  rw [List.foldlM_append]
  simp only [List.foldlM_cons, List.foldlM_nil, bind_pure, push_rightParen, ← bind_assoc]
  rw [hread, bind_assoc]
  rfl

end Stacks

open Stacks in
-- Reading the tokens of a tree and then applying what is of their level or above is the same as
-- putting the value of the tree on the stack.
theorem Writes.foldlM_push {n : Nat} {t : Tree α} {ts : List (Token α)} (h : Writes n t ts)
    (values : List α) {held : List Held} (hadmits : Held.Admits n held) {p : Operator → Bool}
    (hp : ∀ op : Operator, n ≤ op.precedence → p op = true) :
    (ts.foldlM (push A) ⟨values, held⟩ >>= fun s => reduceWhile A p s.values s.held) =
      t.value A >>= fun v => reduceWhile A p (v :: values) held := by
  induction h generalizing values held p with
  | number => rfl
  | @group n t ts _ ih =>
    -- The parenthesis admits all levels.
    have hbelow : Held.Admits 0 (.leftParen :: held) := trivial
    rw [foldlM_push_group (ih values hbelow fun _ _ => rfl), bind_assoc]
    rfl
  | @binary n op left right ts us hbound _ _ ihLeft ihRight =>
    have hleftAdmits := hadmits.mono (Nat.le_trans hbound op.precedence_le_leftLevel)
    have hleft := foldlM_push_operator (ihLeft values hleftAdmits (p := op.yieldsTo)
      fun waiting => (op.yieldsTo_iff_leftLevel waiting).mpr) hadmits hbound
    have hbelow : Held.Admits op.rightLevel (.operator op :: held) := Nat.le_refl _
    have hright (a : α) := ihRight (a :: values) hbelow fun waiting hwaiting =>
      hp waiting (Nat.le_trans hbound (Nat.le_trans op.precedence_le_rightLevel hwaiting))
    rw [List.foldlM_append, Tree.value_binary]
    simp only [List.foldlM_cons, ← bind_assoc]
    rw [hleft]
    simp only [bind_assoc]
    congr 1
    funext a
    show us.foldlM (push A) ⟨a :: values, .operator op :: held⟩ >>= _ = _
    rw [hright a]
    congr 1
    funext b
    rw [reduceWhile_operator (hp op hbound), applyTop_pair, bind_assoc]
    rfl

/-- The evaluation of tokens that write a tree is that of the tree. -/
theorem Writes.evaluateTokens_eq {n : Nat} {t : Tree α} {ts : List (Token α)} (h : Writes n t ts) :
    evaluateTokens A ts = t.value A := by
  have hempty : Held.Admits 0 [] := trivial
  have hread := (h.mono (Nat.zero_le n)).foldlM_push (A := A) [] hempty (p := fun _ => true)
    fun _ _ => rfl
  rw [Expr.evaluateTokens_eq]
  simp only [Stacks.result_eq, ← bind_assoc]
  show (ts.foldlM (Stacks.push A) ⟨[], []⟩ >>= fun s =>
    Stacks.reduceWhile A (fun _ => true) s.values s.held) >>= _ = _
  rw [hread, bind_assoc]
  exact bind_pure (t.value A)

end Reckoner.Expr
