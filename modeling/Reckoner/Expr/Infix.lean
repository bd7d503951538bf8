import Reckoner.Expr.Token

/-!
# Infix — expressions as trees, and the tokens that write them

What tokens mean that are written in the usual way, operands with operators between them. A `Tree`
says which operator is applied to what. `Writes` has the rules by which tokens write a tree: its
levels are the precedences, so a list of tokens is read in the one way that the table of operators
demands.

* `IsInfix` is the grammar without levels: which lists of tokens are written in this way at all.
* A tree fails to have a value only by a division by zero.
-/

namespace Reckoner.Expr

variable {α : Type}

/-- How tightly the left operand of an operator has to bind. -/
def Operator.leftLevel (op : Operator) : Nat :=
  match op.associativity with
  | .left => op.precedence
  | .right => op.precedence + 1

/-- How tightly the right operand of an operator has to bind. -/
def Operator.rightLevel (op : Operator) : Nat :=
  match op.associativity with
  | .left => op.precedence + 1
  | .right => op.precedence

/-- A number, or an operator applied to two expressions. -/
inductive Tree (α : Type) where
  | number (text : String) (value : α)
  | binary (op : Operator) (left right : Tree α)
  deriving DecidableEq, Repr, Inhabited

/-- The value of a tree; it has none if it divides by zero anywhere. -/
def Tree.value (A : Arithmetic α) : Tree α → Except EvalError α
  | .number _ value => .ok value
  | .binary op left right =>
    match left.value A, right.value A with
    | .ok a, .ok b => A.apply op a b
    | .ok _, .error e => .error e
    | .error e, _ => .error e

theorem Arithmetic.eq_divisionByZero_of_apply {A : Arithmetic α} {op : Operator} {a b : α}
    {e : EvalError} (h : A.apply op a b = .error e) : e = .divisionByZero := by
  cases op with
  | div =>
    simp only [Arithmetic.apply] at h
    split at h
    · exact (Except.error.inj h).symm
    · exact nomatch h
  | _ => exact nomatch h

theorem Tree.eq_divisionByZero_of_value {A : Arithmetic α} {t : Tree α} {e : EvalError}
    (h : t.value A = .error e) : e = .divisionByZero := by
  induction t with
  | number => exact nomatch h
  | binary op left right ihLeft ihRight =>
    simp only [Tree.value] at h
    split at h
    · exact Arithmetic.eq_divisionByZero_of_apply h
    · rename_i failed
      exact ihRight (failed.trans h)
    · rename_i failed
      exact ihLeft (failed.trans h)

/-- `Writes n t ts`: the tokens `ts` write the tree `t`, and outside of parentheses there is no
operator in them that binds less tightly than `n`. -/
inductive Writes : Nat → Tree α → List (Token α) → Prop where
  | number (n : Nat) (text : String) (value : α) :
    Writes n (.number text value) [.number text value]
  | group (n : Nat) {t : Tree α} {ts : List (Token α)} :
    Writes 0 t ts → Writes n t (.leftParen :: (ts ++ [.rightParen]))
  | binary {n : Nat} {op : Operator} {left right : Tree α} {ts us : List (Token α)} :
    n ≤ op.precedence → Writes op.leftLevel left ts → Writes op.rightLevel right us →
      Writes n (.binary op left right) (ts ++ .operator op :: us)

mutual

/-- A number, or an expression in parentheses. -/
inductive IsOperand : List (Token α) → Prop where
  | number (text : String) (value : α) : IsOperand [.number text value]
  | group {ts : List (Token α)} : IsInfix ts → IsOperand (.leftParen :: (ts ++ [.rightParen]))

/-- Operands with one operator between any two of them. -/
inductive IsInfix : List (Token α) → Prop where
  | operand {ts : List (Token α)} : IsOperand ts → IsInfix ts
  | chain {ts us : List (Token α)} (op : Operator) :
    IsOperand ts → IsInfix us → IsInfix (ts ++ .operator op :: us)

end

-- Two expressions with an operator between them are one.
theorem IsInfix.join {ts us : List (Token α)} (op : Operator) :
    IsInfix ts → IsInfix us → IsInfix (ts ++ .operator op :: us)
  | .operand first, rest => .chain op first rest
  | .chain inner first others, rest => by
    rw [List.append_assoc]
    exact .chain inner first (others.join op rest)

namespace Writes

variable {m n : Nat} {t : Tree α} {ts : List (Token α)}

-- What binds tightly enough for one level does so for the levels below.
theorem mono (le : m ≤ n) (h : Writes n t ts) : Writes m t ts := by
  cases h with
  | number => exact .number m _ _
  | group _ inner => exact .group m inner
  | binary bound left right => exact .binary (Nat.le_trans le bound) left right

theorem isInfix (h : Writes n t ts) : IsInfix ts := by
  induction h with
  | number _ text value => exact .operand (.number text value)
  | group _ _ ih => exact .operand (.group ih)
  | binary _ _ _ left right => exact left.join _ right

end Writes

end Reckoner.Expr
