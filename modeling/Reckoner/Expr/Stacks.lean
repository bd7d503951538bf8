import Reckoner.Expr.Token

/-!
# Stacks — evaluating tokens with two stacks

Values wait on one stack, operators and opening parentheses on another. An operator first applies
those above it that bind at least as tightly, or more tightly if it is right associative; a closing
parenthesis applies all down to its partner. The tokens need not form an expression: what does not
come out as one value is an error.
-/

namespace Reckoner.Expr

/-- What waits to be applied or closed. -/
inductive Held where
  | operator (op : Operator)
  | leftParen
  deriving DecidableEq, Repr, Inhabited

/-- The two stacks, top first. -/
structure Stacks (α : Type) where
  values : List α
  held : List Held
  deriving DecidableEq, Repr, Inhabited

/-- Whether a waiting operator is applied before the incoming one is put on the stack. -/
def Operator.yieldsTo (incoming waiting : Operator) : Bool :=
  match incoming.associativity with
  | .left => incoming.precedence ≤ waiting.precedence
  | .right => incoming.precedence < waiting.precedence

namespace Stacks

variable {α : Type} (A : Arithmetic α)

def empty : Stacks α := ⟨[], []⟩

/-- Applies an operator to the two topmost values. -/
def applyTop (op : Operator) : List α → Except EvalError (List α)
  | b :: a :: values => (A.apply op a b).map (· :: values)
  | _ => .error .invalidExpression

/-- Applies waiting operators from the top as long as they satisfy `p`; a parenthesis stops. -/
def reduceWhile (p : Operator → Bool) (values : List α) : List Held → Except EvalError (Stacks α)
  | .operator op :: held =>
    if p op then
      match applyTop A op values with
      | .ok values => reduceWhile p values held
      | .error e => .error e
    else .ok ⟨values, .operator op :: held⟩
  | held => .ok ⟨values, held⟩

/-- Takes one token. -/
def push (s : Stacks α) : Token α → Except EvalError (Stacks α)
  | .number _ value => .ok ⟨value :: s.values, s.held⟩
  | .leftParen => .ok ⟨s.values, .leftParen :: s.held⟩
  | .rightParen =>
    -- All that waits is applied, so what is then on top is a parenthesis if anything is.
    match reduceWhile A (fun _ => true) s.values s.held with
    | .ok ⟨values, .leftParen :: held⟩ => .ok ⟨values, held⟩
    | .ok _ => .error .mismatchedParentheses
    | .error e => .error e
  | .operator op =>
    -- What binds more tightly than this operator has both of its operands by now.
    match reduceWhile A op.yieldsTo s.values s.held with
    | .ok ⟨values, held⟩ => .ok ⟨values, .operator op :: held⟩
    | .error e => .error e
  | .unknown text => .error (.invalidToken text)

/-- The value when no token is left: all operators are applied, and one value remains. -/
def result (s : Stacks α) : Except EvalError α :=
  match reduceWhile A (fun _ => true) s.values s.held with
  | .ok ⟨[value], []⟩ => .ok value
  | .ok ⟨_, []⟩ => .error .invalidExpression
  | .ok _ => .error .mismatchedParentheses
  | .error e => .error e

end Stacks

/-- The value of a list of tokens. -/
def evaluateTokens {α : Type} (A : Arithmetic α) (tokens : List (Token α)) : Except EvalError α :=
  match tokens.foldlM (Stacks.push A) .empty with
  | .ok s => s.result A
  | .error e => .error e

end Reckoner.Expr
