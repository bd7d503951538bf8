import Reckoner.Expr.EvalError
import Reckoner.Number.Power

/-!
# Operator — the five binary operators

The table of operators: symbol, precedence, associativity and what each does. What they do is a
parameter, `Arithmetic`; evaluation needs nothing of it but a test for zero, which decides whether a
quotient is defined.
-/

namespace Reckoner.Expr

/-- Which of two operators of equal precedence binds first. -/
inductive Associativity where
  | left
  | right
  deriving DecidableEq, Repr, Inhabited

def Associativity.letter : Associativity → String
  | .left => "L"
  | .right => "R"

inductive Operator where
  | add
  | sub
  | mul
  | div
  | pow
  deriving DecidableEq, Repr, Inhabited

namespace Operator

def symbol : Operator → Char
  | .add => '+'
  | .sub => '-'
  | .mul => '*'
  | .div => '/'
  | .pow => '^'

def ofSymbol? : Char → Option Operator
  | '+' => some .add
  | '-' => some .sub
  | '*' => some .mul
  | '/' => some .div
  | '^' => some .pow
  | _ => none

/-- The operator that a text of one character writes. -/
def ofText? : List Char → Option Operator
  | [c] => ofSymbol? c
  | _ => none

/-- How tightly an operator binds. -/
def precedence : Operator → Nat
  | .add => 1
  | .sub => 1
  | .mul => 2
  | .div => 2
  | .pow => 3

/-- Powers are taken from the right, all else from the left. -/
def associativity : Operator → Associativity
  | .pow => .right
  | _ => .left

theorem ofSymbol?_symbol (op : Operator) : ofSymbol? op.symbol = some op := by
  cases op <;> rfl

end Operator

/-- The arithmetic that gives the operators their meaning. -/
structure Arithmetic (α : Type) where
  add : α → α → α
  sub : α → α → α
  mul : α → α → α
  div : α → α → α
  pow : α → α → α
  isZero : α → Bool

namespace Arithmetic

/-- An operator applied to two values. A quotient by zero is refused. -/
def apply {α : Type} (A : Arithmetic α) : Operator → α → α → Except EvalError α
  | .add, a, b => .ok (A.add a b)
  | .sub, a, b => .ok (A.sub a b)
  | .mul, a, b => .ok (A.mul a b)
  | .div, a, b => if A.isZero b then .error .divisionByZero else .ok (A.div a b)
  | .pow, a, b => .ok (A.pow a b)

/-- Arithmetic on doubles. Both zeros are zero. -/
def double : Arithmetic Float where
  add := (· + ·)
  sub := (· - ·)
  mul := (· * ·)
  div := (· / ·)
  pow := Number.power
  isZero := (· == 0)

end Arithmetic

end Reckoner.Expr
