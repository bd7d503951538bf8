import Reckoner.Expr.Lexer
import Reckoner.Expr.Normal
import Reckoner.Expr.Stacks

/-!
# Evaluation — from text to value

The three passes over doubles: normal form, tokens, value.
-/

namespace Reckoner.Expr

/-- The tokens of a text, as it is. -/
def tokens (cs : List Char) : List (Token Float) := tokensBy Number.floatOfAnyScript? cs

def valueOf (ts : List (Token Float)) : Except EvalError Float := evaluateTokens .double ts

def valueOfNormal (normal : List Char) : Except EvalError Float := valueOf (tokens normal)

/-- The value of an expression. -/
def evaluate (expr : String) : Except EvalError Float :=
  match normalForm expr.toList with
  | .ok normal => valueOfNormal normal
  | .error e => .error e

end Reckoner.Expr
