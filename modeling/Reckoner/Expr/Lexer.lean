import Reckoner.Expr.Token

/-!
# Lexer — expressions as tokens

Digits and points gather into a literal. A minus belongs to the literal after it at the start of the
text and right after `+`, `-`, `*`, `/`, `^` or an opening parenthesis; elsewhere it is an operator.

Minuses are not chained. The second of two begins a literal as well, and the first one is withdrawn
if it was taken for an operator, or becomes an unknown token if it had begun a literal; either way
the evaluation fails.
-/

namespace Reckoner.Expr

def isLiteralChar (c : Char) : Bool := c.isDigit || c == '.'

/-- Whether a minus after this character begins a literal; at the start it does. -/
def opensLiteral : Option Char → Bool
  | none => true
  | some c => c == '+' || c == '-' || c == '*' || c == '/' || c == '(' || c == '^'

/-- What the lexer knows after some characters. -/
structure Lexer (α : Type) where
  /-- The tokens so far, latest first. -/
  emitted : List (Token α)
  /-- The literal being gathered, latest character first. -/
  pending : List Char
  previous : Option Char

namespace Lexer

variable {α : Type}

def initial : Lexer α := ⟨[], [], none⟩

/-- The tokens with the gathered literal among them, latest first. -/
def flush (read : List Char → Option α) (l : Lexer α) : List (Token α) :=
  if l.pending.isEmpty then l.emitted
  else Token.ofText read l.pending.reverse :: l.emitted

/-- What a minus right after a minus leaves of the tokens: without a literal to gather the last
token, which is that minus, is withdrawn. -/
def breakRun (l : Lexer α) : List (Token α) :=
  if l.pending.isEmpty then l.emitted.tail
  else .unknown (String.ofList l.pending.reverse) :: l.emitted

/-- Takes one character. -/
def step (read : List Char → Option α) (l : Lexer α) (c : Char) : Lexer α :=
  if isLiteralChar c then ⟨l.emitted, c :: l.pending, some c⟩
  -- The first minus of a run has become an operator or stands in the gathered literal.
  else if c = '-' ∧ l.previous = some '-' then ⟨l.breakRun, ['-'], some c⟩
  else if c = '-' ∧ opensLiteral l.previous then ⟨l.flush read, ['-'], some c⟩
  -- Any other character ends the literal and is a token by itself.
  else ⟨Token.ofText read [c] :: l.flush read, [], some c⟩

end Lexer

/-- The tokens of a text, where `read` tells numbers. -/
def tokensBy {α : Type} (read : List Char → Option α) (cs : List Char) : List (Token α) :=
  ((cs.foldl (Lexer.step read) .initial).flush read).reverse

end Reckoner.Expr
