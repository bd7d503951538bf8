import Reckoner.Expr.EvalError
import Reckoner.Text.Blank

/-!
# Normal — expressions without blanks and omissions

The normal form of an expression has no blanks and all of its multiplication signs. A digit or a
closing parenthesis right before a digit or an opening parenthesis stands for a product, so the
digits of `234` are three factors. Only characters that can belong to an expression are let through.
-/

namespace Reckoner.Expr

/-- Whether two neighbours stand for a product. -/
def multiplies (c d : Char) : Bool :=
  (c.isDigit || c == ')') && (d.isDigit || d == '(')

theorem multiplies_star (c : Char) : multiplies c '*' = false := by
  simp [multiplies]

theorem star_multiplies (d : Char) : multiplies '*' d = false := by
  simp [multiplies]

/-- One character in front of a text whose products are written out. -/
def prependFactor (c : Char) (rest : List Char) : List Char :=
  match rest with
  | [] => [c]
  | d :: _ => if multiplies c d then c :: '*' :: rest else c :: rest

/-- The text with a multiplication sign between any two neighbours that stand for a product. -/
def writeProducts (cs : List Char) : List Char := cs.foldr prependFactor []

def isAllowed (c : Char) : Bool :=
  c.isDigit || c == '+' || c == '-' || c == '*' || c == '/' || c == '^' || c == '(' || c == ')'
    || c == '.'

def compact (cs : List Char) : List Char := cs.filter (!Text.isBlank ·)

/-- The normal form of an expression. -/
def normalForm (cs : List Char) : Except EvalError (List Char) :=
  let normal := writeProducts (compact cs)
  if normal.all isAllowed then .ok normal else .error .invalidCharacter

end Reckoner.Expr
