import Reckoner.Expr.Operator
import Reckoner.Number.Reading
import Reckoner.Text.Quoted

/-!
# Token — lexemes of an expression

A token keeps the text that it was read from. Text that is no operator, no parenthesis and no number
is a token too, an unknown one; evaluation refuses it. Which texts are numbers is a parameter.
-/

namespace Reckoner.Expr

/-- A lexeme, with the value that it has if it is a number. -/
inductive Token (α : Type) where
  | number (text : String) (value : α)
  | operator (op : Operator)
  | leftParen
  | rightParen
  | unknown (text : String)
  deriving DecidableEq, Repr, Inhabited

namespace Token

variable {α : Type}

def text : Token α → String
  | .number text _ => text
  | .operator op => String.singleton op.symbol
  | .leftParen => "("
  | .rightParen => ")"
  | .unknown text => text

def kind : Token α → String
  | .number .. => "number"
  | .operator _ => "operator"
  | .leftParen => "left_paren"
  | .rightParen => "right_paren"
  | .unknown _ => "unknown"

def value? : Token α → Option α
  | .number _ value => some value
  | _ => none

def operator? : Token α → Option Operator
  | .operator op => some op
  | _ => none

def number? (read : List Char → Option α) (text : List Char) : Option (Token α) :=
  (read text).map (.number (String.ofList text))

/-- What is said of a text that is no number. -/
def unreadableMessage (text : String) : String :=
  "could not convert string to float: " ++ Text.quoted text

/-- The token that a text is: an operator, a parenthesis, a number, or unknown. -/
def ofText (read : List Char → Option α) (text : List Char) : Token α :=
  match Operator.ofText? text with
  | some op => .operator op
  | none =>
    if text = ['('] then .leftParen
    else if text = [')'] then .rightParen
    else (number? read text).getD (.unknown (String.ofList text))

end Token

end Reckoner.Expr
