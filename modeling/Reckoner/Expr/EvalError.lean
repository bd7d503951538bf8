/-!
# EvalError — why an expression has no value

Five causes, each with a kind that programs can tell apart and a message for people. A `Report` is
an error as it is handed on: the wording may be another one, and the kind may be left open.
-/

namespace Reckoner.Expr

inductive ErrorKind where
  | invalidCharacter
  | invalidToken
  | mismatchedParentheses
  | divisionByZero
  | invalidExpression
  deriving DecidableEq, Repr, Inhabited

namespace ErrorKind

def name : ErrorKind → String
  | .invalidCharacter => "InvalidCharacter"
  | .invalidToken => "InvalidToken"
  | .mismatchedParentheses => "MismatchedParentheses"
  | .divisionByZero => "DivisionByZero"
  | .invalidExpression => "InvalidExpression"

/-- What is said of a failure of this kind if nothing more is known. -/
def defaultMessage : ErrorKind → String
  | .invalidCharacter => "Invalid characters in expression"
  | .invalidToken => "Invalid token"
  | .mismatchedParentheses => "Mismatched parentheses"
  | .divisionByZero => "Division by zero"
  | .invalidExpression => "Invalid expression"

end ErrorKind

/-- What went wrong in an evaluation. -/
inductive EvalError where
  | invalidCharacter
  /-- A lexeme that is neither a number nor an operator nor a parenthesis. -/
  | invalidToken (text : String)
  | mismatchedParentheses
  | divisionByZero
  | invalidExpression
  deriving DecidableEq, Repr, Inhabited

namespace EvalError

def kind : EvalError → ErrorKind
  | .invalidCharacter => .invalidCharacter
  | .invalidToken _ => .invalidToken
  | .mismatchedParentheses => .mismatchedParentheses
  | .divisionByZero => .divisionByZero
  | .invalidExpression => .invalidExpression

/-- The text shown for an error; an invalid token is named. -/
def message : EvalError → String
  | .invalidToken text => "Invalid token: " ++ text
  | error => error.kind.defaultMessage

end EvalError

/-- An error as it is handed on. -/
structure Report where
  /-- The kind, unless it is left open. -/
  kind : Option ErrorKind
  message : String
  /-- The lexeme at fault, where there is one. -/
  token : Option String
  deriving DecidableEq, Repr, Inhabited

namespace Report

/-- What is said of a failure of a kind, or of one of which not even that is known. -/
def defaultMessage : Option ErrorKind → String
  | some kind => kind.defaultMessage
  | none => "Evaluation failed"

/-- A report with its own wording; without one, or with an empty one, the default is used. -/
def worded (kind : Option ErrorKind) : Option String → Report
  | some message => ⟨kind, if message.isEmpty then defaultMessage kind else message, none⟩
  | none => ⟨kind, defaultMessage kind, none⟩

/-- A report about a lexeme, which may be missing. -/
def ofToken (token : Option String) : Report :=
  ⟨some .invalidToken, (EvalError.invalidToken (token.getD "None")).message, token⟩

end Report

end Reckoner.Expr
