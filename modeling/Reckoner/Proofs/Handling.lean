import Reckoner.Proofs.Expr.Quoting
import Reckoner.Proofs.Expr.Spelled
import Reckoner.Proofs.Json.OneLine
import Reckoner.Outcome

/-!
# Handling — what becomes of one request

Each request has an outcome that can be shown. An error repeats nothing of an expression but
characters of expressions, and a value has those of numerals, so an outcome brings no line break with
it that is not in the expression.
-/

namespace Reckoner

open Text

theorem Expr.isLineBreak_of_isAllowed {c : Char} (h : isAllowed c = true) :
    isLineBreak c = false := by
  rw [Bool.eq_false_iff]
  intro hbreak
  have hblank := isBlank_of_isAllowed h
  rw [isBlank_of_isLineBreak hbreak] at hblank
  exact nomatch hblank

theorem Expr.unbroken_message {expr : String} {e : EvalError} (h : evaluate expr = .error e) :
    Unbroken e.message.toList := by
  cases e with
  | invalidToken text =>
    have hallowed := isAllowed_of_evaluate h
    exact Unbroken.append (by decide) fun c hc => isLineBreak_of_isAllowed (hallowed c hc)
  | invalidCharacter => decide
  | mismatchedParentheses => decide
  | divisionByZero => decide
  | invalidExpression => decide

theorem unbroken_amount (x : Float) : Unbroken (amount.write x).toList := by
  intro c hc
  rw [Number.Layout.write, String.toList_ofList] at hc
  refine Json.isLineBreak_of_isNumeral (Number.Layout.isNumeral_ofBinary64 hc) ?_ ?_ ?_ <;> decide

namespace Outcome

/-- What is known of the outcome of a request. -/
inductive Handled (r : Request) : Outcome → Prop where
  | value (x : Float) : Handled r ⟨r.expression, some x, none, false⟩
  | error (text : String) (h : Unbroken text.toList) :
    Handled r ⟨r.expression, none, some text, false⟩
  | rejected : Handled r ⟨r.expression, none, some invalidFunction, true⟩

theorem handled_handle (r : Request) : Handled r (handle r) := by
  unfold handle
  split
  · cases hvalue : Expr.evaluate r.expression with
    | ok x => exact .value x
    | error e => exact .error e.message (Expr.unbroken_message hvalue)
  · exact .rejected

namespace Handled

variable {r : Request} {o : Outcome}

theorem expression_eq (h : Handled r o) : o.expression = r.expression := by
  cases h <;> rfl

theorem unbroken_error (h : Handled r o) : ∀ e ∈ o.error, Unbroken e.toList := by
  intro e he
  cases h with
  | value x => exact nomatch he
  | error text h =>
    cases he
    exact h
  | rejected =>
    cases he
    decide

/-- There is something to show, and it is one line if the expression is. -/
theorem exists_summary (h : Handled r o) (hr : Unbroken r.expression.toList) :
    ∃ line, o.summary? = some line ∧ Unbroken line.toList := by
  cases h with
  | value x =>
    exact ⟨_, rfl, (hr.append (t := " = ") (by decide)).append (unbroken_amount x)⟩
  | error text h =>
    have hshown : Unbroken ("Error: " ++ text).toList := Unbroken.append (by decide) h
    exact ⟨_, rfl, (hr.append (t := " -> ") (by decide)).append hshown⟩
  | rejected =>
    exact ⟨_, rfl, (hr.append (t := " -> ") (by decide)).append (by decide)⟩

end Handled

end Outcome

end Reckoner
