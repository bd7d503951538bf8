/-!
# Fault — what is wrong with the fields of a record

A record read from data is refused with one fault for each wrong field, in the order in which the
record declares its fields. A fault of the record as a whole names no field.
-/

namespace Reckoner.Record

/-- What is wrong with a field or a record. -/
inductive Cause where
  | missing
  | notText
  | blankExpression
  | notNumber
  | unreadableNumber
  | notInteger
  | unreadableInteger
  | integerTooLong
  | fractional
  | notFinite
  | tooSmall
  | tooLarge
  | notFlag
  | unreadableFlag
  | notAddress
  | frozen
  | notRecord
  | notJson
  deriving DecidableEq, Repr, Inhabited

/-- What is said of an expression with nothing but blanks. -/
def blankExpressionMessage : String := "Expression cannot be empty"

/-- One fault of a record. -/
structure Fault where
  /-- The field at fault; none is named if it is the record. -/
  field : Option String
  cause : Cause
  deriving DecidableEq, Repr, Inhabited

/-- A record, or all of its faults. -/
abbrev Checked (α : Type) : Type := Except (List Fault) α

namespace Checked

/-- A checked function applied to a checked argument, with the faults of both. -/
def apply {α β : Type} : Checked (α → β) → Checked α → Checked β
  | .ok f, .ok a => .ok (f a)
  | .ok _, .error faults => .error faults
  | .error faults, .ok _ => .error faults
  | .error first, .error second => .error (first ++ second)

/-- A value or the cause why it is none, as that of a field. -/
def ofField {α : Type} (name : String) : Except Cause α → Checked α
  | .ok a => .ok a
  | .error cause => .error [⟨some name, cause⟩]

/-- A record with one fault of its own. -/
def refuse {α : Type} (cause : Cause) : Checked α := .error [⟨none, cause⟩]

end Checked

end Reckoner.Record
