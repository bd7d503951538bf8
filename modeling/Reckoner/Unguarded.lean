import Reckoner.Outcome

/-!
# Unguarded — an evaluation in which something could be missing

A `Token` has what its kind needs, and `Stacks` are taken apart by patterns. Here the same steps are
taken on data that promises nothing: a token is a tag with fields that may be unset, an operator is
looked up by its text, and the last item of a list is taken whether there is one or not. Where that
goes wrong the run stops with a failure that is no error of an expression, and that no one handles.
-/

namespace Reckoner.Unguarded

open Reckoner.Expr

variable {α : Type}

/-- Why a run stops. -/
inductive Failure where
  /-- An item was taken off an empty list. -/
  | emptyList
  /-- A text was looked up that writes no operator. -/
  | noOperator (text : String)
  /-- A field was needed that is not set. -/
  | unset
  /-- The expression is at fault. -/
  | evaluation (e : EvalError)
  deriving DecidableEq, Repr, Inhabited

/-- The item that was put on a list last, and the others. -/
def pop {β : Type} : List β → Except Failure (β × List β)
  | [] => .error .emptyList
  | b :: rest => .ok (b, rest)

def operatorOf (text : String) : Except Failure Operator :=
  match Operator.ofText? text.toList with
  | some op => .ok op
  | none => .error (.noOperator text)

/-! ## Tokens -/

inductive Kind where
  | number
  | operator
  | leftParen
  | rightParen
  | unknown
  deriving DecidableEq, Repr, Inhabited

/-- A token. Which of the fields are set does not depend on the kind. -/
structure Lexeme (α : Type) where
  kind : Kind
  text : String
  value : Option α
  precedence : Option Nat
  associativity : Option Associativity
  deriving DecidableEq, Repr, Inhabited

namespace Lexeme

def bare (kind : Kind) (text : String) : Lexeme α := ⟨kind, text, none, none, none⟩

def number (text : String) (value : α) : Lexeme α := ⟨.number, text, some value, none, none⟩

def operator (text : String) : Except Failure (Lexeme α) := do
  let op ← operatorOf text
  return ⟨.operator, text, none, some op.precedence, some op.associativity⟩

/-- The token that a text is. -/
def ofText (read : List Char → Option α) (text : List Char) : Except Failure (Lexeme α) :=
  if (Operator.ofText? text).isSome then operator (String.ofList text)
  else if text = ['('] then .ok (bare .leftParen "(")
  else if text = [')'] then .ok (bare .rightParen ")")
  else match read text with
    | some value => .ok (number (String.ofList text) value)
    | none => .ok (bare .unknown (String.ofList text))

/-- Applies the operator with the text of a token. -/
def apply (A : Arithmetic α) (t : Lexeme α) (a b : Option α) : Except Failure α := do
  let op ← operatorOf t.text
  match a, b with
  | some a, some b => (A.apply op a b).mapError .evaluation
  | _, _ => .error .unset

/-- Whether a waiting token is applied before the incoming one is put on the stack. -/
def yieldsTo (incoming waiting : Lexeme α) : Except Failure Bool :=
  if waiting.kind ≠ .operator then .ok false
  else match incoming.precedence, waiting.precedence with
    | some p, some q => .ok (if incoming.associativity = some .left then p ≤ q else p < q)
    | _, _ => .error .unset

end Lexeme

/-- What is known after some characters. -/
structure Scan (α : Type) where
  /-- The tokens so far, latest first. -/
  tokens : List (Lexeme α)
  /-- The literal being gathered, latest character first. -/
  literal : List Char
  previous : Option Char

namespace Scan

variable (read : List Char → Option α)

def flush (s : Scan α) : Except Failure (List (Lexeme α)) :=
  if s.literal.isEmpty then .ok s.tokens
  else (Lexeme.ofText read s.literal.reverse).map (· :: s.tokens)

/-- Takes one character. A minus right after a minus takes the last token back, unless a literal is
being gathered. -/
def step (s : Scan α) (c : Char) : Except Failure (Scan α) :=
  if isLiteralChar c then .ok ⟨s.tokens, c :: s.literal, some c⟩
  else if c = '-' ∧ s.previous = some '-' then
    if s.literal.isEmpty then (pop s.tokens).map fun popped => ⟨popped.2, ['-'], some c⟩
    else .ok ⟨.bare .unknown (String.ofList s.literal.reverse) :: s.tokens, ['-'], some c⟩
  else do
    let tokens ← s.flush read
    if c = '-' ∧ opensLiteral s.previous then return ⟨tokens, ['-'], some c⟩
    let t ← Lexeme.ofText read [c]
    return ⟨t :: tokens, [], some c⟩

end Scan

def scan (read : List Char → Option α) (cs : List Char) : Except Failure (Scan α) :=
  cs.foldlM (Scan.step read) ⟨[], [], none⟩

def tokens (read : List Char → Option α) (cs : List Char) : Except Failure (List (Lexeme α)) := do
  let s ← scan read cs
  let latestFirst ← s.flush read
  return latestFirst.reverse

/-! ## Stacks -/

/-- The two stacks, top first. -/
structure Machine (α : Type) where
  values : List (Option α)
  waiting : List (Lexeme α)

namespace Machine

variable (A : Arithmetic α)

/-- Applies what waits on top to the two topmost values. -/
def applyTop (s : Machine α) : Except Failure (Machine α) := do
  let (op, waiting) ← pop s.waiting
  if s.values.length < 2 then throw (.evaluation .invalidExpression)
  let (b, values) ← pop s.values
  let (a, values) ← pop values
  let value ← op.apply A a b
  return ⟨some value :: values, waiting⟩

theorem length_of_applyTop {s t : Machine α} (h : s.applyTop A = .ok t) :
    t.waiting.length < s.waiting.length := by
  obtain ⟨values, waiting⟩ := s
  match waiting, values with
  | [], _ => exact nomatch h
  | _ :: _, [] => exact nomatch h
  | _ :: _, [_] => exact nomatch h
  | op :: waiting, b :: a :: values =>
    change (op.apply A a b >>= fun value => .ok ⟨some value :: values, waiting⟩) = Except.ok t at h
    cases hvalue : op.apply A a b with
    | error e =>
      rw [hvalue] at h
      exact nomatch h
    | ok value =>
      rw [hvalue] at h
      cases h
      exact Nat.lt_succ_self _

/-- Applies what waits, from the top, as long as it satisfies `p`. -/
def reduceWhile (p : Lexeme α → Except Failure Bool) (s : Machine α) :
    Except Failure (Machine α) :=
  match s.waiting with
  | [] => .ok s
  | top :: _ =>
    match p top with
    | .ok true =>
      match _h : s.applyTop A with
      | .ok t => reduceWhile p t
      | .error e => .error e
    | .ok false => .ok s
    | .error e => .error e
termination_by s.waiting.length
decreasing_by exact length_of_applyTop A _h

/-- Takes one token. -/
def push (s : Machine α) (t : Lexeme α) : Except Failure (Machine α) :=
  match t.kind with
  | .number => .ok ⟨t.value :: s.values, s.waiting⟩
  | .leftParen => .ok ⟨s.values, t :: s.waiting⟩
  | .rightParen => do
    let s ← s.reduceWhile A fun top => .ok (top.kind ≠ .leftParen)
    if s.waiting.isEmpty then throw (.evaluation .mismatchedParentheses)
    let (_, waiting) ← pop s.waiting
    return ⟨s.values, waiting⟩
  | .operator => do
    let s ← s.reduceWhile A t.yieldsTo
    return ⟨s.values, t :: s.waiting⟩
  | .unknown => .error (.evaluation (.invalidToken t.text))

/-- The value when no token is left. -/
def result (s : Machine α) : Except Failure (Option α) := do
  let s ← s.reduceWhile A fun top =>
    if top.kind = .operator then .ok true else .error (.evaluation .mismatchedParentheses)
  if s.values.length ≠ 1 then throw (.evaluation .invalidExpression)
  let (value, _) ← pop s.values
  return value

end Machine

def evaluateTokens (A : Arithmetic α) (ts : List (Lexeme α)) : Except Failure (Option α) := do
  let s ← ts.foldlM (Machine.push A) ⟨[], []⟩
  s.result A

/-! ## Requests -/

/-- The value of an expression, which may be unset. -/
def evaluate (expr : String) : Except Failure (Option Float) :=
  match normalForm expr.toList with
  | .ok normal => do
    let ts ← tokens Number.floatOfAnyScript? normal
    evaluateTokens .double ts
  | .error e => .error (.evaluation e)

/-- The answer to a request. Only what is wrong with the expression is handled. -/
def handle (r : Request) : Except Failure Outcome :=
  if r.function = Request.defaultFunction then
    match evaluate r.expression with
    | .ok result => .ok ⟨r.expression, result, none, false⟩
    | .error (.evaluation e) => .ok ⟨r.expression, none, some e.message, false⟩
    | .error failure => .error failure
  else .ok ⟨r.expression, none, some Outcome.invalidFunction, true⟩

end Reckoner.Unguarded
