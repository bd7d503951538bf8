import Reckoner.Proofs.Expr.Conservation
import Reckoner.Proofs.Expr.Runs
import Reckoner.Unguarded

/-!
# Unguarded — nothing is ever missing

Every step without guards takes what its guarded one has, and goes on to what that one goes on to.
So a run stops only with an error of the expression, and each request has an outcome that can be
shown. The only list that is not looked at before an item is taken off it is that of the tokens, and
there the minus that is taken back is always the last one.
-/

namespace Reckoner

open Reckoner.Expr

variable {α β γ : Type} {read : List Char → Option α} {A : Arithmetic α}

namespace Unguarded

/-- What comes out without guards where the outcome with guards is known: there is no other failure
than an error of the expression. -/
def mirror (g : β → γ) : Except EvalError β → Except Failure γ
  | .ok b => .ok (g b)
  | .error e => .error (.evaluation e)

theorem mirror_bind {δ ε : Type} {g : β → γ} {k : δ → ε} {x : Except EvalError β}
    {f : β → Except EvalError δ} {f' : γ → Except Failure ε}
    (h : ∀ b, x = .ok b → f' (g b) = mirror k (f b)) : mirror g x >>= f' = mirror k (x >>= f) := by
  cases x with
  | error e => rfl
  | ok b => exact h b rfl

/-! ## Tokens -/

namespace Lexeme

def ofOperator (op : Operator) : Lexeme α :=
  ⟨.operator, String.singleton op.symbol, none, some op.precedence, some op.associativity⟩

def ofToken : Token α → Lexeme α
  | .number text value => number text value
  | .operator op => ofOperator op
  | .leftParen => bare .leftParen "("
  | .rightParen => bare .rightParen ")"
  | .unknown text => bare .unknown text

theorem operatorOf_symbol (op : Operator) : operatorOf (String.singleton op.symbol) = .ok op := by
  cases op <;> rfl

theorem ofText_eq (text : List Char) :
    ofText read text = .ok (ofToken (Token.ofText read text)) := by
  unfold ofText Token.ofText
  cases hoperator : Operator.ofText? text with
  | some op =>
    rw [Operator.eq_singleton_of_ofText? hoperator]
    show operator (String.singleton op.symbol) = _
    rw [operator, operatorOf_symbol]
    rfl
  | none =>
    rw [if_neg (by exact Bool.false_ne_true)]
    show _ = Except.ok (ofToken (if text = ['('] then _ else _))
    split
    · rfl
    split
    · rfl
    · rw [Token.number?]
      cases read text <;> rfl

theorem value_ofToken (t : Token α) (h : (ofToken t).kind = .number) :
    ∃ v, (ofToken t).value = some v := by
  cases t with
  | number text value => exact ⟨value, rfl⟩
  | _ => exact nomatch h

end Lexeme

end Unguarded

/-! ## The minus that is taken back -/

namespace Expr.Lexer

/-- A minus that no literal gathers is the last token. -/
def Withdrawable (l : Lexer α) : Prop :=
  l.previous = some '-' → l.pending = [] → ∃ rest, l.emitted = .operator .sub :: rest

theorem withdrawable_step (l : Lexer α) (c : Char) : (l.step read c).Withdrawable := by
  intro hprevious hpending
  obtain rfl : c = '-' := by
    rw [previous_step] at hprevious
    exact Option.some.inj hprevious
  -- Behind a minus, and where a literal can begin, the minus is pending.
  by_cases hrun : l.previous = some '-'
  · rw [step, if_neg (by decide), if_pos ⟨rfl, hrun⟩] at hpending
    exact absurd hpending (List.cons_ne_nil _ _)
  by_cases hopens : opensLiteral l.previous = true
  · rw [step_minus l hrun hopens] at hpending
    exact absurd hpending (List.cons_ne_nil _ _)
  · rw [step_symbol l rfl fun _ => ⟨hrun, Bool.eq_false_iff.mpr hopens⟩]
    exact ⟨l.flush read, rfl⟩

theorem withdrawable_foldl {l : Lexer α} (h : l.Withdrawable) (cs : List Char) :
    (cs.foldl (step read) l).Withdrawable := by
  induction cs generalizing l with
  | nil => exact h
  | cons c cs ih => exact ih (withdrawable_step l c)

end Expr.Lexer

namespace Unguarded

namespace Scan

def ofLexer (l : Lexer α) : Scan α := ⟨l.emitted.map Lexeme.ofToken, l.pending, l.previous⟩

theorem flush_ofLexer (l : Lexer α) :
    (ofLexer l).flush read = .ok ((l.flush read).map Lexeme.ofToken) := by
  unfold flush Lexer.flush
  show (if l.pending.isEmpty then _ else _) = _
  split
  · rfl
  · show (Lexeme.ofText read l.pending.reverse).map _ = _
    rw [Lexeme.ofText_eq]
    rfl

theorem step_ofLexer {l : Lexer α} (h : l.Withdrawable) (c : Char) :
    (ofLexer l).step read c = .ok (ofLexer (l.step read c)) := by
  unfold step Lexer.step
  split
  · rfl
  show (if c = '-' ∧ l.previous = some '-' then _ else _) = _
  split
  · rename_i hrun
    show (if l.pending.isEmpty then _ else _) = _
    unfold Lexer.breakRun
    split
    · rename_i hempty
      obtain ⟨rest, hrest⟩ := h hrun.2 (List.isEmpty_iff.mp hempty)
      simp [ofLexer, hrest, pop, Except.map]
    · rfl
  · rw [flush_ofLexer, Lexeme.ofText_eq]
    show (if c = '-' ∧ opensLiteral l.previous = true then _ else _) = _
    split <;> rfl

theorem foldlM_ofLexer {l : Lexer α} (h : l.Withdrawable) (cs : List Char) :
    cs.foldlM (step read) (ofLexer l) = .ok (ofLexer (cs.foldl (Lexer.step read) l)) := by
  induction cs generalizing l with
  | nil => rfl
  | cons c cs ih =>
    rw [List.foldlM_cons, step_ofLexer h]
    exact ih (Lexer.withdrawable_step l c)

end Scan

theorem scan_eq (cs : List Char) :
    scan read cs = .ok (.ofLexer (cs.foldl (Lexer.step read) .initial)) :=
  Scan.foldlM_ofLexer (l := .initial) (fun h => nomatch h) cs

theorem tokens_eq (cs : List Char) : tokens read cs = .ok ((tokensBy read cs).map .ofToken) := by
  rw [tokens, scan_eq]
  show (Scan.flush read _ >>= _) = _
  rw [Scan.flush_ofLexer, tokensBy, List.map_reverse]
  rfl

/-! ## Stacks -/

namespace Lexeme

def ofHeld : Held → Lexeme α
  | .operator op => ofOperator op
  | .leftParen => bare .leftParen "("

theorem yieldsTo_ofOperator (incoming waiting : Operator) :
    (ofOperator incoming : Lexeme α).yieldsTo (ofOperator waiting) =
      .ok (incoming.yieldsTo waiting) := by
  cases incoming <;> cases waiting <;> rfl

theorem apply_ofOperator (op : Operator) (a b : α) :
    (ofOperator op).apply A (some a) (some b) = mirror id (A.apply op a b) := by
  rw [apply, show (ofOperator op : Lexeme α).text = String.singleton op.symbol from rfl,
    operatorOf_symbol]
  show (A.apply op a b).mapError Failure.evaluation = _
  cases A.apply op a b <;> rfl

end Lexeme

namespace Machine

variable {p : Lexeme α → Except Failure Bool} {q : Operator → Bool}

def ofStacks (s : Stacks α) : Machine α := ⟨s.values.map some, s.held.map Lexeme.ofHeld⟩

theorem applyTop_ofStacks (op : Operator) (values : List α) (held : List Held) :
    (ofStacks ⟨values, .operator op :: held⟩).applyTop A =
      mirror (fun rest => ofStacks ⟨rest, held⟩) (Stacks.applyTop A op values) := by
  match values with
  | [] => rfl
  | [_] => rfl
  | b :: a :: values =>
    change ((Lexeme.ofOperator op).apply A (some a) (some b) >>= fun value =>
      Except.ok (Machine.mk (some value :: values.map some) (held.map Lexeme.ofHeld))) = _
    rw [Lexeme.apply_ofOperator, Stacks.applyTop_pair]
    exact mirror_bind fun _ _ => rfl

theorem reduceWhile_nil (values : List (Option α)) :
    reduceWhile A p ⟨values, []⟩ = .ok ⟨values, []⟩ := by
  rw [reduceWhile]

theorem reduceWhile_cons (values : List (Option α)) (top : Lexeme α) (below : List (Lexeme α)) :
    reduceWhile A p ⟨values, top :: below⟩ = p top >>= fun goesOn =>
      if goesOn then applyTop A ⟨values, top :: below⟩ >>= reduceWhile A p
      else .ok ⟨values, top :: below⟩ := by
  rw [reduceWhile]
  dsimp only
  cases p top with
  | error e => rfl
  | ok goesOn =>
    cases goesOn with
    | false => rfl
    | true =>
      dsimp only
      cases applyTop A ⟨values, top :: below⟩ <;> rfl

-- Where a parenthesis is on top, the condition decides between an end and a failure.
theorem reduceWhile_ofStacks (stop : Except Failure Unit)
    (hoperator : ∀ op, p (.ofOperator op) = .ok (q op))
    (hparen : p (.ofHeld .leftParen) = stop.map fun _ => false) (values : List α)
    (held : List Held) :
    reduceWhile A p (ofStacks ⟨values, held⟩) =
      mirror id (Stacks.reduceWhile A q values held) >>= fun s =>
        if s.held.head? = some .leftParen then stop.map fun _ => ofStacks s
        else .ok (ofStacks s) := by
  induction held generalizing values with
  | nil => exact reduceWhile_nil _
  | cons top below ih =>
    rw [ofStacks, List.map_cons, reduceWhile_cons]
    cases top with
    | leftParen =>
      rw [hparen]
      cases stop <;> rfl
    | operator op =>
      rw [show Lexeme.ofHeld (.operator op) = (Lexeme.ofOperator op : Lexeme α) from rfl, hoperator]
      cases hop : q op with
      | false =>
        rw [Stacks.reduceWhile_stop hop]
        rfl
      | true =>
        rw [Stacks.reduceWhile_operator hop]
        show applyTop A (ofStacks ⟨values, .operator op :: below⟩) >>= _ = _
        rw [applyTop_ofStacks]
        cases Stacks.applyTop A op values with
        | error e => rfl
        | ok rest => exact ih rest

theorem reduceWhile_mirror (hoperator : ∀ op, p (.ofOperator op) = .ok (q op))
    (hparen : p (.ofHeld .leftParen) = .ok false) (s : Stacks α) :
    (ofStacks s).reduceWhile A p = mirror ofStacks (Stacks.reduceWhile A q s.values s.held) := by
  obtain ⟨values, held⟩ := s
  rw [reduceWhile_ofStacks (.ok ()) hoperator hparen]
  cases Stacks.reduceWhile A q values held with
  | error e => rfl
  | ok r => exact ite_self _

theorem push_ofStacks (s : Stacks α) (t : Token α) :
    (ofStacks s).push A (.ofToken t) = mirror ofStacks (s.push A t) := by
  cases t with
  | number | leftParen | unknown => rfl
  | operator op =>
    rw [Stacks.push_operator]
    show (ofStacks s).reduceWhile A (Lexeme.ofOperator op).yieldsTo >>= _ = _
    rw [reduceWhile_mirror (Lexeme.yieldsTo_ofOperator op) rfl]
    exact mirror_bind fun r _ => rfl
  | rightParen =>
    rw [Stacks.push_rightParen]
    show (ofStacks s).reduceWhile A _ >>= _ = _
    rw [reduceWhile_mirror (q := fun _ => true) (fun _ => rfl) rfl]
    refine mirror_bind fun r hr => ?_
    obtain ⟨values, held⟩ := r
    obtain rfl | ⟨below, rfl⟩ : held = [] ∨ ∃ below, held = .leftParen :: below :=
      Stacks.held_of_reduceWhile hr
    all_goals rfl

theorem foldlM_push_ofStacks (s : Stacks α) (ts : List (Token α)) :
    (ts.map Lexeme.ofToken).foldlM (push A) (ofStacks s) =
      mirror ofStacks (ts.foldlM (Stacks.push A) s) := by
  induction ts generalizing s with
  | nil => rfl
  | cons t ts ih =>
    rw [List.map_cons, List.foldlM_cons, List.foldlM_cons, push_ofStacks]
    exact mirror_bind fun r _ => ih r

theorem result_ofStacks (s : Stacks α) : (ofStacks s).result A = mirror some (s.result A) := by
  obtain ⟨values, held⟩ := s
  rw [Stacks.result_eq, result, reduceWhile_ofStacks (q := fun _ => true)
    (.error (.evaluation .mismatchedParentheses)) (fun _ => rfl) rfl, bind_assoc]
  refine mirror_bind fun r hr => ?_
  obtain ⟨values, held⟩ := r
  obtain rfl | ⟨below, rfl⟩ : held = [] ∨ ∃ below, held = .leftParen :: below :=
    Stacks.held_of_reduceWhile hr
  all_goals rcases values with _ | ⟨_, _ | _⟩ <;> rfl

end Machine

theorem evaluateTokens_eq (ts : List (Token α)) :
    evaluateTokens A (ts.map .ofToken) = mirror some (Expr.evaluateTokens A ts) := by
  rw [evaluateTokens, Expr.evaluateTokens_eq]
  show (ts.map Lexeme.ofToken).foldlM (Machine.push A) (.ofStacks .empty) >>= _ = _
  rw [Machine.foldlM_push_ofStacks]
  exact mirror_bind fun s _ => Machine.result_ofStacks s

/-! ## Expressions and requests -/

theorem evaluate_eq (expr : String) : evaluate expr = mirror some (Expr.evaluate expr) := by
  rw [evaluate, Expr.evaluate]
  cases normalForm expr.toList with
  | error e => rfl
  | ok normal =>
    show (tokens Number.floatOfAnyScript? normal >>= evaluateTokens .double) = _
    rw [tokens_eq]
    exact evaluateTokens_eq _

theorem handle_eq (r : Request) : handle r = .ok (Outcome.handle r) := by
  rw [handle, Outcome.handle]
  split
  · rw [evaluate_eq]
    cases Expr.evaluate r.expression <;> rfl
  · rfl

/-- Whatever the text, what is taken back is a minus between operands, and there is one. -/
theorem exists_scan (read : List Char → Option α) (cs : List Char) :
    ∃ s, scan read cs = .ok s ∧ (s.previous = some '-' → s.literal = [] →
      ∃ rest, s.tokens = .ofOperator .sub :: rest) := by
  refine ⟨_, scan_eq cs, fun hprevious hliteral => ?_⟩
  have hlast : (cs.foldl (Lexer.step read) .initial).Withdrawable :=
    Lexer.withdrawable_foldl (l := .initial) (fun h => nomatch h) cs
  obtain ⟨rest, hrest⟩ := hlast hprevious hliteral
  exact ⟨rest.map .ofToken, congrArg (List.map Lexeme.ofToken) hrest⟩

/-- What a request is answered with. -/
inductive Answers (r : Request) : Outcome → Prop where
  | rejected : r.function ≠ Request.defaultFunction →
    Answers r ⟨r.expression, none, some Outcome.invalidFunction, true⟩
  | value {v : Float} : r.function = Request.defaultFunction →
    evaluate r.expression = .ok (some v) → Answers r ⟨r.expression, some v, none, false⟩
  | error {e : EvalError} : r.function = Request.defaultFunction →
    evaluate r.expression = .error (.evaluation e) →
    Answers r ⟨r.expression, none, some e.message, false⟩

theorem answers_handle (r : Request) : Answers r (Outcome.handle r) := by
  unfold Outcome.handle
  split
  · rename_i hfunction
    have hvalue := evaluate_eq r.expression
    cases h : Expr.evaluate r.expression with
    | ok v =>
      rw [h] at hvalue
      exact .value hfunction hvalue
    | error e =>
      rw [h] at hvalue
      exact .error hfunction hvalue
  · rename_i hfunction
    exact .rejected hfunction

theorem Answers.exists_display {r : Request} {o : Outcome} (h : Answers r o) :
    ∃ shown, o.display = .text shown ∧
      o.summary? = some (r.expression ++ (if o.error = none then " = " else " -> ") ++ shown) := by
  cases h <;> exact ⟨_, rfl, rfl⟩

/-- Each request is answered, with its own expression: a function that is not known is rejected, and
else there is either a value or the message of an error. The answer can always be shown. No run on
whatever text takes an item off an empty list, looks up what is no operator or needs what is not
set; only the errors of expressions stop an evaluation. -/
theorem handle_total :
    (∀ r : Request, ∃ o, handle r = .ok o ∧ Outcome.handle r = o ∧ Answers r o ∧
      ∃ shown, o.display = .text shown ∧
        o.summary? = some (r.expression ++ (if o.error = none then " = " else " -> ") ++ shown)) ∧
      (∀ cs : List Char,
        (∃ s, scan Number.floatOfAnyScript? cs = .ok s ∧ (s.previous = some '-' → s.literal = [] →
          ∃ rest, s.tokens = .ofOperator .sub :: rest)) ∧
        ∃ ts, tokens Number.floatOfAnyScript? cs = .ok ts ∧ ts = (Expr.tokens cs).map .ofToken ∧
          ∀ t ∈ ts, t.kind = .number → ∃ v, t.value = some v) ∧
      ∀ expr : String,
        (∃ v, evaluate expr = .ok (some v) ∧ Expr.evaluate expr = .ok v) ∨
          ∃ e, evaluate expr = .error (.evaluation e) ∧ Expr.evaluate expr = .error e := by
  refine ⟨fun r => ?_, fun cs => ⟨exists_scan _ cs, ?_⟩, fun expr => ?_⟩
  · have hanswers := answers_handle r
    exact ⟨_, handle_eq r, rfl, hanswers, hanswers.exists_display⟩
  · refine ⟨_, tokens_eq cs, rfl, fun t ht => ?_⟩
    obtain ⟨u, -, rfl⟩ := List.mem_map.mp ht
    exact Lexeme.value_ofToken u
  · rw [evaluate_eq]
    cases Expr.evaluate expr with
    | ok v => exact .inl ⟨v, rfl, rfl⟩
    | error e => exact .inr ⟨e, rfl, rfl⟩

/-- A minus is taken back, so that an operator is missing. -/
theorem handle_total_minuses :
    (∃ shown, (Outcome.handle ⟨"3--2", "evaluate_expression", by decide⟩).display = .text shown) ∧
      ∃ s rest, scan Number.floatOfAnyScript? "3-".toList = .ok s ∧
        s.tokens = .ofOperator .sub :: rest := by
  obtain ⟨hrequests, htexts, -⟩ := handle_total
  obtain ⟨_, -, rfl, -, shown, hshown, -⟩ := hrequests ⟨"3--2", "evaluate_expression", by decide⟩
  obtain ⟨⟨s, hs, hlast⟩, -⟩ := htexts "3-".toList
  refine ⟨⟨shown, hshown⟩, s, ?_⟩
  rw [scan_eq] at hs
  cases hs
  obtain ⟨rest, hrest⟩ := hlast (by decide +kernel) (by decide +kernel)
  exact ⟨rest, scan_eq _, hrest⟩

end Unguarded

end Reckoner
