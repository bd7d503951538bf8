import Reckoner.Proofs.Expr.Writing

/-!
# Conservation — what the two stacks keep

An operator that is applied takes one value and itself away, a number adds a value, an operator that
is put on the stack adds itself. So the numbers and operators read are known from the sizes of the
stacks, and so are the parentheses: an evaluation that succeeds has read one number more than
operators and has closed its parentheses in order, whatever else the tokens look like.
-/

namespace Reckoner.Expr

variable {α : Type} {A : Arithmetic α}

/-! ## Counting -/

namespace Token

def isNumber : Token α → Bool
  | .number .. => true
  | _ => false

def isOperator : Token α → Bool
  | .operator _ => true
  | _ => false

def isUnknown : Token α → Bool
  | .unknown _ => true
  | _ => false

end Token

/-- How many numbers there are among the tokens. -/
def numbers (ts : List (Token α)) : Nat := ts.countP Token.isNumber

/-- How many operators there are among the tokens. -/
def operators (ts : List (Token α)) : Nat := ts.countP Token.isOperator

/-- Whether the parentheses are closed in order, when so many are open before the tokens. -/
def closesFrom : Nat → List (Token α) → Bool
  | depth, [] => depth == 0
  | depth, .leftParen :: ts => closesFrom (depth + 1) ts
  | 0, .rightParen :: _ => false
  | depth + 1, .rightParen :: ts => closesFrom depth ts
  | depth, _ :: ts => closesFrom depth ts

namespace Held

def isOperator : Held → Bool
  | .operator _ => true
  | .leftParen => false

def isLeftParen : Held → Bool
  | .operator _ => false
  | .leftParen => true

/-- How many operators wait. -/
def waiting (held : List Held) : Nat := held.countP isOperator

/-- How many parentheses are open. -/
def depth (held : List Held) : Nat := held.countP isLeftParen

@[simp] theorem waiting_operator (op : Operator) (held : List Held) :
    waiting (.operator op :: held) = waiting held + 1 := List.countP_cons_of_pos rfl

@[simp] theorem waiting_leftParen (held : List Held) :
    waiting (.leftParen :: held) = waiting held := List.countP_cons_of_neg Bool.false_ne_true

@[simp] theorem depth_operator (op : Operator) (held : List Held) :
    depth (.operator op :: held) = depth held := List.countP_cons_of_neg Bool.false_ne_true

@[simp] theorem depth_leftParen (held : List Held) :
    depth (.leftParen :: held) = depth held + 1 := List.countP_cons_of_pos rfl

theorem waiting_applied (applied : List Operator) (held : List Held) :
    waiting (applied.map .operator ++ held) = waiting held + applied.length := by
  induction applied with
  | nil => rfl
  | cons op applied ih =>
    rw [List.map_cons, List.cons_append, waiting_operator, ih, List.length_cons]
    omega

theorem depth_applied (applied : List Operator) (held : List Held) :
    depth (applied.map .operator ++ held) = depth held := by
  induction applied with
  | nil => rfl
  | cons op applied ih => rw [List.map_cons, List.cons_append, depth_operator, ih]

end Held

/-! ## What one reduction and one token do -/

namespace Stacks

variable {p : Operator → Bool} {values : List α} {held : List Held} {s s' : Stacks α}

theorem length_of_applyTop {op : Operator} {rest : List α}
    (h : applyTop A op values = .ok rest) : values.length = rest.length + 1 := by
  rcases values with _ | ⟨b, _ | ⟨a, values⟩⟩
  · cases h
  · cases h
  · rw [applyTop_pair] at h
    obtain ⟨c, -, h⟩ := exists_of_bind_eq_ok h
    cases h
    rfl

-- A reduction takes operators off the top, as long as they satisfy the condition, and one value
-- for each of them.
theorem reduceWhile_eq_ok (h : reduceWhile A p values held = .ok s) :
    ∃ applied : List Operator, held = applied.map .operator ++ s.held ∧
      values.length = s.values.length + applied.length ∧ (∀ op ∈ applied, p op = true) ∧
      ∀ op below, s.held = .operator op :: below → p op = false := by
  induction held generalizing values with
  | nil =>
    cases h
    exact ⟨[], rfl, rfl, List.forall_mem_nil _, fun _ _ hheld => (nomatch hheld)⟩
  | cons top below ih =>
    cases top with
    | leftParen =>
      cases h
      exact ⟨[], rfl, rfl, List.forall_mem_nil _, fun _ _ hheld => (nomatch hheld)⟩
    | operator op =>
      by_cases hop : p op = true
      · rw [reduceWhile_operator hop] at h
        obtain ⟨rest, hrest, h⟩ := exists_of_bind_eq_ok h
        obtain ⟨applied, rfl, hlength, hall, hstop⟩ := ih h
        refine ⟨op :: applied, rfl, ?_, ?_, hstop⟩
        · rw [length_of_applyTop hrest, hlength, List.length_cons]
          omega
        · intro other hmem
          rcases List.mem_cons.mp hmem with rfl | hmem
          · exact hop
          · exact hall other hmem
      · rw [Bool.not_eq_true] at hop
        rw [reduceWhile_stop hop] at h
        cases h
        refine ⟨[], rfl, rfl, List.forall_mem_nil _, fun other below hheld => ?_⟩
        cases hheld
        exact hop

-- When everything is applied, a parenthesis is on top if anything is.
theorem held_of_reduceWhile (h : reduceWhile A (fun _ => true) values held = .ok s) :
    s.held = [] ∨ ∃ below, s.held = .leftParen :: below := by
  obtain ⟨-, -, -, -, hstop⟩ := reduceWhile_eq_ok h
  match hheld : s.held with
  | [] => exact .inl rfl
  | .leftParen :: below => exact .inr ⟨below, rfl⟩
  | .operator op :: below => exact nomatch hstop op below hheld

/-- All that one token can do. -/
inductive Pushed (s s' : Stacks α) : Token α → Prop where
  | number (text : String) (value : α) : s' = ⟨value :: s.values, s.held⟩ →
    Pushed s s' (.number text value)
  | leftParen : s' = ⟨s.values, .leftParen :: s.held⟩ → Pushed s s' .leftParen
  | rightParen (applied : List Operator) :
    s.held = applied.map .operator ++ .leftParen :: s'.held →
    s.values.length = s'.values.length + applied.length → Pushed s s' .rightParen
  | operator (op : Operator) (applied : List Operator) (below : List Held) :
    s.held = applied.map .operator ++ below → s'.held = .operator op :: below →
    s.values.length = s'.values.length + applied.length →
    (∀ waiting ∈ applied, op.yieldsTo waiting = true) →
    (∀ waiting rest, below = .operator waiting :: rest → op.yieldsTo waiting = false) →
    Pushed s s' (.operator op)

theorem pushed_of_push {t : Token α} (h : push A s t = .ok s') : Pushed s s' t := by
  cases t with
  | number text value =>
    cases h
    exact .number text value rfl
  | leftParen =>
    cases h
    exact .leftParen rfl
  | rightParen =>
    rw [push_rightParen] at h
    obtain ⟨r, hreduced, hclose⟩ := exists_of_bind_eq_ok h
    obtain ⟨applied, hheld, hlength, -, -⟩ := reduceWhile_eq_ok hreduced
    match r, hclose with
    | ⟨values, .leftParen :: below⟩, hclose =>
      cases hclose
      exact .rightParen applied hheld hlength
  | operator op =>
    rw [push_operator] at h
    obtain ⟨r, hreduced, hpush⟩ := exists_of_bind_eq_ok h
    obtain ⟨applied, hheld, hlength, hall, hstop⟩ := reduceWhile_eq_ok hreduced
    cases hpush
    exact .operator op applied r.held hheld rfl hlength hall hstop
  | unknown text => exact nomatch h

theorem eq_of_single {v : α} (h : single s = .ok v) : s = ⟨[v], []⟩ := by
  rcases s with ⟨_ | ⟨value, _ | _⟩, _ | _⟩ <;> cases h
  rfl

theorem result_eq_ok {v : α} (h : s.result A = .ok v) :
    s.values.length = Held.waiting s.held + 1 ∧ Held.depth s.held = 0 := by
  rw [result_eq] at h
  obtain ⟨r, hreduced, hsingle⟩ := exists_of_bind_eq_ok h
  obtain ⟨applied, hheld, hlength, -, -⟩ := reduceWhile_eq_ok hreduced
  obtain rfl := eq_of_single hsingle
  rw [hheld, Held.waiting_applied, Held.depth_applied, hlength]
  exact ⟨show 1 + applied.length = 0 + applied.length + 1 by omega, rfl⟩

theorem foldlM_push_cons {t : Token α} {ts : List (Token α)}
    (h : (t :: ts).foldlM (push A) s = .ok s') :
    ∃ next, Pushed s next t ∧ ts.foldlM (push A) next = .ok s' := by
  rw [List.foldlM_cons] at h
  obtain ⟨next, hnext, hrest⟩ := exists_of_bind_eq_ok h
  exact ⟨next, pushed_of_push hnext, hrest⟩

/-! ## What a whole run does -/

-- Numbers become values, and each operator that no longer waits has used one up.
theorem length_values_of_foldlM {ts : List (Token α)} (h : ts.foldlM (push A) s = .ok s') :
    s.values.length + numbers ts + Held.waiting s'.held =
      s'.values.length + operators ts + Held.waiting s.held := by
  induction ts generalizing s with
  | nil =>
    cases h
    rfl
  | cons t ts ih =>
    obtain ⟨next, hpushed, hrest⟩ := foldlM_push_cons h
    have hlater := ih hrest
    unfold numbers operators at hlater ⊢
    rw [List.countP_cons, List.countP_cons]
    cases hpushed with
    | number text value hnext =>
      subst hnext
      simp only [Token.isNumber, Token.isOperator, List.length_cons] at hlater ⊢
      simp only [if_true, Bool.false_eq_true, if_false]
      omega
    | leftParen hnext =>
      subst hnext
      simp only [Token.isNumber, Token.isOperator, Held.waiting_leftParen] at hlater ⊢
      simp only [Bool.false_eq_true, if_false]
      omega
    | rightParen applied hheld hlength =>
      rw [hheld, Held.waiting_applied, Held.waiting_leftParen]
      simp only [Token.isNumber, Token.isOperator, Bool.false_eq_true, if_false]
      omega
    | operator op applied below hheld hnext hlength _ _ =>
      rw [hnext, Held.waiting_operator] at hlater
      rw [hheld, Held.waiting_applied]
      simp only [Token.isNumber, Token.isOperator, if_true, Bool.false_eq_true, if_false]
      omega

-- A run that leaves no parenthesis open has closed those that were open before it.
theorem closesFrom_of_foldlM {ts : List (Token α)} (h : ts.foldlM (push A) s = .ok s')
    (hclosed : Held.depth s'.held = 0) : closesFrom (Held.depth s.held) ts = true := by
  induction ts generalizing s with
  | nil =>
    cases h
    rw [hclosed]
    rfl
  | cons t ts ih =>
    obtain ⟨next, hpushed, hrest⟩ := foldlM_push_cons h
    have hlater := ih hrest
    cases hpushed with
    | number text value hnext =>
      subst hnext
      exact hlater
    | leftParen hnext =>
      subst hnext
      rw [Held.depth_leftParen] at hlater
      exact hlater
    | rightParen applied hheld _ =>
      rw [hheld, Held.depth_applied, Held.depth_leftParen]
      exact hlater
    | operator op applied below hheld hnext _ _ _ =>
      rw [hnext, Held.depth_operator] at hlater
      rw [hheld, Held.depth_applied]
      exact hlater

theorem isUnknown_of_foldlM {ts : List (Token α)} (h : ts.foldlM (push A) s = .ok s') :
    ∀ t ∈ ts, t.isUnknown = false := by
  induction ts generalizing s with
  | nil => exact fun _ hmem => nomatch hmem
  | cons t ts ih =>
    obtain ⟨next, hpushed, hrest⟩ := foldlM_push_cons h
    intro u hmem
    rcases List.mem_cons.mp hmem with rfl | hmem
    · cases hpushed <;> rfl
    · exact ih hrest u hmem

end Stacks

/-- What is known of all tokens that have a value. -/
structure WellCounted (ts : List (Token α)) : Prop where
  known : ∀ t ∈ ts, t.isUnknown = false
  closes : closesFrom 0 ts = true
  count : numbers ts = operators ts + 1

theorem wellCounted_of_evaluateTokens {ts : List (Token α)} {v : α}
    (h : evaluateTokens A ts = .ok v) : WellCounted ts := by
  rw [evaluateTokens_eq] at h
  obtain ⟨s, hrun, hresult⟩ := exists_of_bind_eq_ok h
  obtain ⟨hlength, hdepth⟩ := Stacks.result_eq_ok hresult
  have hcount := Stacks.length_values_of_foldlM hrun
  refine ⟨Stacks.isUnknown_of_foldlM hrun, Stacks.closesFrom_of_foldlM hrun hdepth, ?_⟩
  change 0 + numbers ts + _ = _ + operators ts + 0 at hcount
  omega

end Reckoner.Expr
