import Mathlib.Data.List.Chain
import Reckoner.Proofs.Expr.Conservation

/-!
# Alternation — operands and operators in turn

A scan with one bit of memory tells whether operands and operators take turns. Together with closed
parentheses that is the grammar of expressions, and every expression is written by exactly one tree.
Tokens without juxtaposed operands need less: if they count one number more than operators, they
take turns, because every deviation costs a number.
-/

namespace Reckoner.Expr

variable {α : Type}

/-! ## The scan -/

/-- What the scan expects next. -/
inductive Expects where
  | operand
  | operator
  deriving DecidableEq

/-- Whether operands and operators take turns from here on. -/
def alternatesFrom : Expects → List (Token α) → Bool
  | .operand, .number .. :: ts => alternatesFrom .operator ts
  | .operand, .leftParen :: ts => alternatesFrom .operand ts
  | .operator, .operator _ :: ts => alternatesFrom .operand ts
  | .operator, .rightParen :: ts => alternatesFrom .operator ts
  | .operator, [] => true
  | _, _ => false

/-- Operands and operators take turns, beginning and ending with an operand. -/
def Alternating (ts : List (Token α)) : Prop := alternatesFrom .operand ts = true

namespace Token

/-- An operand can end here. -/
def endsOperand : Token α → Bool
  | .number .. => true
  | .rightParen => true
  | _ => false

/-- An operand can start here. -/
def startsOperand : Token α → Bool
  | .number .. => true
  | .leftParen => true
  | _ => false

end Token

/-- No operand stands right after another one. -/
def JuxtapositionFree (ts : List (Token α)) : Prop :=
  ts.IsChain fun t u => ¬(t.endsOperand = true ∧ u.startsOperand = true)

theorem JuxtapositionFree.head {t : Token α} {ts : List (Token α)}
    (h : JuxtapositionFree (t :: ts)) (hends : t.endsOperand = true) :
    ∀ u rest, ts = u :: rest → u.startsOperand = false := by
  rintro u rest rfl
  have hpair := (List.isChain_cons_cons.mp h).1
  rw [← Bool.not_eq_true]
  exact fun hstarts => hpair ⟨hends, hstarts⟩

/-- Numbers read ahead of operators: one after an operand, none before it. -/
def Expects.credit : Expects → Nat
  | .operand => 0
  | .operator => 1

/-- Without juxtaposed operands there are never too many numbers, and as many as there can be only
if the scan accepts: an operator or a closing parenthesis in the place of an operand loses one. -/
theorem JuxtapositionFree.numbers_le {ts : List (Token α)} (hfree : JuxtapositionFree ts)
    (hknown : ∀ t ∈ ts, t.isUnknown = false) (q : Expects)
    (hstart : q = .operator → ∀ t rest, ts = t :: rest → t.startsOperand = false) :
    numbers ts + q.credit ≤ operators ts + 1 ∧
      (numbers ts + q.credit = operators ts + 1 → alternatesFrom q ts = true) := by
  induction ts generalizing q with
  | nil => cases q <;> simp [numbers, operators, Expects.credit, alternatesFrom]
  | cons t ts ih =>
    have hrest := ih hfree.tail (fun u hmem => hknown u (List.mem_cons_of_mem t hmem))
    have hnumbers : numbers (t :: ts) = numbers ts + if t.isNumber then 1 else 0 :=
      List.countP_cons
    have hoperators : operators (t :: ts) = operators ts + if t.isOperator then 1 else 0 :=
      List.countP_cons
    rw [hnumbers, hoperators]
    cases t with
    | number text value =>
      cases q with
      | operator => exact absurd (hstart rfl _ _ rfl).symm Bool.false_ne_true
      | operand =>
        obtain ⟨hle, heq⟩ := hrest .operator fun _ => hfree.head rfl
        simp only [Token.isNumber, Token.isOperator, Expects.credit, if_true, Bool.false_eq_true,
          if_false, alternatesFrom] at hle heq ⊢
        exact ⟨by omega, fun h => heq (by omega)⟩
    | leftParen =>
      cases q with
      | operator => exact absurd (hstart rfl _ _ rfl).symm Bool.false_ne_true
      | operand =>
        obtain ⟨hle, heq⟩ := hrest .operand fun h => Expects.noConfusion h
        simp only [Token.isNumber, Token.isOperator, Expects.credit, Bool.false_eq_true, if_false,
          alternatesFrom] at hle heq ⊢
        exact ⟨by omega, fun h => heq (by omega)⟩
    | rightParen =>
      obtain ⟨hle, heq⟩ := hrest .operator fun _ => hfree.head rfl
      cases q <;> simp only [Token.isNumber, Token.isOperator, Expects.credit, Bool.false_eq_true,
        if_false, alternatesFrom] at hle heq ⊢
      · exact ⟨by omega, fun h => by omega⟩
      · exact ⟨by omega, fun h => heq (by omega)⟩
    | operator op =>
      obtain ⟨hle, heq⟩ := hrest .operand fun h => Expects.noConfusion h
      cases q <;> simp only [Token.isNumber, Token.isOperator, Expects.credit, if_true,
        Bool.false_eq_true, if_false, alternatesFrom] at hle heq ⊢
      · exact ⟨by omega, fun h => by omega⟩
      · exact ⟨by omega, fun h => heq (by omega)⟩
    | unknown text => exact absurd (hknown _ List.mem_cons_self).symm Bool.false_ne_true

theorem JuxtapositionFree.alternating {ts : List (Token α)} (hfree : JuxtapositionFree ts)
    (hcounted : WellCounted ts) : Alternating ts :=
  (hfree.numbers_le hcounted.known .operand fun h => nomatch h).2 hcounted.count

/-! ## From the scan to the grammar -/

/-- What can stand behind an expression: nothing, or the parenthesis that closes around it. -/
inductive Ends : Nat → List (Token α) → Prop where
  | done : Ends 0 []
  | closing {depth : Nat} {ts : List (Token α)} :
    alternatesFrom .operator ts = true → closesFrom depth ts = true →
    Ends (depth + 1) (.rightParen :: ts)

-- The longest expression in front of the tokens.
theorem exists_expression_in_front (bound depth : Nat) {ts : List (Token α)}
    (hbound : ts.length ≤ bound) (halternates : alternatesFrom .operand ts = true)
    (hcloses : closesFrom depth ts = true) :
    ∃ us rest, ts = us ++ rest ∧ IsInfix us ∧ Ends depth rest := by
  induction bound generalizing depth ts with
  | zero =>
    rw [List.length_eq_zero_iff.mp (Nat.le_zero.mp hbound)] at halternates
    exact nomatch halternates
  | succ bound ih =>
    -- Behind an operand stands the end, or an operator and then an expression again.
    have hafter (depth : Nat) {os rest : List (Token α)} (hoperand : IsOperand os)
        (hlength : rest.length ≤ bound) (halternates : alternatesFrom .operator rest = true)
        (hcloses : closesFrom depth rest = true) :
        ∃ us later, os ++ rest = us ++ later ∧ IsInfix us ∧ Ends depth later := by
      match depth, rest, halternates, hcloses with
      | 0, [], _, _ => exact ⟨os, [], rfl, .operand hoperand, .done⟩
      | depth + 1, .rightParen :: rest, halternates, hcloses =>
        exact ⟨os, _, rfl, .operand hoperand, .closing halternates hcloses⟩
      | depth, .operator op :: rest, halternates, hcloses =>
        have hshorter : rest.length ≤ bound := Nat.le_of_succ_le hlength
        obtain ⟨us, later, rfl, hus, hends⟩ := ih depth hshorter halternates
          (by cases depth <;> exact hcloses)
        exact ⟨os ++ .operator op :: us, later, by simp, .chain op hoperand hus, hends⟩
    match ts, hbound, halternates, hcloses with
    | .number text value :: rest, hbound, halternates, hcloses =>
      exact hafter depth (.number text value) (Nat.le_of_succ_le_succ hbound) halternates
        (by cases depth <;> exact hcloses)
    | .leftParen :: rest, hbound, halternates, hcloses =>
      obtain ⟨us, later, rfl, hus, hends⟩ :=
        ih (depth + 1) (Nat.le_of_succ_le_succ hbound) halternates
          (by cases depth <;> exact hcloses)
      cases hends with
      | @closing _ after hafterAlternates hafterCloses =>
        have hshorter : after.length ≤ bound := by
          simp only [List.length_cons, List.length_append] at hbound
          omega
        obtain ⟨ws, later, heq, hws, hends⟩ := hafter _ (.group hus) hshorter hafterAlternates
          hafterCloses
        exact ⟨ws, later, by rw [← heq]; simp, hws, hends⟩

theorem Alternating.isInfix {ts : List (Token α)} (halternating : Alternating ts)
    (hcloses : closesFrom 0 ts = true) : IsInfix ts := by
  obtain ⟨us, rest, rfl, hgrammar, hends⟩ :=
    exists_expression_in_front ts.length 0 (Nat.le_refl _) halternating hcloses
  cases hends
  rwa [List.append_nil]

/-! ## From the grammar to trees -/

-- An operand and an operator in front of a tree: they take the leftmost part of it that binds more
-- tightly than the operator.
theorem Writes.prepend {n : Nat} {op : Operator} {first t : Tree α} {os ts : List (Token α)}
    (hfirst : ∀ level, Writes level first os) (hlevel : n ≤ op.precedence) (h : Writes n t ts) :
    ∃ t', Writes n t' (os ++ .operator op :: ts) := by
  induction h with
  | number n text value => exact ⟨_, .binary hlevel (hfirst _) (.number _ text value)⟩
  | group n inner _ => exact ⟨_, .binary hlevel (hfirst _) (.group _ inner)⟩
  | @binary n other left right ts us hbound hleft hright ihLeft _ =>
    by_cases hwhole : op.rightLevel ≤ other.precedence
    · exact ⟨_, .binary hlevel (hfirst _) (.binary hwhole hleft hright)⟩
    · have hother : other.leftLevel ≤ op.precedence := by
        rw [← Operator.yieldsTo_iff_leftLevel, Operator.yieldsTo_iff_rightLevel]
        exact Nat.lt_of_not_le hwhole
      obtain ⟨left', hleft'⟩ := ihLeft hother
      refine ⟨.binary other left' right, ?_⟩
      rw [show os ++ .operator op :: (ts ++ .operator other :: us) =
        (os ++ .operator op :: ts) ++ .operator other :: us by simp]
      exact .binary hbound hleft' hright

mutual

theorem IsOperand.exists_tree {ts : List (Token α)} :
    IsOperand ts → ∃ t, ∀ level, Writes level t ts
  | .number text value => ⟨_, fun level => .number level text value⟩
  | .group inner =>
    let ⟨t, ht⟩ := inner.exists_tree
    ⟨t, fun level => .group level ht⟩

theorem IsInfix.exists_tree {ts : List (Token α)} : IsInfix ts → ∃ t, Writes 0 t ts
  | .operand first =>
    let ⟨t, ht⟩ := first.exists_tree
    ⟨t, ht 0⟩
  | .chain _ first rest =>
    let ⟨_, hfirst⟩ := first.exists_tree
    let ⟨_, hrest⟩ := rest.exists_tree
    Writes.prepend hfirst (Nat.zero_le _) hrest

end

/-! ## One tree only -/

/-- The arithmetic that computes nothing and keeps what it was asked for. -/
def Arithmetic.formal : Arithmetic (Tree α) where
  add := .binary .add
  sub := .binary .sub
  mul := .binary .mul
  div := .binary .div
  pow := .binary .pow
  isZero _ := false

/-- The token with its number as a tree. -/
def Token.formal : Token α → Token (Tree α)
  | .number text value => .number text (.number text value)
  | .operator op => .operator op
  | .leftParen => .leftParen
  | .rightParen => .rightParen
  | .unknown text => .unknown text

/-- The tree with its numbers as trees. -/
def Tree.formal : Tree α → Tree (Tree α)
  | .number text value => .number text (.number text value)
  | .binary op left right => .binary op left.formal right.formal

theorem Tree.value_formal (t : Tree α) : t.formal.value .formal = .ok t := by
  induction t with
  | number => rfl
  | binary op left right ihLeft ihRight =>
    rw [Tree.formal, Tree.value_binary, ihLeft, ihRight]
    cases op <;> rfl

theorem Writes.formal {n : Nat} {t : Tree α} {ts : List (Token α)} (h : Writes n t ts) :
    Writes n t.formal (ts.map Token.formal) := by
  induction h with
  | number n text value => exact .number n text _
  | group n _ ih =>
    rw [List.map_cons, List.map_append]
    exact .group n ih
  | binary hbound _ _ ihLeft ihRight =>
    rw [List.map_append, List.map_cons]
    exact .binary hbound ihLeft ihRight

/-- Evaluating formally gives back the tree, so there is one at most. -/
theorem Writes.unique {m n : Nat} {t u : Tree α} {ts : List (Token α)} (ht : Writes m t ts)
    (hu : Writes n u ts) : t = u := by
  have hvalue : t.formal.value .formal = u.formal.value .formal := by
    rw [← ht.formal.evaluateTokens_eq, ← hu.formal.evaluateTokens_eq]
  rw [Tree.value_formal, Tree.value_formal] at hvalue
  exact Except.ok.inj hvalue

end Reckoner.Expr
