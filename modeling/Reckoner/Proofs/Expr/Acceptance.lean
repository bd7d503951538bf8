import Mathlib.Algebra.Group.Int.Defs
import Reckoner.Proofs.Expr.Alternation

/-!
# Acceptance — which tokens have a value

The stacks never ask whether operands and operators take turns. Without juxtaposed operands they
need not: the count of what is left decides it, and tokens have a value just if they are an
expression that does not divide by zero.
-/

namespace Reckoner.Expr

variable {α : Type}

theorem IsInfix.existsUnique_tree_iff {ts : List (Token α)} :
    IsInfix ts ↔ ∃! t, Writes 0 t ts := by
  constructor
  · intro hgrammar
    obtain ⟨t, ht⟩ := hgrammar.exists_tree
    exact ⟨t, ht, fun u hu => hu.unique ht⟩
  · rintro ⟨t, ht, -⟩
    exact ht.isInfix

theorem JuxtapositionFree.isInfix {A : Arithmetic α} {ts : List (Token α)} {v : α}
    (hfree : JuxtapositionFree ts) (hvalue : evaluateTokens A ts = .ok v) : IsInfix ts :=
  have hcounted := wellCounted_of_evaluateTokens hvalue
  (hfree.alternating hcounted).isInfix hcounted.closes

/-- Without juxtaposed operands, tokens have a value just if they are an expression whose one tree
does not divide by zero, and it is the value of the tree. If the tree divides by zero, that is the
error. -/
theorem evaluateTokens_eq_ok_iff (A : Arithmetic α) {ts : List (Token α)}
    (hfree : JuxtapositionFree ts) :
    (IsInfix ts ↔ ∃! t, Writes 0 t ts) ∧
      (∀ v, evaluateTokens A ts = .ok v ↔
        ∃ t, Writes 0 t ts ∧ ¬t.DividesByZero A ∧ t.value A = .ok v) ∧
      ∀ t, Writes 0 t ts → t.DividesByZero A → evaluateTokens A ts = .error .divisionByZero := by
  refine ⟨IsInfix.existsUnique_tree_iff, fun v => ⟨fun hvalue => ?_, ?_⟩, fun t ht hzero => ?_⟩
  · obtain ⟨t, ht⟩ := (hfree.isInfix hvalue).exists_tree
    rw [ht.evaluateTokens_eq] at hvalue
    refine ⟨t, ht, fun hzero => ?_, hvalue⟩
    rw [Tree.value_eq_error_iff.mpr hzero] at hvalue
    exact nomatch hvalue
  · rintro ⟨t, ht, -, hvalue⟩
    rw [ht.evaluateTokens_eq, hvalue]
  · rw [ht.evaluateTokens_eq, Tree.value_eq_error_iff.mpr hzero]

/-- Arithmetic on whole numbers. -/
def Arithmetic.whole : Arithmetic Int where
  add := (· + ·)
  sub := (· - ·)
  mul := (· * ·)
  div := (· / ·)
  pow a b := a ^ b.toNat
  isZero := (· == 0)

/-- The tokens of `2 ^ 3 ^ 2 - (8 - 4) / 2`. -/
def towerTokens : List (Token Int) := [
  .number "2" 2, .operator .pow, .number "3" 3, .operator .pow, .number "2" 2, .operator .sub,
  .leftParen, .number "8" 8, .operator .sub, .number "4" 4, .rightParen, .operator .div,
  .number "2" 2]

/-- Powers are taken from the right, the group before the quotient, the difference last. -/
theorem evaluateTokens_towerTokens :
    JuxtapositionFree towerTokens ∧ IsInfix towerTokens ∧
      ∃ t, Writes 0 t towerTokens ∧ ¬t.DividesByZero .whole ∧ t.value .whole = .ok 510 := by
  have hfree : JuxtapositionFree towerTokens := by
    unfold JuxtapositionFree towerTokens
    decide
  obtain ⟨-, hvalue, -⟩ := evaluateTokens_eq_ok_iff .whole hfree
  obtain ⟨t, ht, hzero, h⟩ := (hvalue 510).mp rfl
  exact ⟨hfree, ht.isInfix, t, ht, hzero, h⟩

end Reckoner.Expr
