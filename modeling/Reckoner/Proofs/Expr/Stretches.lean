import Mathlib.Data.List.Infix
import Reckoner.Proofs.Expr.Acceptance
import Reckoner.Proofs.Unguarded

/-!
# Stretches — the order in which operators wait

An operator is put on the stack above one that it does not yield to, and what is taken off leaves the
rest as it was. So between two parentheses the operators that wait bind more and more tightly from the
bottom to the top, and only powers wait above their like. This is why a look at the top is enough to
know what an operator makes give way.
-/

namespace Reckoner.Expr

variable {α : Type} {A : Arithmetic α}

/-! ## Operators one above the other -/

/-- Whether an operator binds more tightly than the one below it, or both are powers. -/
def Operator.RisesOver (upper lower : Operator) : Prop :=
  lower.precedence < upper.precedence ∨ lower = .pow ∧ upper = .pow

instance (upper lower : Operator) : Decidable (upper.RisesOver lower) :=
  inferInstanceAs (Decidable (_ ∨ _))

theorem Operator.yieldsTo_eq_false_iff (incoming waiting : Operator) :
    incoming.yieldsTo waiting = false ↔ incoming.RisesOver waiting := by
  cases incoming <;> cases waiting <;> decide

theorem Operator.RisesOver.trans {lower middle upper : Operator} (hlow : middle.RisesOver lower)
    (hhigh : upper.RisesOver middle) : upper.RisesOver lower := by
  rcases hlow with hless | ⟨rfl, rfl⟩
  · rcases hhigh with hmore | ⟨rfl, rfl⟩
    · exact .inl (Nat.lt_trans hless hmore)
    · exact .inl hless
  · exact hhigh

instance : Trans (fun lower upper : Operator => upper.RisesOver lower)
    (fun lower upper : Operator => upper.RisesOver lower)
    (fun lower upper : Operator => upper.RisesOver lower) := ⟨Operator.RisesOver.trans⟩

/-- From the bottom to the top each operator rises over all those below it. -/
def Rising (ops : List Operator) : Prop := ops.Pairwise fun lower upper => upper.RisesOver lower

/-- Operators from the bottom to the top: a sum or a difference at most, then a product or a quotient at
most, then powers. -/
def IsStretch (ops : List Operator) : Prop :=
  ∃ (sum product : Option Operator) (powers : Nat),
    ops = sum.toList ++ product.toList ++ List.replicate powers .pow ∧
      (∀ op ∈ sum, op = .add ∨ op = .sub) ∧ ∀ op ∈ product, op = .mul ∨ op = .div

theorem Operator.not_risesOver_of_sum {upper lower : Operator} (h : upper = .add ∨ upper = .sub) :
    ¬upper.RisesOver lower := by
  rcases h with rfl | rfl <;> cases lower <;> decide

theorem Operator.sum_of_risesOver_product {upper lower : Operator} (h : upper = .mul ∨ upper = .div)
    (hrises : upper.RisesOver lower) : lower = .add ∨ lower = .sub := by
  revert hrises
  rcases h with rfl | rfl <;> cases lower <;> decide

theorem Operator.eq_pow_of_ne {op : Operator} (hsum : ¬(op = .add ∨ op = .sub))
    (hproduct : ¬(op = .mul ∨ op = .div)) : op = .pow := by
  revert hsum hproduct
  cases op <;> decide

-- Below a sum there is nothing, below a product a sum at most.
theorem Rising.isStretch {ops : List Operator} (h : Rising ops) : IsStretch ops := by
  induction ops with
  | nil => exact ⟨none, none, 0, rfl, nofun, nofun⟩
  | cons op ops ih =>
    obtain ⟨habove, hrest⟩ := List.pairwise_cons.mp h
    obtain ⟨sum, product, powers, rfl, hsum, hproduct⟩ := ih hrest
    obtain rfl : sum = none := by
      cases sum with
      | none => rfl
      | some upper =>
        exact absurd (habove upper (by simp)) (Operator.not_risesOver_of_sum (hsum upper rfl))
    by_cases hopSum : op = .add ∨ op = .sub
    · exact ⟨some op, product, powers, rfl, by simpa using hopSum, hproduct⟩
    obtain rfl : product = none := by
      cases product with
      | none => rfl
      | some upper =>
        exact absurd (Operator.sum_of_risesOver_product (hproduct upper rfl) (habove upper (by simp)))
          hopSum
    by_cases hopProduct : op = .mul ∨ op = .div
    · exact ⟨none, some op, powers, rfl, hsum, by simpa using hopProduct⟩
    · obtain rfl := Operator.eq_pow_of_ne hopSum hopProduct
      exact ⟨none, none, powers + 1, rfl, hsum, hproduct⟩

/-! ## What waits -/

/-- Whether something may wait right above something else: next to a parenthesis all may, and an
operator above one that it does not yield to. -/
def Held.MayWaitOn : Held → Held → Prop
  | .operator upper, .operator lower => upper.yieldsTo lower = false
  | _, _ => True

/-- Everything on the stack, top first, may wait on what is below it. -/
def Held.Ordered (held : List Held) : Prop := held.IsChain MayWaitOn

namespace Stacks

variable {s s' : Stacks α}

-- Reductions take from the top only, and the condition that ends them is the one for what comes next.
theorem ordered_of_pushed {t : Token α} (h : Pushed s s' t) (hs : Held.Ordered s.held) :
    Held.Ordered s'.held := by
  cases h with
  | number _ _ hs' =>
    subst hs'
    exact hs
  | leftParen hs' =>
    subst hs'
    exact List.isChain_cons.mpr ⟨fun _ _ => trivial, hs⟩
  | rightParen applied hheld =>
    rw [Held.Ordered, hheld] at hs
    exact hs.right_of_append.tail
  | operator op applied below hheld hheld' _ _ hstop =>
    rw [Held.Ordered, hheld] at hs
    rw [hheld']
    refine List.isChain_cons.mpr ⟨fun next hnext => ?_, hs.right_of_append⟩
    match next, below, hnext with
    | .leftParen, _, _ => trivial
    | .operator waiting, _ :: rest, rfl => exact hstop waiting rest rfl

theorem ordered_of_foldlM {ts : List (Token α)} (h : ts.foldlM (push A) s = .ok s')
    (hs : Held.Ordered s.held) : Held.Ordered s'.held := by
  induction ts generalizing s with
  | nil =>
    cases h
    exact hs
  | cons t ts ih =>
    obtain ⟨next, hpushed, hrest⟩ := foldlM_push_cons h
    exact ih hrest (ordered_of_pushed hpushed hs)

end Stacks

-- Read from the bottom, operators that wait next to one another rise.
theorem Held.Ordered.rising {held : List Held} (h : Ordered held) {ops : List Operator}
    (hops : ops.map Held.operator <:+: held.reverse) : Rising ops := by
  have hreversed : held.reverse.IsChain fun lower upper => MayWaitOn upper lower :=
    List.isChain_reverse.mpr h
  have hpart := List.IsChain.infix hreversed hops
  have hchain := (List.isChain_map _).mp hpart
  exact (hchain.imp fun lower upper => (upper.yieldsTo_eq_false_iff lower).mp).pairwise

/-- Whatever tokens have been taken, on the stack there are only opening parentheses and operators, and
those that wait next to one another, read from the bottom, are a sum at most, then a product at most,
then powers. So the precedences never fall, and only those of powers stay the same. -/
theorem held_in_stretches {ts : List (Token α)} {s : Stacks α}
    (h : ts.foldlM (Stacks.push A) .empty = .ok s) :
    (∃ m, (ts.map Unguarded.Lexeme.ofToken).foldlM (Unguarded.Machine.push A) ⟨[], []⟩ = .ok m ∧
      m.waiting = s.held.map Unguarded.Lexeme.ofHeld ∧
      ∀ t ∈ m.waiting, t.kind = .leftParen ∨ t.kind = .operator) ∧
    ∀ ops : List Operator, ops.map Held.operator <:+: s.held.reverse →
      IsStretch ops ∧ ops.Pairwise fun lower upper =>
        lower.precedence ≤ upper.precedence ∧
          (lower.precedence = upper.precedence → lower = .pow ∧ upper = .pow) := by
  refine ⟨?_, fun ops hops => ?_⟩
  · have hrun := Unguarded.Machine.foldlM_push_ofStacks (A := A) .empty ts
    rw [h] at hrun
    refine ⟨_, hrun, rfl, fun t ht => ?_⟩
    obtain ⟨top, -, rfl⟩ := List.mem_map.mp ht
    cases top with
    | operator => exact .inr rfl
    | leftParen => exact .inl rfl
  · have hrising := (Stacks.ordered_of_foldlM h List.isChain_nil).rising hops
    refine ⟨hrising.isStretch, hrising.imp fun hrises => ?_⟩
    rcases hrises with hless | hpowers
    · exact ⟨hless.le, fun heq => absurd heq hless.ne⟩
    · obtain ⟨rfl, rfl⟩ := hpowers
      exact ⟨le_rfl, fun _ => ⟨rfl, rfl⟩⟩

/-- The tokens of `1 + * 2 ^ ^ ( 3 - / 4`. -/
def unfinishedTokens : List (Token Int) := [
  .number "1" 1, .operator .add, .operator .mul, .number "2" 2, .operator .pow, .operator .pow,
  .leftParen, .number "3" 3, .operator .sub, .operator .div, .number "4" 4]

/-- Below the parenthesis a sum, a product and two powers wait, above it a difference and a quotient. -/
theorem held_in_stretches_unfinishedTokens :
    unfinishedTokens.foldlM (Stacks.push .whole) .empty =
        .ok ⟨[4, 3, 2, 1], [.operator .div, .operator .sub, .leftParen, .operator .pow,
          .operator .pow, .operator .mul, .operator .add]⟩ ∧
      IsStretch [.add, .mul, .pow, .pow] ∧ IsStretch [.sub, .div] := by
  have hrun : unfinishedTokens.foldlM (Stacks.push .whole) .empty =
      .ok ⟨[4, 3, 2, 1], [.operator .div, .operator .sub, .leftParen, .operator .pow,
        .operator .pow, .operator .mul, .operator .add]⟩ := rfl
  have hstretches := (held_in_stretches hrun).2
  refine ⟨hrun, (hstretches [.add, .mul, .pow, .pow] ?_).1, (hstretches [.sub, .div] ?_).1⟩
  · exact ⟨[], [.leftParen, .operator .sub, .operator .div], rfl⟩
  · exact ⟨[.operator .add, .operator .mul, .operator .pow, .operator .pow, .leftParen], [], rfl⟩

end Reckoner.Expr
