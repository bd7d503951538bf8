import Reckoner.Proofs.Expr.DoubleMinus
import Reckoner.Proofs.Expr.Spelled

/-!
# Dangling — an operator at the end

An operator with nothing behind it is one too many: there are as many operators as operands, and the
evaluation runs out of values. It does so late, however. The operator takes the two values that the
operator waiting below it was to get, and what is left for that one is one value too few; so before
an operand is missing, a value may have been divided by another one that is zero.
-/

namespace Reckoner.Expr

variable {α : Type} {A : Arithmetic α}

/-! ## Reading with something below -/

namespace Writes

variable {n : Nat} {t left : Tree α} {ts ls : List (Token α)} {values : List α} {held : List Held}

theorem foldlM_push_group (h : Writes 0 t ts) :
    (Token.leftParen :: (ts ++ [Token.rightParen])).foldlM (Stacks.push A) ⟨values, held⟩ =
      t.value A >>= fun v => .ok ⟨v :: values, held⟩ := by
  have hbelow : Held.Admits 0 (.leftParen :: held) := trivial
  exact Stacks.foldlM_push_group (h.foldlM_push values hbelow fun _ _ => rfl)

-- The left operand of an operator has its value by the time that the operator waits.
theorem foldlM_push_append {op : Operator} (h : Writes op.leftLevel left ls)
    (hadmits : Held.Admits op.precedence held) (rs : List (Token α)) :
    (ls ++ .operator op :: rs).foldlM (Stacks.push A) ⟨values, held⟩ =
      left.value A >>= fun a => rs.foldlM (Stacks.push A) ⟨a :: values, .operator op :: held⟩ := by
  have hread := h.foldlM_push (A := A) values (hadmits.mono op.precedence_le_leftLevel)
    (p := op.yieldsTo) fun waiting => (op.yieldsTo_iff_leftLevel waiting).mpr
  rw [List.foldlM_append]
  simp only [List.foldlM_cons, ← bind_assoc]
  rw [Stacks.foldlM_push_operator hread hadmits (Nat.le_refl _), bind_assoc]
  rfl

end Writes

/-! ## One operator more -/

-- No right operand has to bind more tightly than a power.
theorem Held.admits_pow : ∀ held : List Held, Held.Admits Operator.pow.precedence held
  | [] => trivial
  | .leftParen :: _ => trivial
  | .operator op :: _ => show op.rightLevel ≤ Operator.pow.precedence by cases op <;> decide

namespace Stacks

variable {values : List α} {held : List Held}

/-- What becomes of the stacks if one more operator comes, and nothing behind it. -/
def dangle (A : Arithmetic α) (op : Operator) (s : Stacks α) : Except EvalError α :=
  s.push A (.operator op) >>= fun r => r.result A

-- Where nothing gives way, the operator is applied as the first of all that wait.
theorem dangle_of_admits {op : Operator} (hadmits : Held.Admits op.precedence held) :
    dangle A op ⟨values, held⟩ =
      reduceWhile A (fun _ => true) values (.operator op :: held) >>= single := by
  rw [dangle, push_operator, reduceWhile_yieldsTo hadmits (Nat.le_refl _)]
  exact result_eq _

theorem reduceWhile_pair (op : Operator) (a b : α) :
    reduceWhile A (fun _ => true) (b :: a :: values) (.operator op :: held) =
      A.apply op a b >>= fun c => reduceWhile A (fun _ => true) (c :: values) held := by
  rw [reduceWhile_operator rfl, applyTop_pair, bind_assoc]
  rfl

-- The last operator has one value only.
theorem reduceWhile_single (op : Operator) (a : α) :
    reduceWhile A (fun _ => true) [a] (.operator op :: held) = .error .invalidExpression := rfl

end Stacks

theorem evaluateTokens_append_operator (ts : List (Token α)) (op : Operator) :
    evaluateTokens A (ts ++ [.operator op]) =
      ts.foldlM (Stacks.push A) .empty >>= Stacks.dangle A op := by
  rw [evaluateTokens_eq, List.foldlM_append, bind_assoc]
  congr 1
  funext s
  rw [List.foldlM_cons, Stacks.dangle]
  simp only [List.foldlM_nil, bind_pure]

namespace Writes

open Stacks

variable {n : Nat} {t : Tree α} {ts : List (Token α)}

-- No operator makes a power give way, so that a power sign at the end of a chain of powers waits on
-- top of them all. As powers are taken from the right, the chain then has its value below that sign.
theorem reduceWhile_pow (h : Writes n t ts) (hlevel : Operator.pow.precedence ≤ n)
    (values : List α) {held : List Held} (hadmits : Held.Admits n held) :
    (ts.foldlM (push A) ⟨values, held⟩ >>= fun s =>
      reduceWhile A (fun _ => true) s.values (.operator .pow :: s.held)) =
        t.value A >>= fun v => reduceWhile A (fun _ => true) (v :: values) (.operator .pow :: held) := by
  induction h generalizing values held with
  | number => rfl
  | group _ inner _ => rw [inner.foldlM_push_group, bind_assoc]; rfl
  | @binary n op left right ts us hbound hleft _ _ ihRight =>
    have hpow : op = .pow := by
      cases op with
      | pow => rfl
      | _ => exact absurd (Nat.le_trans hlevel hbound) (by decide)
    subst hpow
    have hbelow : Held.Admits Operator.pow.rightLevel (.operator .pow :: held) := Nat.le_refl _
    rw [hleft.foldlM_push_append (hadmits.mono hbound), Tree.value_binary]
    simp only [bind_assoc]
    congr 1
    funext a
    rw [ihRight (Nat.le_refl _) (a :: values) hbelow]
    simp only [reduceWhile_pair]

/-- To an operator at the end, tokens that bind no less tightly than itself are their value. -/
theorem dangle {op : Operator} (h : Writes n t ts) (hlevel : op.precedence ≤ n)
    (values : List α) {held : List Held} (hadmits : Held.Admits op.precedence held) :
    (ts.foldlM (push A) ⟨values, held⟩ >>= Stacks.dangle A op) =
      t.value A >>= fun v => Stacks.dangle A op ⟨v :: values, held⟩ := by
  by_cases hpow : op = .pow
  · subst hpow
    have hdangle : Stacks.dangle A .pow = fun s =>
        reduceWhile A (fun _ => true) s.values (.operator .pow :: s.held) >>= single :=
      funext fun s => dangle_of_admits (Held.admits_pow s.held)
    simp only [hdangle, ← bind_assoc]
    rw [h.reduceWhile_pow hlevel values (hadmits.mono hlevel), bind_assoc]
  · have hleft : op.leftLevel = op.precedence := by
      cases op with
      | pow => exact absurd rfl hpow
      | _ => rfl
    have hread := h.foldlM_push (A := A) values (hadmits.mono hlevel) (p := op.yieldsTo)
      fun waiting hwaiting => (op.yieldsTo_iff_leftLevel waiting).mpr
        (Nat.le_trans (hleft.le.trans hlevel) hwaiting)
    unfold Stacks.dangle
    simp only [← bind_assoc]
    rw [foldlM_push_operator hread hadmits (Nat.le_refl _), bind_assoc, bind_assoc]
    congr 1
    funext v
    rw [push_operator, reduceWhile_yieldsTo hadmits (Nat.le_refl _)]
    rfl

/-! ## What the operator is applied to -/

variable {op waiting : Operator} {left right : Tree α} {ls rs : List (Token α)}

-- Nothing waits for the value of the whole, and the operator has no other.
theorem evaluateTokens_append_of_tight (h : Writes n t ts) (hlevel : op.precedence ≤ n) :
    evaluateTokens A (ts ++ [.operator op]) =
      t.value A >>= fun _ => .error .invalidExpression := by
  have hempty : Held.Admits op.precedence [] := trivial
  rw [evaluateTokens_append_operator]
  exact h.dangle hlevel [] hempty

-- An operator waits that binds less tightly: its operands are taken.
theorem evaluateTokens_append_of_waiting (hleft : Writes waiting.leftLevel left ls)
    (hright : Writes n right rs) (hlevel : op.precedence ≤ n)
    (hlower : waiting.precedence < op.precedence) :
    evaluateTokens A ((ls ++ .operator waiting :: rs) ++ [.operator op]) =
      left.value A >>= fun a => right.value A >>= fun b =>
        A.apply op a b >>= fun _ => .error .invalidExpression := by
  have hempty : Held.Admits waiting.precedence [] := trivial
  have hbelow : Held.Admits op.precedence [.operator waiting] :=
    Operator.rightLevel_le_of_lt hlower
  rw [evaluateTokens_append_operator, Stacks.empty, hleft.foldlM_push_append hempty, bind_assoc]
  congr 1
  funext a
  rw [hright.dangle hlevel [a] hbelow]
  congr 1
  funext b
  rw [dangle_of_admits hbelow, reduceWhile_pair]
  simp only [reduceWhile_single, bind_assoc]
  rfl

-- Two operators wait. The power takes the operands of the upper one, which takes those of the lower.
theorem evaluateTokens_append_pow_of_waiting {upper : Operator} {middle : Tree α}
    {ms : List (Token α)} (hleft : Writes waiting.leftLevel left ls)
    (hmiddle : Writes upper.leftLevel middle ms) (hright : Writes n right rs)
    (hlevel : Operator.pow.precedence ≤ n) (hlower : waiting.precedence < upper.precedence)
    (hupper : upper.precedence < Operator.pow.precedence) :
    evaluateTokens A
        ((ls ++ .operator waiting :: (ms ++ .operator upper :: rs)) ++ [.operator .pow]) =
      left.value A >>= fun a => middle.value A >>= fun b => right.value A >>= fun c =>
        A.apply upper a (A.pow b c) >>= fun _ => .error .invalidExpression := by
  have hempty : Held.Admits waiting.precedence [] := trivial
  have hbelow : Held.Admits upper.precedence [.operator waiting] :=
    Operator.rightLevel_le_of_lt hlower
  have hbelow' : Held.Admits Operator.pow.precedence [.operator upper, .operator waiting] :=
    Operator.rightLevel_le_of_lt hupper
  have hpow (b c : α) : A.apply .pow b c = .ok (A.pow b c) := rfl
  rw [evaluateTokens_append_operator, Stacks.empty, hleft.foldlM_push_append hempty, bind_assoc]
  congr 1
  funext a
  rw [hmiddle.foldlM_push_append hbelow, bind_assoc]
  congr 1
  funext b
  rw [hright.dangle hlevel [b, a] hbelow']
  congr 1
  funext c
  rw [dangle_of_admits hbelow', reduceWhile_pair, hpow]
  simp only [reduceWhile_pair, reduceWhile_single, bind_assoc]
  rfl

/-! ## The two errors -/

-- Outside of parentheses, tokens have an operator that binds less tightly than a level or have none.
theorem tight_or_waiting (h : Writes n t ts) (m : Nat) :
    Writes m t ts ∨ ∃ waiting left right ls rs, t = .binary waiting left right ∧
      ts = ls ++ .operator waiting :: rs ∧ n ≤ waiting.precedence ∧ waiting.precedence < m ∧
        Writes waiting.leftLevel left ls ∧ Writes waiting.rightLevel right rs := by
  cases h with
  | number _ text value => exact .inl (.number m text value)
  | group _ inner => exact .inl (.group m inner)
  | @binary _ waiting left right ls rs hbound hleft hright =>
    by_cases htight : m ≤ waiting.precedence
    · exact .inl (.binary htight hleft hright)
    · exact .inr ⟨waiting, left, right, ls, rs, rfl, rfl, hbound, Nat.lt_of_not_le htight, hleft,
        hright⟩

end Writes

/-- Behind these tokens, an operator at the end comes to a division by zero. Outside of parentheses
they are a sum or a difference, and the operator is one of two:

* a quotient sign, which takes the two summands, where the right one is zero;
* a power sign behind a right summand that is a quotient itself. The power is that of dividend and
  divisor, and the quotient, which goes without its divisor now, is that of the left summand and this
  power, where the power is zero. -/
inductive DanglesOverZero (A : Arithmetic α) : Operator → List (Token α) → Prop where
  | quotient {sum : Operator} {left right : Tree α} {ls rs : List (Token α)} {b : α} :
    sum = .add ∨ sum = .sub → Writes sum.leftLevel left ls → Writes sum.rightLevel right rs →
      right.value A = .ok b → A.isZero b = true →
      DanglesOverZero A .div (ls ++ .operator sum :: rs)
  | power {sum : Operator} {left dividend divisor : Tree α} {ls ms rs : List (Token α)} {b c : α} :
    sum = .add ∨ sum = .sub → Writes sum.leftLevel left ls →
      Writes Operator.div.leftLevel dividend ms → Writes Operator.div.rightLevel divisor rs →
      dividend.value A = .ok b → divisor.value A = .ok c → A.isZero (A.pow b c) = true →
      DanglesOverZero A .pow (ls ++ .operator sum :: (ms ++ .operator .div :: rs))

theorem Arithmetic.div_bind_of_isZero {a b : α} {f : α → Except EvalError α}
    (h : A.isZero b = true) : A.apply .div a b >>= f = .error .divisionByZero := by
  rw [Arithmetic.apply_eq_error_iff.mpr ⟨rfl, h, rfl⟩]
  rfl

theorem DanglesOverZero.evaluateTokens_eq {op : Operator} {ts : List (Token α)}
    (h : DanglesOverZero A op ts) :
    evaluateTokens A (ts ++ [.operator op]) = .error .divisionByZero := by
  cases h with
  | quotient hsum hleft hright hvalue hzero =>
    rcases hsum with rfl | rfl
    all_goals
      rw [hleft.evaluateTokens_append_of_waiting hright (by decide) (by decide), hvalue]
      exact Tree.value_bind_eq_error fun a _ => Arithmetic.div_bind_of_isZero hzero
  | power hsum hleft hdividend hdivisor hb hc hzero =>
    rcases hsum with rfl | rfl
    all_goals
      rw [hleft.evaluateTokens_append_pow_of_waiting hdividend hdivisor (by decide) (by decide)
        (by decide), hb, hc]
      exact Tree.value_bind_eq_error fun a _ => Arithmetic.div_bind_of_isZero hzero

theorem Operator.eq_add_or_sub {op : Operator} (h : op.precedence < Operator.div.precedence) :
    op = .add ∨ op = .sub := by
  cases op <;> revert h <;> decide

-- There are three levels, so that two operators which bind ever more tightly and wait for a third
-- one are a sum and a product, and the third one is a power.
theorem Operator.eq_pow_of_levels {waiting upper op : Operator}
    (hbound : waiting.rightLevel ≤ upper.precedence) (hupper : upper.precedence < op.precedence) :
    op = .pow ∧ waiting.precedence < upper.precedence ∧
      Operator.pow.precedence ≤ upper.rightLevel := by
  cases waiting <;> cases upper <;> cases op <;> revert hbound hupper <;> decide

theorem Writes.invalid_or_danglesOverZero {t : Tree α} {ts : List (Token α)} (h : Writes 0 t ts)
    {v : α} (hvalue : t.value A = .ok v) (op : Operator) :
    evaluateTokens A (ts ++ [.operator op]) = .error .invalidExpression ∨
      DanglesOverZero A op ts := by
  rcases h.tight_or_waiting op.precedence with
    htight | ⟨waiting, left, right, ls, rs, rfl, rfl, -, hlower, hleft, hright⟩
  · rw [htight.evaluateTokens_append_of_tight (Nat.le_refl _), hvalue]
    exact .inl rfl
  obtain ⟨a, b, ha, hb⟩ := Tree.exists_of_value_binary hvalue
  rcases hright.tight_or_waiting op.precedence with
    htight | ⟨upper, middle, last, ms, rs, rfl, rfl, hbound, hupper, hmiddle, hlast⟩
  · rw [hleft.evaluateTokens_append_of_waiting htight (Nat.le_refl _) hlower, ha, hb]
    change A.apply op a b >>= _ = _ ∨ _
    cases happly : A.apply op a b with
    | ok c => exact .inl rfl
    | error e =>
      obtain ⟨rfl, hzero, -⟩ := Arithmetic.apply_eq_error_iff.mp happly
      exact .inr (.quotient (Operator.eq_add_or_sub hlower) hleft hright hb hzero)
  · obtain ⟨rfl, hlower, hlevel⟩ := Operator.eq_pow_of_levels hbound hupper
    obtain ⟨b, c, hmiddleValue, hlastValue⟩ := Tree.exists_of_value_binary hb
    rw [hleft.evaluateTokens_append_pow_of_waiting hmiddle hlast hlevel hlower hupper, ha,
      hmiddleValue, hlastValue]
    change A.apply upper a (A.pow b c) >>= _ = _ ∨ _
    cases happly : A.apply upper a (A.pow b c) with
    | ok d => exact .inl rfl
    | error e =>
      obtain ⟨rfl, hzero, -⟩ := Arithmetic.apply_eq_error_iff.mp happly
      exact .inr (.power (Operator.eq_add_or_sub hlower) hleft hmiddle hlast hmiddleValue hlastValue
        hzero)

/-! ## The text -/

variable {read : List Char → Option α}

-- What spells alternating tokens ends as an operand does.
theorem Spells.closesOperand_getLast? {previous : Option Char} {ts : List (Token α)}
    {cs : List Char} (h : Spells read previous ts cs) (q : Expects)
    (halternates : alternatesFrom q ts = true)
    (hoperator : q = .operator → ∃ c, previous = some c ∧ closesOperand c = true) :
    ∃ c, cs.getLast?.or previous = some c ∧ closesOperand c = true := by
  -- What is behind the first character ends as the whole does.
  have hcons {c : Char} {previous : Option Char} {cs : List Char}
      (h : ∃ d, cs.getLast?.or (some c) = some d ∧ closesOperand d = true) :
      ∃ d, (c :: cs).getLast?.or previous = some d ∧ closesOperand d = true := by
    rwa [List.getLast?_cons, Option.some_or, ← Option.or_some]
  have happend {l cs : List Char} {previous : Option Char} (hliteral : IsLiteral l)
      (h : ∃ d, cs.getLast?.or l.getLast? = some d ∧ closesOperand d = true) :
      ∃ d, (l ++ cs).getLast?.or previous = some d ∧ closesOperand d = true := by
    obtain ⟨d, hd, hcloses⟩ := h
    rw [List.getLast?_append, hd]
    exact ⟨d, rfl, hcloses⟩
  induction h generalizing q with
  | nil previous =>
    cases q with
    | operand => exact nomatch halternates
    | operator => exact hoperator rfl
  | literal _ hliteral _ _ ih =>
    cases q with
    | operator => exact nomatch halternates
    | operand => exact happend hliteral (ih .operator halternates fun _ => hliteral.closesOperand)
  | negative _ hliteral _ _ ih =>
    cases q with
    | operator => exact nomatch halternates
    | operand =>
      exact hcons (happend hliteral (ih .operator halternates fun _ => hliteral.closesOperand))
  | operator _ op _ ih =>
    cases q with
    | operand => exact nomatch halternates
    | operator => exact hcons (ih .operand halternates fun hq => nomatch hq)
  | leftParen _ _ ih =>
    cases q with
    | operator => exact nomatch halternates
    | operand => exact hcons (ih .operand halternates fun hq => nomatch hq)
  | rightParen _ _ ih =>
    cases q with
    | operand => exact nomatch halternates
    | operator => exact hcons (ih .operator halternates fun _ => ⟨')', rfl, rfl⟩)

-- A sign behind an operand is a token of its own, also a minus.
theorem Spells.tokensBy_append_symbol {ts : List (Token α)} {cs : List Char}
    (h : Spells read none ts cs) (halternating : Alternating ts) (op : Operator) :
    tokensBy read (cs ++ [op.symbol]) = ts ++ [.operator op] := by
  obtain ⟨c, hlast, hcloses⟩ := h.closesOperand_getLast? .operand halternating fun hq => nomatch hq
  have hprevious : (cs.foldl (Lexer.step read) .initial).previous = some c := by
    rw [Lexer.previous_foldl_step]
    exact hlast
  have hread := h.foldl_step .operand halternating .initial rfl (fun _ => rfl) fun hq => nomatch hq
  obtain ⟨hcloses, hminus⟩ := not_opensLiteral_of_closesOperand hcloses
  rw [tokensBy, List.foldl_append, List.foldl_cons, List.foldl_nil,
    Lexer.step_symbol _ (isLiteralChar_symbol op) fun _ => by
      rw [hprevious]
      exact ⟨fun heq => hminus (Option.some.inj heq), hcloses⟩,
    Lexer.flush_of_pending_eq_nil rfl, hread, Token.ofText_symbol, List.reverse_cons,
    List.reverse_append, List.reverse_reverse]
  rfl

theorem compact_append_symbol (cs : List Char) (op : Operator) :
    compact (cs ++ [op.symbol]) = compact cs ++ [op.symbol] := by
  have hblank : compact [op.symbol] = [op.symbol] := by cases op <;> decide
  rw [compact, List.filter_append]
  exact congrArg (compact cs ++ ·) hblank

theorem Spells.normalForm_append_symbol {ts : List (Token α)} {full cs : List Char}
    (h : Spells read none ts full) (halternating : Alternating ts)
    (homits : Omits full (compact cs)) (op : Operator) :
    normalForm (cs ++ [op.symbol]) = .ok (full ++ [op.symbol]) := by
  have hopen : op.symbol ≠ '(' := by cases op <;> decide
  have hallowed : (full ++ [op.symbol]).all Expr.isAllowed = true := by
    rw [List.all_append, List.all_eq_true.mpr h.isAllowed]
    cases op <;> rfl
  have hproducts : writeProducts (compact (cs ++ [op.symbol])) = full ++ [op.symbol] := by
    rw [compact_append_symbol, writeProducts_append_cons _
      (multiplies_eq_false_of_right (isDigit_symbol op) hopen), h.writeProducts_eq halternating homits]
    rfl
  simp only [normalForm, hproducts]
  rw [if_pos hallowed]

/-- However an expression with a value is spelled, an operator at its end makes it fail. It is an
invalid expression, unless the operator comes to a division by zero before an operand is missing. -/
theorem evaluate_push_symbol {t : Tree Float} {ts : List (Token Float)} {full : List Char}
    {expr : String} (hwrites : Writes 0 t ts) (hspells : Spells Number.floatOfAnyScript? none ts full)
    (homits : Omits full (compact expr.toList)) {v : Float} (hvalue : evaluate expr = .ok v)
    (op : Operator) :
    (DanglesOverZero .double op ts → evaluate (expr.push op.symbol) = .error .divisionByZero) ∧
      (¬DanglesOverZero .double op ts →
        evaluate (expr.push op.symbol) = .error .invalidExpression) := by
  have htree : t.value .double = .ok v := by
    rw [evaluate, hspells.normalForm_eq hwrites.alternating homits] at hvalue
    change evaluateTokens .double (tokensBy Number.floatOfAnyScript? full) = _ at hvalue
    rwa [hspells.tokensBy_eq hwrites.alternating, hwrites.evaluateTokens_eq] at hvalue
  have hpushed : evaluate (expr.push op.symbol) = evaluateTokens .double (ts ++ [.operator op]) := by
    rw [evaluate, String.toList_push, hspells.normalForm_append_symbol hwrites.alternating homits op]
    change evaluateTokens .double (tokensBy Number.floatOfAnyScript? (full ++ [op.symbol])) = _
    rw [hspells.tokensBy_append_symbol hwrites.alternating]
  rw [hpushed]
  exact ⟨DanglesOverZero.evaluateTokens_eq,
    (hwrites.invalid_or_danglesOverZero htree op).resolve_right⟩

/-- A quotient sign divides the product by zero. A product sign takes the same two values, and it is
the difference that lacks an operand. -/
theorem evaluate_push_symbol_twice :
    ∃ (t : Tree Float) (ts : List (Token Float)) (full : List Char) (v : Float),
      Writes 0 t ts ∧ Spells Number.floatOfAnyScript? none ts full ∧
        Omits full (compact "2 3 - .0".toList) ∧ evaluate "2 3 - .0" = .ok v ∧
        evaluate ("2 3 - .0".push '/') = .error .divisionByZero ∧
        evaluate ("2 3 - .0".push '*') = .error .invalidExpression := by
  have htwo : IsLiteral ['2'] := .whole rfl
  have hthree : IsLiteral ['3'] := .whole rfl
  have hnought : IsLiteral ['.', '0'] := .fraction rfl
  have hfirst : Writes Operator.mul.leftLevel _ _ := .number _ "2" (literalValue false ['2'])
  have hsecond : Writes Operator.mul.rightLevel _ _ := .number _ "3" (literalValue false ['3'])
  have hleft : Writes Operator.sub.leftLevel _ _ := .binary (by decide) hfirst hsecond
  have hright : Writes Operator.sub.rightLevel _ _ :=
    .number _ ".0" (literalValue false ['.', '0'])
  have hwrites := Writes.binary (Nat.zero_le _) hleft hright
  have hspells : Spells Number.floatOfAnyScript? none _ "2*3-.0".toList :=
    .literal _ htwo (floatOfAnyScript?_literal htwo) (.operator _ .mul
      (.literal _ hthree (floatOfAnyScript?_literal hthree) (.operator _ .sub
        (.literal _ hnought (floatOfAnyScript?_literal hnought) (.nil _)))))
  have homits : Omits "2*3-.0".toList (compact "2 3 - .0".toList) :=
    .leave rfl (.keep '3' (Omits.refl _))
  obtain ⟨v, hvalue, -⟩ := exists_of_any_toOption (x := evaluate "2 3 - .0") (p := (· == 6))
    (by decide +kernel)
  have hzero : Arithmetic.double.isZero (literalValue false ['.', '0']) = true := by
    decide +kernel
  refine ⟨_, _, _, v, hwrites, hspells, homits, hvalue, ?_, ?_⟩
  · exact (evaluate_push_symbol hwrites hspells homits hvalue .div).1
      (.quotient (.inr rfl) hleft hright rfl hzero)
  · exact (evaluate_push_symbol hwrites hspells homits hvalue .mul).2 fun h => nomatch h

/-- The sum has a value, but a quotient sign behind it takes both of its summands. -/
theorem evaluate_sum_push_quotient_sign :
    (∃ t : Tree Float, t.SpelledBy Number.floatOfAnyScript? "1+0".toList) ∧
      (∃ v, evaluate "1+0" = .ok v) ∧
      evaluate ("1+0".push Operator.div.symbol) = .error .divisionByZero ∧
      evaluate ("1+0".push Operator.div.symbol) ≠ .error .invalidExpression := by
  have hone : IsLiteral ['1'] := .whole rfl
  have hzero : IsLiteral ['0'] := .whole rfl
  obtain ⟨v, hvalue, -⟩ := exists_of_any_toOption (x := evaluate "1+0") (p := (· == 1))
    (by decide +kernel)
  have herror : evaluate ("1+0".push Operator.div.symbol) = .error .divisionByZero :=
    eq_error_of_matches (by decide +kernel)
  refine ⟨⟨_, _, "1+0".toList, .binary (Nat.zero_le _)
    (.number _ "1" (literalValue false ['1'])) (.number _ "0" (literalValue false ['0'])),
    .literal _ hone (floatOfAnyScript?_literal hone) (.operator _ .add
      (.literal _ hzero (floatOfAnyScript?_literal hzero) (.nil _))), Omits.refl _⟩,
    ⟨v, hvalue⟩, herror, ?_⟩
  rw [herror]
  exact fun heq => nomatch heq

end Reckoner.Expr
