import Reckoner.Expr.Evaluation
import Reckoner.Expr.Spelling
import Reckoner.Proofs.Expr.Alternation

/-!
# Lexing — from a spelled text back to its tokens

Two passes undo a spelling. Writing out the products of a text from which signs were left out gives
the text in full, because nothing that spells alternating tokens has two neighbours that stand for a
product. The lexer then finds the tokens, because a minus that is an operator stands behind an
operand and one that belongs to a literal does not.
-/

namespace Reckoner.Expr

variable {α : Type} {read : List Char → Option α}

/-! ## Tokens that write a tree alternate -/

theorem Writes.alternatesFrom {n : Nat} {t : Tree α} {ts : List (Token α)} (h : Writes n t ts)
    (rest : List (Token α)) :
    alternatesFrom .operand (ts ++ rest) = alternatesFrom .operator rest := by
  induction h generalizing rest with
  | number => rfl
  | @group n t ts _ ih =>
    change Expr.alternatesFrom .operand ((ts ++ [Token.rightParen]) ++ rest) = _
    rw [List.append_assoc, ih]
    rfl
  | binary _ _ _ ihLeft ihRight =>
    rw [List.append_assoc, ihLeft]
    change Expr.alternatesFrom .operand (_ ++ rest) = _
    rw [ihRight]

theorem Writes.alternating {n : Nat} {t : Tree α} {ts : List (Token α)} (h : Writes n t ts) :
    Alternating ts := by
  rw [Alternating, ← List.append_nil ts, h.alternatesFrom]
  rfl

/-! ## Characters of literals and operators -/

theorem isLiteralChar_of_isDigit {c : Char} (h : c.isDigit = true) : isLiteralChar c = true := by
  rw [isLiteralChar, h, Bool.true_or]

theorem IsLiteral.isLiteralChar {l : List Char} (h : IsLiteral l) :
    ∀ c ∈ l, isLiteralChar c = true := by
  have hpoint : Expr.isLiteralChar '.' = true := rfl
  cases h <;> simp [*, isLiteralChar_of_isDigit]

theorem IsLiteral.ne_nil {l : List Char} (h : IsLiteral l) : l ≠ [] := by
  cases h <;> exact List.cons_ne_nil _ _

theorem ofSymbol?_of_isLiteralChar {c : Char} (h : isLiteralChar c = true) :
    Operator.ofSymbol? c = none := by
  unfold Operator.ofSymbol?
  split <;> first | rfl | exact absurd h (by decide)

theorem isLiteralChar_symbol (op : Operator) : isLiteralChar op.symbol = false := by
  cases op <;> rfl

/-- A character that an operand can end with. -/
def closesOperand (c : Char) : Bool := isLiteralChar c || c == ')'

theorem not_opensLiteral_of_closesOperand {c : Char} (h : closesOperand c = true) :
    opensLiteral (some c) = false ∧ c ≠ '-' := by
  unfold opensLiteral
  constructor
  · rw [Bool.eq_false_iff]
    intro hopens
    simp only [Bool.or_eq_true, beq_iff_eq] at hopens
    rcases hopens with ((((rfl | rfl) | rfl) | rfl) | rfl) | rfl <;> exact absurd h (by decide)
  · rintro rfl
    exact absurd h (by decide)

theorem IsLiteral.closesOperand {l : List Char} (h : IsLiteral l) :
    ∃ c, l.getLast? = some c ∧ closesOperand c = true := by
  refine ⟨l.getLast h.ne_nil, List.getLast?_eq_getLast_of_ne_nil h.ne_nil, ?_⟩
  rw [Expr.closesOperand, h.isLiteralChar _ (List.getLast_mem h.ne_nil), Bool.true_or]

namespace Token

theorem ofText_eq_getD {l : List Char} (hoperator : Operator.ofText? l = none) (hleft : l ≠ ['('])
    (hright : l ≠ [')']) : ofText read l = (number? read l).getD (.unknown (String.ofList l)) := by
  rw [ofText, hoperator]
  simp only [if_neg hleft, if_neg hright]

-- Digits and points are a number or unknown.
theorem ofText_of_isLiteralChar {l : List Char} (hne : l ≠ [])
    (hliteral : ∀ c ∈ l, isLiteralChar c = true) :
    ofText read l = (number? read l).getD (.unknown (String.ofList l)) := by
  refine ofText_eq_getD ?_ ?_ ?_
  · match l, hne with
    | [c], _ => exact ofSymbol?_of_isLiteralChar (hliteral c List.mem_cons_self)
    | _ :: _ :: _, _ => rfl
  · rintro rfl
    exact absurd (hliteral '(' List.mem_cons_self) (by decide)
  · rintro rfl
    exact absurd (hliteral ')' List.mem_cons_self) (by decide)

-- With a minus in front they are as well; the minus alone is an operator.
theorem ofText_minus_cons {l : List Char} (hne : l ≠ []) :
    ofText read ('-' :: l) =
      (number? read ('-' :: l)).getD (.unknown (String.ofList ('-' :: l))) := by
  refine ofText_eq_getD ?_ (by simp) (by simp)
  cases l with
  | nil => exact absurd rfl hne
  | cons c l => rfl

theorem ofText_literal {l : List Char} {value : α} (h : IsLiteral l)
    (hread : read l = some value) : ofText read l = .number (String.ofList l) value := by
  rw [ofText_of_isLiteralChar h.ne_nil h.isLiteralChar, number?, hread]
  rfl

theorem ofText_negative {l : List Char} {value : α} (h : IsLiteral l)
    (hread : read ('-' :: l) = some value) :
    ofText read ('-' :: l) = .number (String.ofList ('-' :: l)) value := by
  rw [ofText_minus_cons h.ne_nil, number?, hread]
  rfl

theorem ofText_symbol (op : Operator) : ofText read [op.symbol] = .operator op := by
  rw [ofText, Operator.ofText?, Operator.ofSymbol?_symbol]

end Token

/-! ## Products -/

theorem multiplies_eq_false_of_left {c : Char} (h : c.isDigit = false) (hclose : c ≠ ')')
    (d : Char) : multiplies c d = false := by
  simp [multiplies, h, hclose]

theorem multiplies_eq_false_of_right {d : Char} (h : d.isDigit = false) (hopen : d ≠ '(')
    (c : Char) : multiplies c d = false := by
  simp [multiplies, h, hopen]

theorem isDigit_symbol (op : Operator) : op.symbol.isDigit = false := by
  cases op <;> rfl

theorem writeProducts_eq_self {cs : List Char}
    (h : cs.IsChain fun c d => multiplies c d = false) : writeProducts cs = cs := by
  induction cs with
  | nil => rfl
  | cons c cs ih =>
    change prependFactor c (writeProducts cs) = c :: cs
    rw [ih h.tail]
    cases cs with
    | nil => rfl
    | cons d cs =>
      rw [prependFactor, (List.isChain_cons_cons.mp h).1]
      exact if_neg Bool.false_ne_true

theorem isChain_cons_of_forall {c : Char} {cs : List Char}
    (h : cs.IsChain fun c d => multiplies c d = false) (hhead : ∀ d, multiplies c d = false) :
    (c :: cs).IsChain fun c d => multiplies c d = false := by
  cases cs with
  | nil => exact .singleton c
  | cons d cs => exact List.isChain_cons_cons.mpr ⟨hhead d, h⟩

theorem IsLiteral.isChain {l : List Char} (h : IsLiteral l) :
    l.IsChain fun c d => multiplies c d = false := by
  have hleft := multiplies_eq_false_of_left (c := '.') rfl (by decide)
  have hright := multiplies_eq_false_of_right (d := '.') rfl (by decide)
  cases h with
  | whole => exact .singleton _
  | wholePoint => exact List.isChain_cons_cons.mpr ⟨hright _, .singleton _⟩
  | fraction => exact List.isChain_cons_cons.mpr ⟨hleft _, .singleton _⟩
  | wholeFraction =>
    exact List.isChain_cons_cons.mpr
      ⟨hright _, List.isChain_cons_cons.mpr ⟨hleft _, .singleton _⟩⟩

-- A literal in front of a text that does not begin an operand.
theorem IsLiteral.isChain_append {l cs : List Char} (h : IsLiteral l)
    (hrest : cs.IsChain fun c d => multiplies c d = false)
    (hhead : ∀ d, cs.head? = some d → ∀ c, multiplies c d = false) :
    (l ++ cs).IsChain fun c d => multiplies c d = false :=
  List.isChain_append.mpr ⟨h.isChain, hrest, fun c _ d hd => hhead d hd c⟩

-- What spells alternating tokens has no products to write out, and where an operator is expected
-- no neighbour on the left makes it one.
theorem Spells.isChain {previous : Option Char} {ts : List (Token α)} {cs : List Char}
    (h : Spells read previous ts cs) (q : Expects) (halternates : alternatesFrom q ts = true) :
    (cs.IsChain fun c d => multiplies c d = false) ∧
      (q = .operator → ∀ d, cs.head? = some d → ∀ c, multiplies c d = false) := by
  induction h generalizing q with
  | nil => exact ⟨.nil, fun _ d hd => nomatch hd⟩
  | literal _ hliteral _ _ ih =>
    cases q with
    | operator => exact nomatch halternates
    | operand =>
      obtain ⟨hrest, hhead⟩ := ih .operator halternates
      exact ⟨hliteral.isChain_append hrest (hhead rfl), fun hq => nomatch hq⟩
  | negative _ hliteral _ _ ih =>
    cases q with
    | operator => exact nomatch halternates
    | operand =>
      obtain ⟨hrest, hhead⟩ := ih .operator halternates
      refine ⟨isChain_cons_of_forall (hliteral.isChain_append hrest (hhead rfl)) ?_,
        fun hq => nomatch hq⟩
      exact multiplies_eq_false_of_left rfl (by decide)
  | operator _ op _ ih =>
    cases q with
    | operand => exact nomatch halternates
    | operator =>
      obtain ⟨hrest, -⟩ := ih .operand halternates
      have hclose : op.symbol ≠ ')' := by cases op <;> decide
      have hopen : op.symbol ≠ '(' := by cases op <;> decide
      refine ⟨isChain_cons_of_forall hrest
        (multiplies_eq_false_of_left (isDigit_symbol op) hclose), fun _ d hd => ?_⟩
      cases hd
      exact multiplies_eq_false_of_right (isDigit_symbol op) hopen
  | leftParen _ _ ih =>
    cases q with
    | operator => exact nomatch halternates
    | operand =>
      obtain ⟨hrest, -⟩ := ih .operand halternates
      exact ⟨isChain_cons_of_forall hrest (multiplies_eq_false_of_left rfl (by decide)),
        fun hq => nomatch hq⟩
  | @rightParen _ cs _ _ ih =>
    cases q with
    | operand => exact nomatch halternates
    | operator =>
      obtain ⟨hrest, hhead⟩ := ih .operator halternates
      refine ⟨?_, fun _ d hd => ?_⟩
      · cases cs with
        | nil => exact .singleton _
        | cons d cs => exact List.isChain_cons_cons.mpr ⟨hhead rfl d rfl _, hrest⟩
      · cases hd
        exact multiplies_eq_false_of_right rfl (by decide)

theorem isAllowed_of_isLiteralChar {c : Char} (h : isLiteralChar c = true) :
    isAllowed c = true := by
  simp only [isLiteralChar, Bool.or_eq_true] at h
  rcases h with h | h <;> simp [isAllowed, h]

theorem IsLiteral.isAllowed {l : List Char} (h : IsLiteral l) : ∀ c ∈ l, isAllowed c = true :=
  fun c hmem => isAllowed_of_isLiteralChar (h.isLiteralChar c hmem)

theorem Spells.isAllowed {previous : Option Char} {ts : List (Token α)} {cs : List Char}
    (h : Spells read previous ts cs) : ∀ c ∈ cs, isAllowed c = true := by
  induction h with
  | nil => exact List.forall_mem_nil _
  | literal _ hliteral _ _ ih => exact List.forall_mem_append.mpr ⟨hliteral.isAllowed, ih⟩
  | negative _ hliteral _ _ ih =>
    exact List.forall_mem_cons.mpr ⟨rfl, List.forall_mem_append.mpr ⟨hliteral.isAllowed, ih⟩⟩
  | operator _ op _ ih => exact List.forall_mem_cons.mpr ⟨by cases op <;> rfl, ih⟩
  | leftParen _ _ ih => exact List.forall_mem_cons.mpr ⟨rfl, ih⟩
  | rightParen _ _ ih => exact List.forall_mem_cons.mpr ⟨rfl, ih⟩

-- With its products written out, a text from which signs were left out is the text in full.
theorem Spells.writeProducts_eq {ts : List (Token α)} {full cs : List Char}
    (h : Spells read none ts full) (halternating : Alternating ts) (homits : Omits full cs) :
    writeProducts cs = full := by
  rw [← homits.writeProducts_eq.1]
  exact writeProducts_eq_self (h.isChain .operand halternating).1

-- The normal form of a text from which signs were left out is the text in full.
theorem Spells.normalForm_eq {ts : List (Token α)} {full cs : List Char}
    (h : Spells read none ts full) (halternating : Alternating ts) (homits : Omits full (compact cs)) :
    normalForm cs = .ok full := by
  simp only [normalForm, h.writeProducts_eq halternating homits]
  rw [if_pos (List.all_eq_true.mpr h.isAllowed)]

/-! ## The lexer -/

namespace Lexer

theorem previous_step (l : Lexer α) (c : Char) : (l.step read c).previous = some c := by
  unfold step
  split_ifs <;> rfl

theorem step_isLiteralChar (l : Lexer α) {c : Char} (h : isLiteralChar c = true) :
    l.step read c = ⟨l.emitted, c :: l.pending, some c⟩ := by
  rw [step, if_pos h]

theorem foldl_step_literal (l : Lexer α) {cs : List Char}
    (h : ∀ c ∈ cs, isLiteralChar c = true) :
    cs.foldl (step read) l = ⟨l.emitted, cs.reverse ++ l.pending, cs.getLast?.or l.previous⟩ := by
  induction cs generalizing l with
  | nil => rfl
  | cons c cs ih =>
    rw [List.foldl_cons, step_isLiteralChar l (h c (List.mem_cons_self ..)),
      ih _ fun d hmem => h d (List.mem_cons_of_mem c hmem)]
    rw [List.reverse_cons, List.append_assoc, List.getLast?_cons]
    cases cs.getLast? <;> rfl

theorem step_minus (l : Lexer α) (hprevious : l.previous ≠ some '-')
    (hopens : opensLiteral l.previous = true) :
    l.step read '-' = ⟨l.flush read, ['-'], some '-'⟩ := by
  rw [step, if_neg (by decide), if_neg fun h => hprevious h.2, if_pos ⟨rfl, hopens⟩]

theorem step_symbol (l : Lexer α) {c : Char} (hliteral : isLiteralChar c = false)
    (hminus : c = '-' → l.previous ≠ some '-' ∧ opensLiteral l.previous = false) :
    l.step read c = ⟨Token.ofText read [c] :: l.flush read, [], some c⟩ := by
  rw [step, if_neg (by rw [hliteral]; exact Bool.false_ne_true)]
  rw [if_neg fun h => (hminus h.1).1 h.2, if_neg ?_]
  rintro ⟨rfl, hopens⟩
  rw [(hminus rfl).2] at hopens
  exact nomatch hopens

theorem flush_of_pending_eq_nil {l : Lexer α} (h : l.pending = []) : l.flush read = l.emitted := by
  rw [flush, h]
  rfl

theorem flush_of_pending {l : Lexer α} {cs : List Char} (h : l.pending = cs.reverse)
    (hne : cs ≠ []) : l.flush read = Token.ofText read cs :: l.emitted := by
  rw [flush, h, List.reverse_reverse, if_neg]
  simpa using hne

end Lexer

-- Reading a text that spells tokens adds them to what has been read.
theorem Spells.foldl_step {previous : Option Char} {ts : List (Token α)} {cs : List Char}
    (h : Spells read previous ts cs) (q : Expects) (halternates : alternatesFrom q ts = true)
    (l : Lexer α) (hprevious : l.previous = previous) (hoperand : q = .operand → l.pending = [])
    (hoperator : q = .operator → ∃ c, previous = some c ∧ closesOperand c = true) :
    (cs.foldl (Lexer.step read) l).flush read = ts.reverse ++ l.flush read := by
  induction h generalizing q l with
  | nil previous => rfl
  | @literal previous literal cs value ts hliteral hread _ ih =>
    cases q with
    | operator => exact nomatch halternates
    | operand =>
      obtain ⟨c, hlast, hcloses⟩ := hliteral.closesOperand
      have hpending := hoperand rfl
      rw [List.foldl_append, Lexer.foldl_step_literal l hliteral.isLiteralChar]
      rw [ih .operator halternates _ (by rw [hlast]; rfl) (fun hq => nomatch hq)
        fun _ => ⟨c, hlast, hcloses⟩]
      rw [Lexer.flush_of_pending (by rw [hpending, List.append_nil]) hliteral.ne_nil,
        Lexer.flush_of_pending_eq_nil hpending, Token.ofText_literal hliteral hread]
      simp
  | @negative previous literal cs value ts hsign hliteral hread _ ih =>
    cases q with
    | operator => exact nomatch halternates
    | operand =>
      obtain ⟨c, hlast, hcloses⟩ := hliteral.closesOperand
      have hpending := hoperand rfl
      have hminus : l.previous ≠ some '-' ∧ opensLiteral l.previous = true := by
        rw [hprevious]
        cases previous with
        | none => exact ⟨fun h => (nomatch h), rfl⟩
        | some d =>
          simp only [admitsSign, Bool.or_eq_true, beq_iff_eq] at hsign
          rcases hsign with (((rfl | rfl) | rfl) | rfl) | rfl <;> decide
      rw [List.foldl_cons, Lexer.step_minus l hminus.1 hminus.2, List.foldl_append,
        Lexer.foldl_step_literal _ hliteral.isLiteralChar]
      rw [ih .operator halternates _ (by rw [hlast]; rfl) (fun hq => nomatch hq)
        fun _ => ⟨c, hlast, hcloses⟩]
      rw [Lexer.flush_of_pending (List.reverse_cons ..).symm (List.cons_ne_nil _ _),
        Token.ofText_negative hliteral hread]
      simp
  | @operator previous op cs ts _ ih =>
    cases q with
    | operand => exact nomatch halternates
    | operator =>
      obtain ⟨c, hc, hcloses⟩ := hoperator rfl
      have hminus := not_opensLiteral_of_closesOperand hcloses
      rw [List.foldl_cons, Lexer.step_symbol l (isLiteralChar_symbol op) fun _ => by
        rw [hprevious, hc]
        exact ⟨fun h => hminus.2 (Option.some.inj h), hminus.1⟩]
      rw [ih .operand halternates _ rfl (fun _ => rfl) fun hq => nomatch hq]
      rw [Lexer.flush_of_pending_eq_nil rfl, Token.ofText_symbol]
      simp
  | @leftParen previous cs ts _ ih =>
    cases q with
    | operator => exact nomatch halternates
    | operand =>
      rw [List.foldl_cons, Lexer.step_symbol l (c := '(') rfl fun h => nomatch h]
      rw [ih .operand halternates _ rfl (fun _ => rfl) fun hq => nomatch hq]
      rw [Lexer.flush_of_pending_eq_nil rfl, List.reverse_cons, List.append_assoc]
      rfl
  | @rightParen previous cs ts _ ih =>
    cases q with
    | operand => exact nomatch halternates
    | operator =>
      rw [List.foldl_cons, Lexer.step_symbol l (c := ')') rfl fun h => nomatch h]
      rw [ih .operator halternates _ rfl (fun hq => nomatch hq) fun _ => ⟨')', rfl, rfl⟩]
      rw [Lexer.flush_of_pending_eq_nil rfl, List.reverse_cons, List.append_assoc]
      rfl

theorem Spells.tokensBy_eq {ts : List (Token α)} {cs : List Char} (h : Spells read none ts cs)
    (halternating : Alternating ts) : tokensBy read cs = ts := by
  rw [tokensBy, h.foldl_step .operand halternating .initial rfl (fun _ => rfl) fun hq => nomatch hq]
  rw [Lexer.flush_of_pending_eq_nil rfl]
  simp [Lexer.initial]

end Reckoner.Expr
