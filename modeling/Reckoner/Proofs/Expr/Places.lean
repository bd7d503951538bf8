import Reckoner.Proofs.Expr.Lexemes
import Reckoner.Proofs.Expr.Products

/-!
# Places — where operands and operators are missing

What is missing in a text can be told from neighbouring characters. An operand is missing where one
is due and none begins. An operator is missing between a point and a parenthesis, where no product
is written out, and between two minuses. So writing out the products makes no difference to what is
missing, and in front of a literal or a parenthesis an operator is missing just if one is due.
-/

namespace Reckoner.Expr

/-! ## Places in a text -/

/-- At how many places of a text a condition holds of the character before the place and the text
behind it; `previous` precedes the text. -/
def places (p : Option Char → List Char → Bool) (previous : Option Char) : List Char → Nat
  | [] => (p previous []).toNat
  | c :: cs => (p previous (c :: cs)).toNat + places p (some c) cs

theorem places_cons (p : Option Char → List Char → Bool) (previous : Option Char) (c : Char)
    (cs : List Char) :
    places p previous (c :: cs) = (p previous (c :: cs)).toNat + places p (some c) cs := rfl

/-- The text goes on with an operand. -/
def beginsOperand : List Char → Bool
  | [] => false
  | c :: cs => isLiteralChar c || c == '(' || (c == '-' && cs.head?.any isLiteralChar)

/-- An operand is due, and the text does not go on with one. -/
def lacksOperand (previous : Option Char) (cs : List Char) : Bool :=
  opensLiteral previous && !beginsOperand cs

/-- Two neighbours that leave an operator out but do not stand for a product. -/
def isGap (c d : Char) : Bool :=
  (c == '.' && d == '(') || (c == ')' && d == '.') || (c == '-' && d == '-')

/-- An operator is left out between the character and the text. -/
def lacksOperator (previous : Option Char) (cs : List Char) : Bool :=
  previous.any fun c => cs.head?.any (isGap c)

/-- How many operands are missing in a text. -/
def missingOperands (cs : List Char) : Nat := places lacksOperand none cs

/-- How many operators are missing in a text. -/
def missingOperators (cs : List Char) : Nat := places lacksOperator none cs

example : missingOperands "-(2).5".toList = 1 ∧ missingOperators "-(2).5".toList = 1 := by decide

example : missingOperands "3--(2)".toList = 1 ∧ missingOperators "3--(2)".toList = 1 := by decide

example : missingOperands "3--2".toList = 0 ∧ missingOperators "3--2".toList = 1 := by decide

-- A literal has no such places but the one in front of it.
theorem places_literal {p : Option Char → List Char → Bool}
    (hinside : ∀ c d cs, isLiteralChar c = true → isLiteralChar d = true →
      p (some c) (d :: cs) = false)
    {l : List Char} (hne : l ≠ []) (hliteral : ∀ c ∈ l, isLiteralChar c = true)
    (previous : Option Char) (cs : List Char) :
    places p previous (l ++ cs) = (p previous (l ++ cs)).toNat + places p l.getLast? cs := by
  induction l generalizing previous with
  | nil => exact absurd rfl hne
  | cons c l ih =>
    rw [List.forall_mem_cons] at hliteral
    cases l with
    | nil => rfl
    | cons d l =>
      rw [List.cons_append, places, ih (List.cons_ne_nil d l) hliteral.2, List.cons_append,
        hinside c d _ hliteral.1 (hliteral.2 d List.mem_cons_self), List.getLast?_cons_cons,
        Bool.toNat_false, Nat.zero_add]

/-! ## Neighbours -/

theorem isAllowed_cases {c : Char} (h : isAllowed c = true) :
    isLiteralChar c = true ∨ c = '(' ∨ c = ')' ∨ ∃ op : Operator, c = op.symbol := by
  simp only [isAllowed, Bool.or_eq_true, beq_iff_eq] at h
  rcases h with (((((((h | rfl) | rfl) | rfl) | rfl) | rfl) | rfl) | rfl) | rfl
  · exact .inl (isLiteralChar_of_isDigit h)
  · exact .inr (.inr (.inr ⟨.add, rfl⟩))
  · exact .inr (.inr (.inr ⟨.sub, rfl⟩))
  · exact .inr (.inr (.inr ⟨.mul, rfl⟩))
  · exact .inr (.inr (.inr ⟨.div, rfl⟩))
  · exact .inr (.inr (.inr ⟨.pow, rfl⟩))
  · exact .inr (.inl rfl)
  · exact .inr (.inr (.inl rfl))
  · exact .inl rfl

/-- What is due behind a character. -/
def Expects.behind (previous : Option Char) : Expects :=
  if opensLiteral previous then .operand else .operator

theorem Expects.eq_operand_iff (q : Expects) : q = .operand ↔ q.credit = 0 := by
  cases q <;> simp [credit]

theorem Expects.credit_le (q : Expects) : q.credit ≤ 1 := by
  cases q <;> simp [credit]

/-- What is known of a normal form: it has only characters of expressions, and no two neighbours
stand for a product. -/
structure IsNormal (cs : List Char) : Prop where
  allowed : ∀ c ∈ cs, isAllowed c = true
  products : cs.IsChain fun c d => multiplies c d = false

theorem IsNormal.suffix {cs ds : List Char} (h : IsNormal cs) (hsuffix : ds <:+ cs) : IsNormal ds :=
  ⟨fun c hc => h.allowed c (hsuffix.mem hc), h.products.suffix hsuffix⟩

theorem IsNormal.behind {previous : Option Char} {l cs : List Char}
    (h : IsNormal (previous.toList ++ (l ++ cs))) (hne : l ≠ []) :
    IsNormal (l.getLast?.toList ++ cs) := by
  refine h.suffix ⟨previous.toList ++ l.dropLast, ?_⟩
  rw [List.getLast?_eq_getLast_of_ne_nil hne, Option.toList_some, List.append_assoc,
    ← List.append_assoc l.dropLast, List.dropLast_append_getLast hne]

-- What is known of the last minus of a run, and behind it.
theorem IsNormal.behind_minuses {front l cs : List Char} (n : Nat)
    (h : IsNormal (front ++ '-' :: (List.replicate n '-' ++ (l ++ cs)))) :
    IsNormal ('-' :: (l ++ cs)) ∧ IsNormal (('-' :: l).getLast?.toList ++ cs) := by
  have hend : IsNormal ((none : Option Char).toList ++ ('-' :: l ++ cs)) := by
    refine h.suffix ⟨front ++ List.replicate n '-', ?_⟩
    show _ ++ _ ++ '-' :: (l ++ cs) = _
    rw [List.append_assoc, List.append_cons (List.replicate n '-'), ← List.replicate_succ']
    rfl
  exact ⟨hend, hend.behind (List.cons_ne_nil '-' l)⟩

theorem IsNormal.allowed_of_mem {previous : Option Char} {cs : List Char}
    (h : IsNormal (previous.toList ++ cs)) {c : Char} (hc : c ∈ previous) : isAllowed c = true :=
  h.allowed c (List.mem_append_left _ (Option.mem_toList.mpr hc))

theorem IsNormal.multiplies_eq_false {c d : Char} {cs : List Char}
    (h : IsNormal ((some c).toList ++ d :: cs)) : multiplies c d = false :=
  (List.isChain_cons_cons.mp h.products).1

/-! ## Places between lexemes -/

theorem lacksOperand_of_beginsOperand (previous : Option Char) {cs : List Char}
    (h : beginsOperand cs = true) : lacksOperand previous cs = false := by
  rw [lacksOperand, h]
  exact Bool.and_false _

-- Where no operand begins, one is missing just if one is due.
theorem lacksOperand_add_credit (previous : Option Char) {cs : List Char}
    (h : beginsOperand cs = false) :
    (lacksOperand previous cs).toNat + (Expects.behind previous).credit = 1 := by
  rw [lacksOperand, h, Expects.behind]
  cases opensLiteral previous <;> rfl

theorem lacksOperator_of_forall (previous : Option Char) {d : Char} (cs : List Char)
    (h : ∀ c ∈ previous, isGap c d = false) : lacksOperator previous (d :: cs) = false := by
  cases previous with
  | none => rfl
  | some c => exact h c rfl

-- Where an operand begins, an operator is missing just if one is due.
theorem lacksOperator_eq_credit {previous : Option Char} {d : Char} {cs : List Char}
    (h : IsNormal (previous.toList ++ d :: cs))
    (hd : d = '(' ∨ isLiteralChar d = true ∧ ∀ c ∈ previous, isLiteralChar c = false) :
    (lacksOperator previous (d :: cs)).toNat = (Expects.behind previous).credit := by
  cases previous with
  | none => rfl
  | some c =>
    have hfactor := h.multiplies_eq_false
    have hminus : (d == '-') = false := by
      rw [beq_eq_false_iff_ne]
      rintro rfl
      rcases hd with hd | ⟨hd, -⟩ <;> exact absurd hd (by decide)
    change (isGap c d).toNat = _
    rcases isAllowed_cases (h.allowed_of_mem rfl) with hc | rfl | rfl | ⟨op, rfl⟩
    · -- A digit would make a product with the parenthesis.
      have hopen : d = '(' := hd.resolve_right fun hliteral =>
        nomatch hc.symm.trans (hliteral.2 c rfl)
      subst hopen
      simp only [isLiteralChar, Bool.or_eq_true, beq_iff_eq] at hc
      rcases hc with hc | rfl
      · simp [multiplies, hc] at hfactor
      · rfl
    · have hgap : isGap '(' d = false := by simp [isGap]
      rw [hgap]
      rfl
    · -- And so would a parenthesis with a digit.
      rcases hd with rfl | ⟨hd, -⟩
      · cases hfactor
      · simp only [isLiteralChar, Bool.or_eq_true, beq_iff_eq] at hd
        rcases hd with hd | rfl
        · simp [multiplies, hd] at hfactor
        · rfl
    · have hgap : isGap op.symbol d = false := by
        cases op <;> simp [isGap, Operator.symbol, hminus]
      rw [hgap]
      cases op <;> rfl

/-! ## Places in front of literals -/

theorem lacksOperand_inside (c d : Char) (cs : List Char) (_ : isLiteralChar c = true)
    (hd : isLiteralChar d = true) : lacksOperand (some c) (d :: cs) = false :=
  lacksOperand_of_beginsOperand _ (by rw [beginsOperand, hd]; rfl)

theorem lacksOperator_inside (c d : Char) (cs : List Char) (hc : isLiteralChar c = true)
    (hd : isLiteralChar d = true) : lacksOperator (some c) (d :: cs) = false := by
  have hleft : c ≠ ')' := by
    rintro rfl
    exact absurd hc (by decide)
  have hright : d ≠ '(' := by
    rintro rfl
    exact absurd hd (by decide)
  change isGap c d = false
  simp [isGap, hleft, hright, ne_minus_of_isLiteralChar hc]

-- Behind a literal an operator is due.
theorem behind_literal {l : List Char} (hliteral : ∀ c ∈ l, isLiteralChar c = true) (hne : l ≠ []) :
    Expects.behind l.getLast? = .operator := by
  obtain ⟨c, hlast, hc, -⟩ := isLiteralChar_getLast hliteral hne
  have hcloses : closesOperand c = true := by rw [closesOperand, hc, Bool.true_or]
  rw [hlast, Expects.behind, (not_opensLiteral_of_closesOperand hcloses).1]
  rfl

-- A literal, and what is missing in front of it.
theorem places_of_literal {previous : Option Char} {l cs : List Char}
    (hnormal : IsNormal (previous.toList ++ (l ++ cs)))
    (hstart : ∀ c ∈ previous, isLiteralChar c = false) (hne : l ≠ [])
    (hliteral : ∀ c ∈ l, isLiteralChar c = true) :
    places lacksOperand previous (l ++ cs) = places lacksOperand l.getLast? cs ∧
      places lacksOperator previous (l ++ cs) =
        (Expects.behind previous).credit + places lacksOperator l.getLast? cs := by
  rw [places_literal lacksOperand_inside hne hliteral,
    places_literal lacksOperator_inside hne hliteral]
  obtain ⟨d, l, rfl⟩ := List.exists_cons_of_ne_nil hne
  have hd := hliteral d List.mem_cons_self
  have hbegins : beginsOperand (d :: l ++ cs) = true := by
    rw [List.cons_append, beginsOperand, hd]
    rfl
  rw [lacksOperand_of_beginsOperand previous hbegins]
  refine ⟨Nat.zero_add _, ?_⟩
  rw [List.cons_append] at hnormal ⊢
  rw [lacksOperator_eq_credit hnormal (.inr ⟨hd, hstart⟩)]

-- A minus with a literal behind it.
theorem places_of_signed {l cs : List Char} (hnormal : IsNormal ('-' :: (l ++ cs))) (hne : l ≠ [])
    (hliteral : ∀ c ∈ l, isLiteralChar c = true) :
    beginsOperand ('-' :: (l ++ cs)) = true ∧
      places lacksOperand (some '-') (l ++ cs) = places lacksOperand l.getLast? cs ∧
      places lacksOperator (some '-') (l ++ cs) = places lacksOperator l.getLast? cs := by
  have hstart : ∀ c ∈ some '-', isLiteralChar c = false := by
    rintro _ ⟨⟩
    rfl
  have hcut : IsNormal ((some '-').toList ++ (l ++ cs)) := hnormal
  obtain ⟨hoperands, hoperators⟩ := places_of_literal hcut hstart hne hliteral
  refine ⟨?_, hoperands, hoperators.trans (Nat.zero_add _)⟩
  obtain ⟨d, l, rfl⟩ := List.exists_cons_of_ne_nil hne
  exact hliteral d List.mem_cons_self

-- A minus with no literal behind it.
theorem beginsOperand_minus {cs : List Char} (hends : ∀ c ∈ cs.head?, isLiteralChar c = false) :
    beginsOperand ('-' :: cs) = false := by
  cases cs with
  | nil => rfl
  | cons c cs => exact hends c rfl

-- A minus behind anything but a minus leaves no operator out.
theorem lacksOperator_minus {previous : Option Char} (h : previous ≠ some '-') (cs : List Char) :
    lacksOperator previous ('-' :: cs) = false := by
  refine lacksOperator_of_forall previous cs fun c hc => ?_
  have hminus : c ≠ '-' := fun heq => h (by rw [← heq]; exact hc)
  simp [isGap, hminus]

/-! ## Places in a text and in its normal form -/

-- Places of one sort are the same with the products written out if there are none at a product.
theorem places_writeProducts {p : Option Char → List Char → Bool}
    (hwritten : ∀ previous cs, p previous (writeProducts cs) = p previous cs)
    (hproduct : ∀ c d cs, multiplies c d = true →
      p (some c) (d :: cs) = false ∧ p (some c) ('*' :: d :: cs) = false ∧
        p (some '*') (d :: cs) = false)
    (previous : Option Char) (cs : List Char) :
    places p previous (writeProducts cs) = places p previous cs := by
  induction cs generalizing previous with
  | nil => rfl
  | cons c cs ih =>
    have hfirst := hwritten previous (c :: cs)
    rcases writeProducts_cons_cases c cs with ⟨d, rest, rfl, hmultiplies, heq⟩ | ⟨-, heq⟩
    · obtain ⟨rest', hrest⟩ := List.head?_eq_some_iff.mp (head?_writeProducts (d :: rest))
      have hlater := ih (some c)
      rw [heq] at hfirst ⊢
      rw [hrest] at hfirst hlater ⊢
      obtain ⟨hplace, -, -⟩ := hproduct c d rest hmultiplies
      obtain ⟨hplace', hsign, hfactor⟩ := hproduct c d rest' hmultiplies
      simp only [places_cons, hplace, hplace', Bool.toNat_false, Nat.zero_add] at hlater
      simp only [places_cons, hfirst, hsign, hfactor, hplace, hlater, Bool.toNat_false,
        Nat.zero_add]
    · rw [heq] at hfirst ⊢
      rw [places_cons, places_cons, hfirst, ih]

theorem beginsOperand_writeProducts (cs : List Char) :
    beginsOperand (writeProducts cs) = beginsOperand cs := by
  cases cs with
  | nil => rfl
  | cons c cs =>
    rcases writeProducts_cons_cases c cs with ⟨d, rest, rfl, hmultiplies, heq⟩ | ⟨-, heq⟩
    · -- The character in front of a sign is no minus.
      have hminus : (c == '-') = false := by
        rw [beq_eq_false_iff_ne]
        rintro rfl
        exact absurd hmultiplies (by simp [multiplies])
      rw [heq, beginsOperand, beginsOperand, hminus, Bool.false_and, Bool.false_and]
    · rw [heq, beginsOperand, beginsOperand, head?_writeProducts]

-- What stands on both sides of a sign that is left out.
theorem of_multiplies {c d : Char} (h : multiplies c d = true) :
    closesOperand c = true ∧ (isLiteralChar d = true ∨ d = '(') ∧ isGap c d = false := by
  simp only [multiplies, Bool.and_eq_true, Bool.or_eq_true, beq_iff_eq] at h
  have hne {c : Char} (hc : c.isDigit = true ∨ c = ')' ∨ c = '(') : c ≠ '.' ∧ c ≠ '-' := by
    rcases hc with hc | rfl | rfl
    · exact ⟨by rintro rfl; exact absurd hc (by decide), by rintro rfl; exact absurd hc (by decide)⟩
    · decide
    · decide
  obtain ⟨hc, hd⟩ := h
  have hleft := hne (hc.imp_right .inl)
  have hright := hne (hd.imp_right .inr)
  refine ⟨?_, hd.imp_left isLiteralChar_of_isDigit, by simp [isGap, hleft, hright]⟩
  rcases hc with hc | rfl
  · rw [closesOperand, isLiteralChar_of_isDigit hc, Bool.true_or]
  · rfl

theorem missingOperands_writeProducts (cs : List Char) :
    missingOperands (writeProducts cs) = missingOperands cs := by
  refine places_writeProducts (fun previous cs => ?_) (fun c d cs h => ?_) none cs
  · rw [lacksOperand, lacksOperand, beginsOperand_writeProducts]
  · obtain ⟨hcloses, hopens, -⟩ := of_multiplies h
    have hleft (rest : List Char) : lacksOperand (some c) rest = false := by
      rw [lacksOperand, (not_opensLiteral_of_closesOperand hcloses).1, Bool.false_and]
    have hbegins : beginsOperand (d :: cs) = true := by
      rcases hopens with hd | rfl
      · rw [beginsOperand, hd]
        rfl
      · rfl
    exact ⟨hleft _, hleft _, lacksOperand_of_beginsOperand _ hbegins⟩

theorem missingOperators_writeProducts (cs : List Char) :
    missingOperators (writeProducts cs) = missingOperators cs := by
  refine places_writeProducts (fun previous cs => ?_) (fun c d cs h => ?_) none cs
  · rw [lacksOperator, lacksOperator, head?_writeProducts]
  · refine ⟨(of_multiplies h).2.2, ?_, ?_⟩
    · change isGap c '*' = false
      simp [isGap]
    · change isGap '*' d = false
      simp [isGap]

/-! ## Texts that lack nothing -/

theorem isChain_iff_forall_pair {R : Char → Char → Prop} {cs : List Char} :
    cs.IsChain R ↔ ∀ c d, [c, d] <:+: cs → R c d :=
  ⟨fun h _ _ hpair =>
    have hchain := List.IsChain.infix h hpair
    (List.isChain_cons_cons.mp hchain).1,
    fun h => (List.isChain_isInfix cs).imp h⟩

theorem places_lacksOperator_eq_zero (previous : Option Char) (cs : List Char) :
    places lacksOperator previous cs = 0 ↔
      (previous.toList ++ cs).IsChain fun c d => isGap c d = false := by
  induction cs generalizing previous with
  | nil => cases previous <;> simp [places, lacksOperator]
  | cons d cs ih =>
    rw [places_cons, Nat.add_eq_zero_iff, ih, Bool.toNat_eq_zero]
    cases previous with
    | none => exact and_iff_right rfl
    | some c =>
      show isGap c d = false ∧ (d :: cs).IsChain _ ↔ (c :: d :: cs).IsChain _
      rw [List.isChain_cons_cons]

/-- Operators are missing only next to a point and a parenthesis, and in runs of minuses. -/
theorem missingOperators_eq_zero {cs : List Char} :
    missingOperators cs = 0 ↔
      ¬['.', '('] <:+: cs ∧ ¬[')', '.'] <:+: cs ∧ ¬['-', '-'] <:+: cs := by
  rw [missingOperators, places_lacksOperator_eq_zero, Option.toList_none, List.nil_append,
    isChain_iff_forall_pair]
  constructor
  · exact fun h => ⟨fun hpair => (nomatch h _ _ hpair), fun hpair => (nomatch h _ _ hpair),
      fun hpair => nomatch h _ _ hpair⟩
  · rintro ⟨hopen, hclose, hrun⟩ c d hpair
    rw [← Bool.not_eq_true]
    simp only [isGap, Bool.or_eq_true, Bool.and_eq_true, beq_iff_eq]
    rintro ((⟨rfl, rfl⟩ | ⟨rfl, rfl⟩) | ⟨rfl, rfl⟩)
    exacts [hopen hpair, hclose hpair, hrun hpair]

end Reckoner.Expr
