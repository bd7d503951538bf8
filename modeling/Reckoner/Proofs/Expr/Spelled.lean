import Reckoner.Proofs.Expr.Lexing
import Reckoner.Proofs.Text.Lines

/-!
# Spelled — the value of an expression as people type it

A literal reads as the double nearest to the number that it spells. With that, however an expression
is spelled, evaluating the text gives the value of its tree.
-/

namespace Reckoner.Expr

open Number Text

/-! ## Reading literals -/

-- What holds of the ten digits holds of every digit.
theorem forall_of_isDigit {motive : Char → Prop} (h : ∀ n < 10, motive (Char.ofNat (n + 48)))
    {d : Char} (hd : d.isDigit = true) : motive d := by
  have hrange : 48 ≤ d.toNat ∧ d.toNat ≤ 57 := Char.isDigit_iff_toNat.mp hd
  have hchar := h (d.toNat - 48) (by omega)
  rw [Nat.sub_add_cancel hrange.1, Char.ofNat_toNat] at hchar
  exact hchar

/-- A character that reading leaves alone: of ASCII, neither blank nor an underscore. -/
def IsPlain (c : Char) : Prop := c.toNat < 128 ∧ isWhiteSpace c = false ∧ c ≠ '_'

instance (c : Char) : Decidable (IsPlain c) := inferInstanceAs (Decidable (_ ∧ _ ∧ _))

theorem isPlain_of_isLiteralChar {c : Char} (h : isLiteralChar c = true) : IsPlain c := by
  simp only [isLiteralChar, Bool.or_eq_true, beq_iff_eq] at h
  rcases h with h | rfl
  · exact forall_of_isDigit (motive := IsPlain) (by decide) h
  · decide

theorem joinDigits?_eq_self {cs : List Char} (h : ∀ c ∈ cs, c ≠ '_') :
    joinDigits? cs = some cs := by
  have hseparates (previous : Char) : separatesDigits previous cs = true := by
    induction cs generalizing previous with
    | nil => rfl
    | cons c cs ih =>
      have hc : (c != '_') = true := bne_iff_ne.mpr (h c (List.mem_cons_self ..))
      rw [separatesDigits, hc, Bool.true_or, Bool.true_and]
      exact ih (fun d hmem => h d (List.mem_cons_of_mem c hmem)) c
  rw [joinDigits?, if_pos (hseparates ' '), List.filter_eq_self.mpr]
  exact fun c hmem => bne_iff_ne.mpr (h c hmem)

theorem floatOfAnyScript?_of_isPlain {cs : List Char} (h : ∀ c ∈ cs, IsPlain c) :
    floatOfAnyScript? cs = float? cs := by
  have hfold : cs.map foldDigit = cs := by
    rw [List.map_congr_left fun c hmem => foldDigit_of_ascii (h c hmem).1]
    exact List.map_id' cs
  have htrim : trimBy isWhiteSpace cs = cs := by
    refine trimBy_eq (fun c hc => ?_) (fun c hc => ?_)
    · exact (h c (List.mem_of_mem_head? hc)).2.1
    · exact (h c (List.mem_of_mem_getLast? hc)).2.1
  rw [floatOfAnyScript?, hfold, htrim, joinDigits?_eq_self fun c hmem => (h c hmem).2.2]
  rfl

/-- The number that a literal spells: its digits, and as many places as stand behind the point. -/
def literalDecimal (l : List Char) : Decimal :=
  ⟨ofDigits (l.filter Char.isDigit), -(((l.dropWhile (· != '.')).drop 1).length : Int)⟩

/-- The double nearest to a literal with or without a minus. -/
def literalValue (negative : Bool) (l : List Char) : Float :=
  (literalDecimal l).toFloat negative

theorem decimal?_literal {l : List Char} (h : IsLiteral l) :
    decimal? l = some (literalDecimal l) := by
  have hpoint : Char.isDigit '.' = false := rfl
  have hne {d : Char} (hd : d.isDigit = true) : d ≠ '.' := by
    rintro rfl
    exact absurd hd (by decide)
  cases h with
  | whole hd => simp [decimal?, literalDecimal, splitFraction, exponent?, hd, hne hd]
  | wholePoint hd => simp [decimal?, literalDecimal, splitFraction, exponent?, hd, hne hd]
  | fraction hd => simp [decimal?, literalDecimal, splitFraction, exponent?, hd]
  | wholeFraction hd he =>
    simp [decimal?, literalDecimal, splitFraction, exponent?, hd, he, hne hd]

-- Digits and points begin with no sign and with no letter of a special value.
theorem exists_head_of_isLiteralChar {l : List Char} (hne : l ≠ [])
    (h : ∀ c ∈ l, isLiteralChar c = true) :
    ∃ c rest, l = c :: rest ∧ c ≠ '-' ∧ c ≠ '+' ∧ c.toLower ≠ 'i' ∧ c.toLower ≠ 'n' := by
  have hhead {c : Char} (hc : isLiteralChar c = true) :
      c ≠ '-' ∧ c ≠ '+' ∧ c.toLower ≠ 'i' ∧ c.toLower ≠ 'n' := by
    simp only [isLiteralChar, Bool.or_eq_true, beq_iff_eq] at hc
    rcases hc with hc | rfl
    · exact forall_of_isDigit
        (motive := fun c => c ≠ '-' ∧ c ≠ '+' ∧ c.toLower ≠ 'i' ∧ c.toLower ≠ 'n') (by decide) hc
    · decide
  obtain ⟨c, rest, rfl⟩ := List.exists_cons_of_ne_nil hne
  exact ⟨c, rest, rfl, hhead (h c (List.mem_cons_self ..))⟩

theorem magnitude?_of_isLiteralChar (negative : Bool) {l : List Char} (hne : l ≠ [])
    (h : ∀ c ∈ l, isLiteralChar c = true) :
    magnitude? negative l = (decimal? l).map (Decimal.toFloat negative) := by
  obtain ⟨c, rest, rfl, -, -, hi, hn⟩ := exists_head_of_isLiteralChar hne h
  have hinfinity : ¬((c :: rest).map Char.toLower = "inf".toList ∨
      (c :: rest).map Char.toLower = "infinity".toList) := by
    rintro (hword | hword) <;> exact hi (List.cons.inj hword).1
  have hnan : ¬(c :: rest).map Char.toLower = "nan".toList := fun hword =>
    hn (List.cons.inj hword).1
  simp only [magnitude?, if_neg hinfinity, if_neg hnan]

/-- Digits and points read as the double nearest to the number that they spell, if they spell one.
-/
theorem floatOfAnyScript?_of_isLiteralChar {l : List Char} (hne : l ≠ [])
    (h : ∀ c ∈ l, isLiteralChar c = true) :
    floatOfAnyScript? l = (decimal? l).map (Decimal.toFloat false) := by
  rw [floatOfAnyScript?_of_isPlain fun c hmem => isPlain_of_isLiteralChar (h c hmem)]
  have hmagnitude := magnitude?_of_isLiteralChar false hne h
  obtain ⟨c, rest, rfl, hminus, hplus, -, -⟩ := exists_head_of_isLiteralChar hne h
  have hsign : splitSign (c :: rest) = (false, c :: rest) := by
    unfold splitSign
    split
    · rename_i hc
      exact absurd (List.cons.inj hc).1 hminus
    · rename_i hc
      exact absurd (List.cons.inj hc).1 hplus
    · rfl
  rw [float?, hsign]
  exact hmagnitude

theorem floatOfAnyScript?_signed {l : List Char} (hne : l ≠ [])
    (h : ∀ c ∈ l, isLiteralChar c = true) :
    floatOfAnyScript? ('-' :: l) = (decimal? l).map (Decimal.toFloat true) := by
  have hplain : ∀ c ∈ '-' :: l, IsPlain c := List.forall_mem_cons.mpr
    ⟨by decide, fun c hmem => isPlain_of_isLiteralChar (h c hmem)⟩
  rw [floatOfAnyScript?_of_isPlain hplain]
  exact magnitude?_of_isLiteralChar true hne h

theorem floatOfAnyScript?_literal {l : List Char} (h : IsLiteral l) :
    floatOfAnyScript? l = some (literalValue false l) := by
  rw [floatOfAnyScript?_of_isLiteralChar h.ne_nil h.isLiteralChar, decimal?_literal h]
  rfl

theorem floatOfAnyScript?_negative {l : List Char} (h : IsLiteral l) :
    floatOfAnyScript? ('-' :: l) = some (literalValue true l) := by
  rw [floatOfAnyScript?_signed h.ne_nil h.isLiteralChar, decimal?_literal h]
  rfl

/-! ## Trees of literals -/

/-- All numbers of the tree are literals, with or without a minus, and have their values. -/
inductive Tree.OfLiterals : Tree Float → Prop where
  | positive {l : List Char} : IsLiteral l →
    OfLiterals (.number (String.ofList l) (literalValue false l))
  | negative {l : List Char} : IsLiteral l →
    OfLiterals (.number (String.ofList ('-' :: l)) (literalValue true l))
  | binary {left right : Tree Float} (op : Operator) : OfLiterals left → OfLiterals right →
    OfLiterals (.binary op left right)

theorem Spells.parenthesized {t : Tree Float} (h : t.OfLiterals) :
    ∃ ts full, (∀ level, Writes level t ts) ∧
      ∀ previous us cs, Spells floatOfAnyScript? (some ')') us cs →
        Spells floatOfAnyScript? previous (ts ++ us) (full ++ cs) := by
  induction h with
  | @positive l hliteral =>
    refine ⟨[.leftParen, .number _ _, .rightParen], '(' :: (l ++ [')']), fun level =>
      .group level (.number 0 _ _), fun previous us cs hrest => ?_⟩
    have hinside := Spells.literal (some '(') hliteral (floatOfAnyScript?_literal hliteral)
      (.rightParen _ hrest)
    simpa using Spells.leftParen previous hinside
  | @negative l hliteral =>
    refine ⟨[.leftParen, .number _ _, .rightParen], '(' :: '-' :: (l ++ [')']), fun level =>
      .group level (.number 0 _ _), fun previous us cs hrest => ?_⟩
    have hsign : admitsSign (some '(') = true := rfl
    have hinside := Spells.negative hsign hliteral (floatOfAnyScript?_negative hliteral)
      (.rightParen _ hrest)
    simpa using Spells.leftParen previous hinside
  | binary op _ _ ihLeft ihRight =>
    obtain ⟨ts, left, hts, hleft⟩ := ihLeft
    obtain ⟨us, right, hus, hright⟩ := ihRight
    refine ⟨.leftParen :: ((ts ++ .operator op :: us) ++ [.rightParen]),
      '(' :: (left ++ op.symbol :: (right ++ [')'])), fun level =>
      .group level (.binary (Nat.zero_le _) (hts _) (hus _)), fun previous vs cs hrest => ?_⟩
    have hinside := hleft (some '(') _ _ (.operator _ op (hright _ _ _ (.rightParen _ hrest)))
    simpa using Spells.leftParen previous hinside

theorem isBlank_of_isAllowed {c : Char} (h : isAllowed c = true) : isBlank c = false := by
  by_cases hd : c.isDigit = true
  · exact forall_of_isDigit (motive := fun c => isBlank c = false) (by decide) hd
  · rw [Bool.not_eq_true] at hd
    simp only [isAllowed, hd, Bool.false_or, Bool.or_eq_true, beq_iff_eq] at h
    rcases h with ((((((rfl | rfl) | rfl) | rfl) | rfl) | rfl) | rfl) | rfl <;> rfl

theorem compact_eq_self {cs : List Char} (h : ∀ c ∈ cs, isAllowed c = true) : compact cs = cs :=
  List.filter_eq_self.mpr fun c hc => by rw [isBlank_of_isAllowed (h c hc)]; rfl

theorem Tree.OfLiterals.exists_spelling {t : Tree Float} (h : t.OfLiterals) :
    ∃ s : String, t.SpelledBy floatOfAnyScript? s.toList := by
  obtain ⟨ts, full, hwrites, hspells⟩ := Spells.parenthesized h
  have hspelled := hspells none [] [] (.nil _)
  rw [List.append_nil, List.append_nil] at hspelled
  refine ⟨String.ofList full, ts, full, hwrites 0, hspelled, ?_⟩
  rw [String.toList_ofList, compact_eq_self hspelled.isAllowed]
  exact Omits.refl full

/-! ## Evaluating what is spelled -/

/-- A tree of literals can be spelled, and however it is spelled, the text has the value of the tree
over the operations on doubles, or the error of a division by zero, the latter just if some quotient
in the tree has a right operand that is zero. -/
theorem evaluate_of_spelledBy {t : Tree Float} (hliterals : t.OfLiterals) :
    let doubles : Arithmetic Float := {
      add := fun a b => a + b
      sub := fun a b => a - b
      mul := fun a b => a * b
      div := fun a b => a / b
      pow := Number.power
      isZero := fun b => b == 0 }
    (∃ s : String, t.SpelledBy floatOfAnyScript? s.toList) ∧
      ∀ s : String, t.SpelledBy floatOfAnyScript? s.toList →
        evaluate s = t.value doubles ∧
          (evaluate s = .error .divisionByZero ↔ t.DividesByZero doubles) ∧
          (¬t.DividesByZero doubles → ∃ v, evaluate s = .ok v) := by
  intro doubles
  refine ⟨hliterals.exists_spelling, fun s hspelled => ?_⟩
  obtain ⟨ts, full, hwrites, hspells, homits⟩ := hspelled
  have hvalue : evaluate s = t.value doubles := by
    change evaluate s = t.value .double
    rw [evaluate, hspells.normalForm_eq hwrites.alternating homits]
    change evaluateTokens .double (tokensBy floatOfAnyScript? full) = _
    rw [hspells.tokensBy_eq hwrites.alternating, hwrites.evaluateTokens_eq]
  rw [hvalue]
  exact ⟨rfl, Tree.value_eq_error_iff, (Tree.value_ok_or_dividesByZero _ t).resolve_right⟩

/-- The tree of `-1.5 * (.5 * 2)`. -/
def productTree : Tree Float :=
  .binary .mul (.number "-1.5" (literalValue true ['1', '.', '5']))
    (.binary .mul (.number ".5" (literalValue false ['.', '5']))
      (.number "2" (literalValue false ['2'])))

/-- Two signs are left out, there is a blank inside a literal, and two digits belong to two
factors. -/
theorem evaluate_productTree :
    productTree.OfLiterals ∧
      productTree.SpelledBy floatOfAnyScript? "-1. 5(.5 2)".toList ∧
        evaluate "-1. 5(.5 2)" = .ok (-1.5) := by
  have hwhole : IsLiteral ['2'] := .whole rfl
  have hfraction : IsLiteral ['.', '5'] := .fraction rfl
  have hmixed : IsLiteral ['1', '.', '5'] := .wholeFraction rfl rfl
  have hliterals : productTree.OfLiterals :=
    .binary .mul (.negative hmixed) (.binary .mul (.positive hfraction) (.positive hwhole))
  have hspelled : productTree.SpelledBy floatOfAnyScript? "-1. 5(.5 2)".toList := by
    refine ⟨_, "-1.5*(.5*2)".toList,
      .binary (Nat.zero_le _) (.number _ "-1.5" (literalValue true ['1', '.', '5']))
        (.group _ (.binary (Nat.zero_le _) (.number _ ".5" (literalValue false ['.', '5']))
          (.number _ "2" (literalValue false ['2'])))), ?_, ?_⟩
    · exact .negative rfl hmixed (floatOfAnyScript?_negative hmixed)
        (.operator _ .mul (.leftParen _
          (.literal _ hfraction (floatOfAnyScript?_literal hfraction)
            (.operator _ .mul (.literal _ hwhole (floatOfAnyScript?_literal hwhole)
              (.rightParen _ (.nil _)))))))
    · exact .keep '-' (.keep '1' (.keep '.' (.leave rfl (.keep '(' (.keep '.' (.leave rfl
        (.keep '2' (.keep ')' .nil))))))))
  have hproduct : literalValue true ['1', '.', '5'] *
      (literalValue false ['.', '5'] * literalValue false ['2']) = -1.5 := by decide +kernel
  exact ⟨hliterals, hspelled, ((evaluate_of_spelledBy hliterals).2 _ hspelled).1.trans
    (congrArg Except.ok hproduct)⟩

/-- Both zeros are zero. -/
example : Arithmetic.double.isZero (literalValue true ['0']) = true := by decide +kernel

end Reckoner.Expr
