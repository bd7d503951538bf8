import Reckoner.Proofs.Expr.Lexing
import Reckoner.Proofs.Text.Lines

/-!
# Lexemes — how any text falls into tokens

The lexer takes one character at a time; here its tokens are described one lexeme at a time, for
texts of any kind. A lexeme is a run of digits and points, a single character, or a run of minuses
with the digits and points behind it. Of a run of minuses the first one is an operator if it stands
behind an operand and is alone; it is withdrawn if another one follows. The last one begins a
literal, and those between are unknown.
-/

namespace Reckoner.Expr

variable {α : Type} {read : List Char → Option α}

/-- `Lexes read previous ts cs`: behind the character `previous`, the text `cs` falls into the
lexemes whose tokens are `ts`. -/
inductive Lexes (read : List Char → Option α) :
    Option Char → List (Token α) → List Char → Prop where
  | nil (previous : Option Char) : Lexes read previous [] []
  | literal {previous : Option Char} {l cs : List Char} {ts : List (Token α)} :
    (∀ c ∈ previous, isLiteralChar c = false) → l ≠ [] → (∀ c ∈ l, isLiteralChar c = true) →
      (∀ c ∈ cs.head?, isLiteralChar c = false) → Lexes read l.getLast? ts cs →
      Lexes read previous (Token.ofText read l :: ts) (l ++ cs)
  | symbol (previous : Option Char) {c : Char} {cs : List Char} {ts : List (Token α)} :
    isLiteralChar c = false → c ≠ '-' → Lexes read (some c) ts cs →
      Lexes read previous (Token.ofText read [c] :: ts) (c :: cs)
  /-- A minus that is an operator. -/
  | minus {previous : Option Char} {cs : List Char} {ts : List (Token α)} :
    opensLiteral previous = false → (∀ c ∈ cs.head?, c ≠ '-') → Lexes read (some '-') ts cs →
      Lexes read previous (.operator .sub :: ts) ('-' :: cs)
  /-- Minuses where a literal can begin. -/
  | signed {previous : Option Char} (n : Nat) {l cs : List Char} {ts : List (Token α)} :
    opensLiteral previous = true → previous ≠ some '-' → (∀ c ∈ l, isLiteralChar c = true) →
      (∀ c ∈ cs.head?, isLiteralChar c = false ∧ (l = [] → c ≠ '-')) →
      Lexes read ('-' :: l).getLast? ts cs →
      Lexes read previous
        (List.replicate n (.unknown "-") ++ Token.ofText read ('-' :: l) :: ts)
        ('-' :: (List.replicate n '-' ++ (l ++ cs)))
  /-- Minuses behind an operand: the first one is withdrawn. -/
  | withdrawn {previous : Option Char} (n : Nat) {l cs : List Char} {ts : List (Token α)} :
    opensLiteral previous = false → (∀ c ∈ l, isLiteralChar c = true) →
      (∀ c ∈ cs.head?, isLiteralChar c = false ∧ (l = [] → c ≠ '-')) →
      Lexes read ('-' :: l).getLast? ts cs →
      Lexes read previous
        (List.replicate n (.unknown "-") ++ Token.ofText read ('-' :: l) :: ts)
        ('-' :: '-' :: (List.replicate n '-' ++ (l ++ cs)))

/-! ## The lexer between two lexemes -/

theorem ne_minus_of_isLiteralChar {c : Char} (h : isLiteralChar c = true) : c ≠ '-' := by
  rintro rfl
  exact absurd h (by decide)

-- A literal with what follows it begins with no minus, if nothing follows a missing one that does.
theorem ne_minus_of_mem_head? {l cs : List Char} (hliteral : ∀ c ∈ l, isLiteralChar c = true)
    (hends : ∀ c ∈ cs.head?, l = [] → c ≠ '-') : ∀ c ∈ (l ++ cs).head?, c ≠ '-' := by
  cases l with
  | nil => exact fun c hc => hends c hc rfl
  | cons d l =>
    rintro _ ⟨⟩
    exact ne_minus_of_isLiteralChar (hliteral d List.mem_cons_self)

-- Behind a minus a literal can begin.
theorem ne_minus_of_opensLiteral {previous : Option Char} (h : opensLiteral previous = false) :
    previous ≠ some '-' := by
  rintro rfl
  exact absurd h (by decide)

-- Where a literal can begin, it has a sign or stands behind a minus.
theorem opensLiteral_eq (previous : Option Char) :
    opensLiteral previous = (admitsSign previous || previous == some '-') := by
  cases previous with
  | none => rfl
  | some c =>
    rw [Bool.eq_iff_iff]
    simp only [opensLiteral, admitsSign, Bool.or_eq_true, beq_iff_eq, Option.some.injEq]
    tauto

theorem admitsSign_eq_false {previous : Option Char} (hcloses : opensLiteral previous = false) :
    admitsSign previous = false := by
  rw [opensLiteral_eq, Bool.or_eq_false_iff] at hcloses
  exact hcloses.1

theorem admitsSign_of_opensLiteral {previous : Option Char} (hopens : opensLiteral previous = true)
    (hminus : previous ≠ some '-') : admitsSign previous = true := by
  rwa [opensLiteral_eq, beq_eq_false_iff_ne.mpr hminus, Bool.or_false] at hopens

-- A literal does not end with a minus.
theorem isLiteralChar_getLast {digits : List Char} (hdigits : ∀ c ∈ digits, isLiteralChar c = true)
    (hne : digits ≠ []) : ∃ c, digits.getLast? = some c ∧ isLiteralChar c = true ∧ c ≠ '-' := by
  have hlast := hdigits _ (List.getLast_mem hne)
  exact ⟨_, List.getLast?_eq_getLast_of_ne_nil hne, hlast, ne_minus_of_isLiteralChar hlast⟩

namespace Lexer

/-- The lexer with the gathered literal among its tokens. -/
def settled (read : List Char → Option α) (l : Lexer α) : Lexer α :=
  ⟨l.flush read, [], l.previous⟩

theorem flush_settled (l : Lexer α) : (l.settled read).flush read = l.flush read := rfl

theorem settled_of_pending {l : Lexer α} {cs : List Char} (h : l.pending = cs.reverse)
    (hne : cs ≠ []) : l.settled read = ⟨Token.ofText read cs :: l.emitted, [], l.previous⟩ := by
  rw [settled, flush_of_pending h hne]

-- It makes no difference when a literal is put among the tokens that the next character ends.
theorem flush_foldl_settled (l : Lexer α) {cs : List Char}
    (hliteral : ∀ c ∈ cs.head?, isLiteralChar c = false)
    (hrun : l.previous = some '-' → ∀ c ∈ cs.head?, c ≠ '-') :
    (cs.foldl (step read) l).flush read = (cs.foldl (step read) (l.settled read)).flush read := by
  cases cs with
  | nil => rfl
  | cons c cs =>
    have hc : ¬isLiteralChar c = true := by
      rw [hliteral c rfl]
      exact Bool.false_ne_true
    have hnext : ¬(c = '-' ∧ l.previous = some '-') := fun h => hrun h.2 c rfl h.1
    have hstep : l.step read c = (l.settled read).step read c := by
      simp only [step, if_neg hc, flush_settled]
      rw [if_neg hnext, if_neg (show ¬(c = '-' ∧ (l.settled read).previous = some '-') from hnext)]
      rfl
    rw [List.foldl_cons, List.foldl_cons, hstep]

-- Behind an operand, a minus is an operator at first.
theorem step_operator_minus {l : Lexer α} (hpending : l.pending = [])
    (hcloses : opensLiteral l.previous = false) :
    l.step read '-' = ⟨.operator .sub :: l.emitted, [], some '-'⟩ := by
  rw [step_symbol l rfl fun _ => ⟨ne_minus_of_opensLiteral hcloses, hcloses⟩,
    flush_of_pending_eq_nil hpending]
  rfl

-- Each minus of a run that follows the pending one makes that one unknown.
theorem foldl_step_minuses (emitted : List (Token α)) (n : Nat) :
    (List.replicate n '-').foldl (step read) ⟨emitted, ['-'], some '-'⟩ =
      ⟨List.replicate n (.unknown "-") ++ emitted, ['-'], some '-'⟩ := by
  induction n generalizing emitted with
  | zero => rfl
  | succ n ih =>
    rw [List.replicate_succ, List.foldl_cons]
    change (List.replicate n '-').foldl (step read) ⟨.unknown "-" :: emitted, ['-'], some '-'⟩ = _
    rw [ih, List.append_cons, ← List.replicate_succ']

-- A literal that has been gathered stands among the tokens when the next lexeme begins.
theorem flush_foldl_literal (l : Lexer α) {literal cs : List Char}
    (hliteral : ∀ c ∈ literal, isLiteralChar c = true)
    (hgathered : l.pending.reverse ++ literal ≠ [])
    (hends : ∀ c ∈ cs.head?, isLiteralChar c = false ∧ (literal = [] → c ≠ '-')) :
    ((literal ++ cs).foldl (step read) l).flush read =
      (cs.foldl (step read) ⟨Token.ofText read (l.pending.reverse ++ literal) :: l.emitted, [],
        literal.getLast?.or l.previous⟩).flush read := by
  have hpending : literal.reverse ++ l.pending = (l.pending.reverse ++ literal).reverse := by
    rw [List.reverse_append, List.reverse_reverse]
  rw [List.foldl_append, foldl_step_literal l hliteral,
    flush_foldl_settled _ fun c hc => (hends c hc).1]
  · rw [settled_of_pending (l := ⟨l.emitted, literal.reverse ++ l.pending, _⟩) hpending hgathered]
  intro hprevious c hc
  refine (hends c hc).2 ?_
  by_contra hne
  obtain ⟨last, hlast, -, hminus⟩ := isLiteralChar_getLast hliteral hne
  rw [hlast] at hprevious
  exact hminus (Option.some.inj hprevious)

end Lexer

/-! ## Cutting off a lexeme -/

-- Digits and points, up to the first other character.
theorem exists_leading_literal (cs : List Char) :
    ∃ l rest, cs = l ++ rest ∧ (∀ c ∈ l, isLiteralChar c = true) ∧
      ∀ c ∈ rest.head?, isLiteralChar c = false :=
  ⟨_, _, List.takeWhile_append_dropWhile.symm, List.all_eq_true.mp List.all_takeWhile,
    fun _ hc => Text.eq_false_of_mem_head?_dropWhile hc⟩

-- Minuses, and the digits and points behind them.
theorem exists_leading_minuses (cs : List Char) :
    ∃ n l rest, cs = List.replicate n '-' ++ (l ++ rest) ∧ (∀ c ∈ l, isLiteralChar c = true) ∧
      ∀ c ∈ rest.head?, isLiteralChar c = false ∧ (l = [] → c ≠ '-') := by
  obtain ⟨n, hn⟩ : ∃ n, cs.takeWhile (· == '-') = List.replicate n '-' :=
    ⟨_, List.eq_replicate_of_mem fun c hc =>
      beq_iff_eq.mp (List.all_eq_true.mp List.all_takeWhile c hc)⟩
  obtain ⟨l, rest, hafter, hliteral, hends⟩ := exists_leading_literal (cs.dropWhile (· == '-'))
  refine ⟨n, l, rest, ?_, hliteral, fun c hc => ⟨hends c hc, ?_⟩⟩
  · rw [← hn, ← hafter, List.takeWhile_append_dropWhile]
  · -- Without a literal, the rest begins where the minuses end.
    rintro rfl
    rw [List.nil_append] at hafter
    rw [← hafter] at hc
    have hother : (c == '-') = false :=
      Text.eq_false_of_mem_head?_dropWhile (p := fun c => c == '-') hc
    exact beq_eq_false_iff_ne.mp hother

/-! ## The lexer, lexeme by lexeme -/

namespace Lexer

-- A run of minuses of which one is pending.
theorem flush_foldl_minuses (emitted : List (Token α)) (n : Nat) {l cs : List Char}
    (hliteral : ∀ c ∈ l, isLiteralChar c = true)
    (hends : ∀ c ∈ cs.head?, isLiteralChar c = false ∧ (l = [] → c ≠ '-')) :
    ((List.replicate n '-' ++ (l ++ cs)).foldl (step read) ⟨emitted, ['-'], some '-'⟩).flush read =
      (cs.foldl (step read) ⟨Token.ofText read ('-' :: l) ::
        (List.replicate n (.unknown "-") ++ emitted), [], ('-' :: l).getLast?⟩).flush read := by
  rw [List.foldl_append, foldl_step_minuses, flush_foldl_literal _ hliteral (by simp) hends,
    List.getLast?_cons]
  cases l.getLast? <;> rfl

/-- Between two lexemes, the lexer goes on to tokens of the lexemes of a text. -/
def Continues (read : List Char → Option α) (l : Lexer α) (cs : List Char) : Prop :=
  ∃ ts, (cs.foldl (step read) l).flush read = ts.reverse ++ l.emitted ∧
    Lexes read l.previous ts cs

namespace Continues

variable {l : Lexer α} {digits cs : List Char}

theorem nil (hpending : l.pending = []) : l.Continues read [] :=
  ⟨[], flush_of_pending_eq_nil hpending, .nil _⟩

theorem literal (hpending : l.pending = []) (hstart : ∀ c ∈ l.previous, isLiteralChar c = false)
    (hne : digits ≠ []) (hdigits : ∀ c ∈ digits, isLiteralChar c = true)
    (hends : ∀ c ∈ cs.head?, isLiteralChar c = false)
    (h : Continues read ⟨Token.ofText read digits :: l.emitted, [], digits.getLast?⟩ cs) :
    l.Continues read (digits ++ cs) := by
  obtain ⟨ts, hts, hlexes⟩ := h
  refine ⟨Token.ofText read digits :: ts, ?_, .literal hstart hne hdigits hends hlexes⟩
  rw [flush_foldl_literal l hdigits (by rw [hpending]; exact hne)
    fun c hc => ⟨hends c hc, fun hnil => absurd hnil hne⟩]
  rw [hpending, List.getLast?_eq_getLast_of_ne_nil hne, Option.some_or] at *
  rw [List.reverse_cons, List.append_assoc]
  exact hts

theorem symbol {c : Char} (hpending : l.pending = []) (hc : isLiteralChar c = false)
    (hminus : c ≠ '-') (h : Continues read ⟨Token.ofText read [c] :: l.emitted, [], some c⟩ cs) :
    l.Continues read (c :: cs) := by
  obtain ⟨ts, hts, hlexes⟩ := h
  refine ⟨Token.ofText read [c] :: ts, ?_, .symbol _ hc hminus hlexes⟩
  rw [List.foldl_cons, step_symbol l hc fun heq => absurd heq hminus,
    flush_of_pending_eq_nil hpending, List.reverse_cons, List.append_assoc]
  exact hts

theorem minus (hpending : l.pending = []) (hcloses : opensLiteral l.previous = false)
    (hends : ∀ c ∈ cs.head?, c ≠ '-')
    (h : Continues read ⟨.operator .sub :: l.emitted, [], some '-'⟩ cs) :
    l.Continues read ('-' :: cs) := by
  obtain ⟨ts, hts, hlexes⟩ := h
  refine ⟨.operator .sub :: ts, ?_, .minus hcloses hends hlexes⟩
  rw [List.foldl_cons, step_operator_minus hpending hcloses, List.reverse_cons, List.append_assoc]
  exact hts

theorem signed (n : Nat) (hpending : l.pending = []) (hopens : opensLiteral l.previous = true)
    (hstart : l.previous ≠ some '-') (hdigits : ∀ c ∈ digits, isLiteralChar c = true)
    (hends : ∀ c ∈ cs.head?, isLiteralChar c = false ∧ (digits = [] → c ≠ '-'))
    (h : Continues read ⟨Token.ofText read ('-' :: digits) ::
      (List.replicate n (.unknown "-") ++ l.emitted), [], ('-' :: digits).getLast?⟩ cs) :
    l.Continues read ('-' :: (List.replicate n '-' ++ (digits ++ cs))) := by
  obtain ⟨ts, hts, hlexes⟩ := h
  refine ⟨_, ?_, .signed n hopens hstart hdigits hends hlexes⟩
  rw [List.foldl_cons, step_minus l hstart hopens, flush_of_pending_eq_nil hpending,
    flush_foldl_minuses l.emitted n hdigits hends, hts]
  simp

theorem withdrawn (n : Nat) (hpending : l.pending = [])
    (hcloses : opensLiteral l.previous = false) (hdigits : ∀ c ∈ digits, isLiteralChar c = true)
    (hends : ∀ c ∈ cs.head?, isLiteralChar c = false ∧ (digits = [] → c ≠ '-'))
    (h : Continues read ⟨Token.ofText read ('-' :: digits) ::
      (List.replicate n (.unknown "-") ++ l.emitted), [], ('-' :: digits).getLast?⟩ cs) :
    l.Continues read ('-' :: '-' :: (List.replicate n '-' ++ (digits ++ cs))) := by
  obtain ⟨ts, hts, hlexes⟩ := h
  refine ⟨_, ?_, .withdrawn n hcloses hdigits hends hlexes⟩
  rw [List.foldl_cons, step_operator_minus hpending hcloses, List.foldl_cons]
  change ((List.replicate n '-' ++ (digits ++ cs)).foldl (step read)
    ⟨l.emitted, ['-'], some '-'⟩).flush read = _
  rw [flush_foldl_minuses l.emitted n hdigits hends, hts]
  simp

end Continues

/-- A lexeme can begin between a character and a text: the text does not go on with a literal or a
run of minuses. -/
def Parts (previous : Option Char) (cs : List Char) : Prop :=
  ∀ c ∈ previous, ∀ d ∈ cs.head?,
    (isLiteralChar c = true → isLiteralChar d = false) ∧ (c = '-' → d ≠ '-')

theorem parts_signed {digits cs : List Char} (hdigits : ∀ c ∈ digits, isLiteralChar c = true)
    (hends : ∀ c ∈ cs.head?, isLiteralChar c = false ∧ (digits = [] → c ≠ '-')) :
    Parts ('-' :: digits).getLast? cs := by
  intro c hc d hd
  refine ⟨fun _ => (hends d hd).1, ?_⟩
  rintro rfl
  refine (hends d hd).2 ?_
  by_contra hne
  obtain ⟨e, hlast, -, he⟩ := isLiteralChar_getLast hdigits hne
  rw [List.getLast?_cons, hlast] at hc
  exact he (Option.some.inj hc)

theorem continues (l : Lexer α) (hpending : l.pending = []) (cs : List Char)
    (hparts : Parts l.previous cs) : l.Continues read cs := by
  induction hlength : cs.length using Nat.strong_induction_on generalizing l cs with
  | _ length ih =>
    subst hlength
    cases cs with
    | nil => exact .nil hpending
    | cons c cs =>
      by_cases hc : isLiteralChar c = true
      · obtain ⟨digits, rest, hsplit, hdigits, hends⟩ := exists_leading_literal (c :: cs)
        have hstart : ∀ d ∈ l.previous, isLiteralChar d = false := fun d hd => by
          by_contra hliteral
          have hparted := (hparts d hd c rfl).1 (Bool.not_eq_false _ ▸ hliteral)
          exact nomatch hparted.symm.trans hc
        have hne : digits ≠ [] := by
          rintro rfl
          have hother := hends c (by rw [← List.nil_append rest, ← hsplit]; rfl)
          exact nomatch hother.symm.trans hc
        have hshorter : rest.length < (c :: cs).length := by
          have := List.length_pos_iff.mpr hne
          rw [hsplit, List.length_append]
          omega
        rw [hsplit]
        refine .literal hpending hstart hne hdigits hends (ih _ hshorter _ rfl rest ?_ rfl)
        intro d hd e he
        obtain ⟨last, hlast, -, hminus⟩ := isLiteralChar_getLast hdigits hne
        cases hlast.symm.trans hd
        exact ⟨fun _ => hends e he, fun heq => absurd heq hminus⟩
      rw [Bool.not_eq_true] at hc
      by_cases hminus : c = '-'
      · subst hminus
        by_cases hopens : opensLiteral l.previous = true
        · obtain ⟨n, digits, rest, rfl, hdigits, hends⟩ := exists_leading_minuses cs
          have hstart : l.previous ≠ some '-' := fun h => (hparts '-' h '-' rfl).2 rfl rfl
          refine .signed n hpending hopens hstart hdigits hends ?_
          exact ih rest.length (by simp; omega) _ rfl rest (parts_signed hdigits hends) rfl
        rw [Bool.not_eq_true] at hopens
        by_cases hrun : ∃ after, cs = '-' :: after
        · obtain ⟨after, rfl⟩ := hrun
          obtain ⟨n, digits, rest, rfl, hdigits, hends⟩ := exists_leading_minuses after
          refine .withdrawn n hpending hopens hdigits hends ?_
          exact ih rest.length (by simp; omega) _ rfl rest (parts_signed hdigits hends) rfl
        · have hends : ∀ d ∈ cs.head?, d ≠ '-' := by
            rintro d hd rfl
            exact hrun ⟨_, List.eq_cons_of_mem_head? hd⟩
          refine .minus hpending hopens hends (ih cs.length (Nat.lt_succ_self _) _ rfl cs ?_ rfl)
          rintro _ ⟨⟩ d hd
          exact ⟨fun h => absurd h (by decide), fun _ => hends d hd⟩
      · -- Any other character is a lexeme by itself.
        refine .symbol hpending hc hminus (ih cs.length (Nat.lt_succ_self _) _ rfl cs ?_ rfl)
        rintro _ ⟨⟩ d -
        exact ⟨fun h => (nomatch hc.symm.trans h), fun h => absurd h hminus⟩

end Lexer

/-- The tokens of a text are those of its lexemes. -/
theorem lexes_tokensBy (read : List Char → Option α) (cs : List Char) :
    Lexes read none (tokensBy read cs) cs := by
  obtain ⟨ts, hts, hlexes⟩ := (Lexer.initial (α := α)).continues rfl cs fun _ h => nomatch h
  rw [tokensBy, hts]
  simpa [Lexer.initial] using hlexes

end Reckoner.Expr
