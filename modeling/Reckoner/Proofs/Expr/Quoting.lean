import Reckoner.Expr.Evaluation
import Reckoner.Proofs.Expr.Writing

/-!
# Quoting — what an error repeats of its expression

The lexeme that an error names is an unknown token, and its characters are characters of the text
that was read. Of an expression only the normal form is read, so an error repeats nothing but
characters of expressions.
-/

namespace Reckoner.Expr

variable {α : Type} {A : Arithmetic α} {read : List Char → Option α} {p : Char → Prop}

/-! ## The lexer -/

/-- Whether what a token would have an error repeat satisfies a condition. -/
def Token.Quotes (p : Char → Prop) (t : Token α) : Prop :=
  ∀ text, t = .unknown text → ∀ c ∈ text.toList, p c

theorem Token.quotes_ofText {cs : List Char} (h : ∀ c ∈ cs, p c) :
    (Token.ofText read cs).Quotes p := by
  intro text heq
  have htext : text = String.ofList cs := by
    unfold Token.ofText Token.number? at heq
    split at heq
    · cases heq
    split at heq
    · cases heq
    split at heq
    · cases heq
    cases hread : read cs with
    | none =>
      rw [hread] at heq
      exact (Token.unknown.inj heq).symm
    | some value =>
      rw [hread] at heq
      cases heq
  rw [htext, String.toList_ofList]
  exact h

namespace Lexer

/-- What the lexer has read so far satisfies a condition. -/
structure Quotes (p : Char → Prop) (l : Lexer α) : Prop where
  emitted : ∀ t ∈ l.emitted, t.Quotes p
  pending : ∀ c ∈ l.pending, p c

variable {l : Lexer α}

theorem Quotes.reversed (h : l.Quotes p) : ∀ c ∈ l.pending.reverse, p c := by
  intro c hc
  exact h.pending c (List.mem_reverse.mp hc)

theorem Quotes.flush (h : l.Quotes p) : ∀ t ∈ l.flush read, t.Quotes p := by
  unfold Lexer.flush
  by_cases hempty : l.pending.isEmpty = true
  · rw [if_pos hempty]
    exact h.emitted
  · rw [if_neg hempty]
    exact List.forall_mem_cons.mpr ⟨Token.quotes_ofText h.reversed, h.emitted⟩

theorem Quotes.breakRun (h : l.Quotes p) : ∀ t ∈ l.breakRun, t.Quotes p := by
  unfold Lexer.breakRun
  by_cases hempty : l.pending.isEmpty = true
  · rw [if_pos hempty]
    exact fun t ht => h.emitted t (List.mem_of_mem_tail ht)
  · rw [if_neg hempty]
    refine List.forall_mem_cons.mpr ⟨fun text heq => ?_, h.emitted⟩
    rw [← Token.unknown.inj heq, String.toList_ofList]
    exact h.reversed

-- One character.
theorem Quotes.step (h : l.Quotes p) {c : Char} (hc : p c) : (l.step read c).Quotes p := by
  unfold Lexer.step
  split
  · exact ⟨h.emitted, List.forall_mem_cons.mpr ⟨hc, h.pending⟩⟩
  -- A minus is put into the next literal whether it breaks a run or not.
  split
  · rename_i hrun
    rw [hrun.1] at hc
    exact ⟨h.breakRun, List.forall_mem_singleton.mpr hc⟩
  split
  · rename_i hsign
    rw [hsign.1] at hc
    exact ⟨h.flush, List.forall_mem_singleton.mpr hc⟩
  · refine ⟨List.forall_mem_cons.mpr ⟨?_, h.flush⟩, List.forall_mem_nil _⟩
    exact Token.quotes_ofText (List.forall_mem_singleton.mpr hc)

theorem Quotes.foldl (h : l.Quotes p) {cs : List Char} (hcs : ∀ c ∈ cs, p c) :
    (cs.foldl (Lexer.step read) l).Quotes p := by
  induction cs generalizing l with
  | nil => exact h
  | cons c cs ih =>
    rw [List.forall_mem_cons] at hcs
    exact ih (h.step hcs.1) hcs.2

end Lexer

-- Unknown tokens repeat the text that was read.
theorem quotes_of_mem_tokensBy {cs : List Char} (h : ∀ c ∈ cs, p c) {t : Token α}
    (ht : t ∈ tokensBy read cs) : t.Quotes p := by
  have hinitial : Lexer.initial.Quotes (α := α) p := ⟨List.forall_mem_nil _, List.forall_mem_nil _⟩
  exact (hinitial.foldl h).flush t (List.mem_reverse.mp ht)

/-! ## The evaluation -/

/-- A lexeme that the error names is an unknown token among these. -/
def EvalError.Names (ts : List (Token α)) (e : EvalError) : Prop :=
  ∀ text, e = .invalidToken text → .unknown text ∈ ts

namespace Stacks

variable {ts : List (Token α)}

-- Applying an operator names none, whatever the tokens are.
theorem names_applyTop (op : Operator) (values : List α) :
    Delivers (EvalError.Names ts) (fun _ => True) (applyTop A op values) := by
  rcases values with _ | ⟨b, _ | ⟨a, values⟩⟩
  · exact fun _ h => nomatch h
  · exact fun _ h => nomatch h
  · rw [applyTop_pair]
    cases hvalue : A.apply op a b with
    | ok c => exact trivial
    | error e =>
      rw [Arithmetic.eq_divisionByZero_of_apply hvalue]
      exact fun _ h => nomatch h

theorem names_reduceWhile (p : Operator → Bool) (values : List α) (held : List Held) :
    Delivers (EvalError.Names ts) (fun _ => True) (reduceWhile A p values held) :=
  delivers_reduceWhile (I := fun _ _ => True) (fun op values _ _ => names_applyTop op values) trivial

theorem names_close (s : Stacks α) :
    Delivers (EvalError.Names ts) (fun _ => True) s.close := by
  rcases s with ⟨values, _ | ⟨_ | _, held⟩⟩
  · exact fun _ h => nomatch h
  · exact fun _ h => nomatch h
  · exact trivial

theorem names_single (s : Stacks α) :
    Delivers (EvalError.Names ts) (fun _ => True) s.single := by
  rcases s with ⟨_ | ⟨_, _ | _⟩, _ | _⟩
  case cons.nil.nil => exact trivial
  all_goals exact fun _ h => nomatch h

-- An unknown token is the only one that is refused for its text.
theorem names_push (s : Stacks α) {t : Token α} {us : List (Token α)}
    (hmem : ∀ u ∈ t :: us, u ∈ ts) :
    Delivers (EvalError.Names ts) (fun _ => ∀ u ∈ us, u ∈ ts) (push A s t) := by
  have hrest := (List.forall_mem_cons.mp hmem).2
  cases t with
  | number => exact hrest
  | leftParen => exact hrest
  | rightParen =>
    rw [push_rightParen]
    exact (names_reduceWhile _ _ _).bind fun r _ => (names_close r).mono fun _ _ => hrest
  | operator op =>
    rw [push_operator]
    exact (names_reduceWhile _ _ _).bind fun _ _ => hrest
  | unknown text =>
    intro other heq
    rw [← EvalError.invalidToken.inj heq]
    exact hmem _ List.mem_cons_self

end Stacks

theorem names_evaluateTokens (ts : List (Token α)) :
    Delivers (EvalError.Names ts) (fun _ => True) (evaluateTokens A ts) := by
  rw [evaluateTokens_eq]
  refine (Stacks.delivers_foldlM (I := fun us _ => ∀ u ∈ us, u ∈ ts)
    (fun t us s => Stacks.names_push s) fun _ ht => ht).bind fun s _ => ?_
  rw [Stacks.result_eq]
  exact (Stacks.names_reduceWhile _ _ _).bind fun r _ => Stacks.names_single r

-- The lexeme that an error names is among the tokens.
theorem mem_of_evaluateTokens {ts : List (Token α)} {text : String}
    (h : evaluateTokens A ts = .error (.invalidToken text)) : .unknown text ∈ ts := by
  have hnames := names_evaluateTokens (A := A) ts
  rw [h] at hnames
  exact hnames text rfl

/-- The lexeme that an error names has only characters of expressions. -/
theorem isAllowed_of_evaluate {expr text : String}
    (h : evaluate expr = .error (.invalidToken text)) : ∀ c ∈ text.toList, isAllowed c = true := by
  unfold evaluate normalForm at h
  simp only at h
  split at h
  · rename_i normal hnormal
    split at hnormal
    · rename_i hallowed
      cases hnormal
      have hmem := mem_of_evaluateTokens h
      exact quotes_of_mem_tokensBy (List.all_eq_true.mp hallowed) hmem text rfl
    · cases hnormal
  · rename_i hnormal
    split at hnormal
    · cases hnormal
    · cases hnormal
      cases h

end Reckoner.Expr
