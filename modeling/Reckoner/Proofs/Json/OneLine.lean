import Reckoner.Proofs.Json.RoundTrip
import Reckoner.Proofs.Text.Lines

/-!
# OneLine — a flat object is one line

The writer escapes the line breaks below U+0020 and leaves three others as they are. Without these
three in its texts, the text of a flat object has no line break, and the braces keep blanks away from
its ends.
-/

namespace Reckoner.Json

open Text

/-- A text without the three line breaks that the writer leaves as they are. -/
def FreeOfBareBreaks (s : String) : Prop :=
  ∀ c ∈ s.toList, c ≠ '\u0085' ∧ c ≠ '\u2028' ∧ c ≠ '\u2029'

instance (s : String) : Decidable (FreeOfBareBreaks s) :=
  decidable_of_iff (s.toList.all fun c => c ≠ '\u0085' ∧ c ≠ '\u2028' ∧ c ≠ '\u2029')
    (by simp [FreeOfBareBreaks])

theorem freeOfBareBreaks_of_unbroken {s : String} (h : Unbroken s.toList) :
    FreeOfBareBreaks s := by
  intro c hc
  have hbreak := h c hc
  refine ⟨?_, ?_, ?_⟩ <;> rintro rfl <;> exact absurd hbreak (by decide)

/-! ## Texts -/

theorem unbroken_escape {c : Char} (h : c ≠ '\u0085' ∧ c ≠ '\u2028' ∧ c ≠ '\u2029') :
    Unbroken (escape c) := by
  unfold escape
  split
  · decide
  split
  · decide
  split
  · decide
  split
  · decide
  split
  · decide
  split
  · decide
  split
  · decide
  split
  · rename_i hcontrol
    have hall : ∀ n < 0x20, Unbroken ('\\' :: 'u' :: Quoted.hex 4 n) := by decide
    exact hall c.toNat hcontrol
  · -- Only the three bare breaks are both printable and line breaks.
    rename_i hprintable
    have hne {d : Char} (hd : c ≠ d) : c.toNat ≠ d.toNat := fun heq => hd (Char.toNat_inj.mp heq)
    have h85 : c.toNat ≠ 0x85 := hne h.1
    have h2028 : c.toNat ≠ 0x2028 := hne h.2.1
    have h2029 : c.toNat ≠ 0x2029 := hne h.2.2
    refine List.forall_mem_singleton.mpr ?_
    simp only [isLineBreak, Bool.or_eq_false_iff, Bool.and_eq_false_iff, decide_eq_false_iff_not,
      beq_eq_false_iff_ne]
    omega

-- The three bare breaks stand as they are, and each ends a line.
theorem escape_bareBreak {c : Char} (h : ¬(c ≠ '\u0085' ∧ c ≠ '\u2028' ∧ c ≠ '\u2029')) :
    escape c = [c] ∧ isLineBreak c = true := by
  have hc : c = '\u0085' ∨ c = '\u2028' ∨ c = '\u2029' := by
    by_cases h85 : c = '\u0085'
    · exact .inl h85
    by_cases h2028 : c = '\u2028'
    · exact .inr (.inl h2028)
    by_cases h2029 : c = '\u2029'
    · exact .inr (.inr h2029)
    exact absurd ⟨h85, h2028, h2029⟩ h
  rcases hc with rfl | rfl | rfl <;> decide

theorem forall_mem_writeString {P : Char → Prop} {s : String} (hquote : P '"')
    (h : ∀ c ∈ s.toList, ∀ d ∈ escape c, P d) : ∀ d ∈ writeString s, P d := by
  intro d hd
  rcases List.mem_cons.mp hd with rfl | hd
  · exact hquote
  rcases List.mem_append.mp hd with hd | hd
  · rcases List.mem_flatMap.mp hd with ⟨c, hc, hescaped⟩
    exact h c hc d hescaped
  · rw [List.mem_singleton.mp hd]
    exact hquote

theorem unbroken_writeString {s : String} (h : FreeOfBareBreaks s) :
    Unbroken (writeString s) :=
  forall_mem_writeString (by decide) fun c hc => unbroken_escape (h c hc)

/-! ## Values -/

theorem isLineBreak_of_isNumeral {n : Number.Layout} {c : Char} (h : n.IsNumeral c)
    (hmark : isLineBreak n.mark = false) (hnan : Unbroken n.nan.toList)
    (hinfinity : Unbroken n.infinity.toList) : isLineBreak c = false := by
  cases h with
  | digit hdigit =>
    have hrange : 48 ≤ c.toNat ∧ c.toNat ≤ 57 := Char.isDigit_iff_toNat.mp hdigit
    simp only [isLineBreak, Bool.or_eq_false_iff, Bool.and_eq_false_iff, decide_eq_false_iff_not,
      beq_eq_false_iff_ne]
    omega
  | sign hsign => rcases hsign with rfl | rfl <;> decide
  | point hpoint => rw [hpoint]; decide
  | mark hc => rw [hc]; exact hmark
  | word hword =>
    rcases hword with hword | hword
    · exact hnan c hword
    · exact hinfinity c hword

/-- A value that is not a text with a bare break. -/
def Value.FreeOfBareBreaks : Value → Prop
  | .string s => Json.FreeOfBareBreaks s
  | _ => True

theorem unbroken_write {v : Value} (hv : Simple v) (h : v.FreeOfBareBreaks) :
    Unbroken (write v) := by
  cases hv with
  | null => decide
  | bool b => cases b <;> decide
  | string s => exact unbroken_writeString h
  | float x =>
    intro c hc
    refine isLineBreak_of_isNumeral (Number.Layout.isNumeral_ofBinary64 hc) ?_ ?_ ?_ <;> decide

/-! ## Objects -/

/-- Members whose names and texts are free of bare breaks. -/
def MembersFreeOfBareBreaks (members : List (String × Value)) : Prop :=
  ∀ m ∈ members, FreeOfBareBreaks m.1 ∧ m.2.FreeOfBareBreaks

theorem forall_mem_writeMembers {P : Char → Prop} {members : List (String × Value)}
    (hcolon : P ':') (hcomma : P ',')
    (h : ∀ m ∈ members, (∀ c ∈ writeString m.1, P c) ∧ ∀ c ∈ write m.2, P c) :
    ∀ c ∈ writeMembers members, P c := by
  induction members with
  | nil => exact List.forall_mem_nil _
  | cons m members ih =>
    rcases m with ⟨name, v⟩
    rw [List.forall_mem_cons] at h
    rcases h with ⟨⟨hname, hvalue⟩, hrest⟩
    by_cases hlast : members = []
    · subst hlast
      exact List.forall_mem_append.mpr ⟨hname, List.forall_mem_cons.mpr ⟨hcolon, hvalue⟩⟩
    · rw [writeMembers_cons hlast]
      refine List.forall_mem_append.mpr ⟨hname, List.forall_mem_cons.mpr ⟨hcolon, ?_⟩⟩
      exact List.forall_mem_append.mpr ⟨hvalue, List.forall_mem_cons.mpr ⟨hcomma, ih hrest⟩⟩

theorem unbroken_writeMembers {members : List (String × Value)}
    (hsimple : ∀ m ∈ members, Simple m.2) (h : MembersFreeOfBareBreaks members) :
    Unbroken (writeMembers members) :=
  forall_mem_writeMembers (by decide) (by decide) fun m hm =>
    ⟨unbroken_writeString (h m hm).1, unbroken_write (hsimple m hm) (h m hm).2⟩

/-- The text of a flat object is a line with content. -/
theorem isContent_write {members : List (String × Value)}
    (hsimple : ∀ m ∈ members, Simple m.2) (h : MembersFreeOfBareBreaks members) :
    IsContent (write (.object members)) := by
  have hwrite : write (.object members) = '{' :: (writeMembers members ++ ['}']) := rfl
  rw [hwrite]
  constructor
  · have hbraces : isLineBreak '{' = false ∧ isLineBreak '}' = false := by decide
    exact List.forall_mem_cons.mpr ⟨hbraces.1, List.forall_mem_append.mpr
      ⟨unbroken_writeMembers hsimple h, List.forall_mem_singleton.mpr hbraces.2⟩⟩
  · refine trimBy_eq (fun c hc => ?_) (fun c hc => ?_)
    · cases hc
      decide
    · rw [← List.cons_append, List.getLast?_append] at hc
      cases hc
      decide
  · exact List.cons_ne_nil _ _

/-! ## Line feeds -/

theorem newline_not_mem_of_unbroken {cs : List Char} (h : Unbroken cs) : ∀ c ∈ cs, c ≠ '\n' := by
  rintro c hc rfl
  exact nomatch h '\n' hc

-- No text of a string has a line feed, also not that of one with bare breaks.
theorem newline_not_mem_escape (c : Char) : ∀ d ∈ escape c, d ≠ '\n' := by
  by_cases hfree : c ≠ '\u0085' ∧ c ≠ '\u2028' ∧ c ≠ '\u2029'
  · exact newline_not_mem_of_unbroken (unbroken_escape hfree)
  · rw [(escape_bareBreak hfree).1]
    refine List.forall_mem_singleton.mpr ?_
    rintro rfl
    exact hfree (by decide)

theorem newline_not_mem_write {v : Value} (hv : Simple v) : ∀ c ∈ write v, c ≠ '\n' := by
  cases hv with
  | string s => exact forall_mem_writeString (by decide) fun c _ => newline_not_mem_escape c
  | null => exact newline_not_mem_of_unbroken (unbroken_write .null trivial)
  | bool b => exact newline_not_mem_of_unbroken (unbroken_write (.bool b) trivial)
  | float x => exact newline_not_mem_of_unbroken (unbroken_write (.float x) trivial)

/-- The text of a flat object has no line feed. -/
theorem newline_not_mem_writeObject {members : List (String × Value)}
    (hsimple : ∀ m ∈ members, Simple m.2) : '\n' ∉ write (.object members) := by
  have hmembers : ∀ c ∈ writeMembers members, c ≠ '\n' :=
    forall_mem_writeMembers (by decide) (by decide) fun m hm =>
      ⟨newline_not_mem_write (.string m.1), newline_not_mem_write (hsimple m hm)⟩
  have hall : ∀ c ∈ '{' :: (writeMembers members ++ ['}']), c ≠ '\n' :=
    List.forall_mem_cons.mpr ⟨by decide, List.forall_mem_append.mpr ⟨hmembers,
      List.forall_mem_singleton.mpr (by decide)⟩⟩
  exact fun hmem => hall '\n' hmem rfl

end Reckoner.Json
