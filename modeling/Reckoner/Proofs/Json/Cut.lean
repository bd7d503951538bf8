import Reckoner.Proofs.Json.OneLine
import Reckoner.Proofs.Text.Breaks

/-!
# Cut — the start of an object is no JSON

A bare break in a text of a flat object cuts the object in two. What stands in front of the first one
ends within a string, so the reader finds no value in it.
-/

namespace Reckoner.Json

open Text

/-! ## Texts -/

-- A text whose closing quote is missing.
theorem stringRest_unclosed (cs done : List Char) : stringRest done (cs.flatMap escape) = none := by
  induction cs generalizing done with
  | nil => rfl
  | cons c cs ih => rw [List.flatMap_cons, stringRest_escape, ih]

theorem value?_unclosed (cs : List Char) (fuel depth : Nat) :
    value? fuel depth ('"' :: cs.flatMap escape) = none := by
  cases fuel with
  | zero => rw [value?]
  | succ fuel => rw [value?, stringRest_unclosed, Option.map_none]

/-- The first bare break of a text, and what is written in front of it. -/
theorem exists_cut_flatMap_escape {cs : List Char}
    (h : ¬∀ c ∈ cs, c ≠ '\u0085' ∧ c ≠ '\u2028' ∧ c ≠ '\u2029') :
    ∃ (front : List Char) (c : Char) (back : List Char),
      cs.flatMap escape = front.flatMap escape ++ c :: back ∧
      Unbroken (front.flatMap escape) ∧ isLineBreak c = true := by
  induction cs with
  | nil => exact absurd (List.forall_mem_nil _) h
  | cons c cs ih =>
    by_cases hfree : c ≠ '\u0085' ∧ c ≠ '\u2028' ∧ c ≠ '\u2029'
    · rw [List.forall_mem_cons] at h
      rcases ih fun hcs => h ⟨hfree, hcs⟩ with ⟨front, d, back, hwrite, hunbroken, hbreak⟩
      refine ⟨c :: front, d, back, ?_, ?_, hbreak⟩
      · rw [List.flatMap_cons, List.flatMap_cons, hwrite, List.append_assoc]
      · exact List.forall_mem_append.mpr ⟨unbroken_escape hfree, hunbroken⟩
    · rcases escape_bareBreak hfree with ⟨hescape, hbreak⟩
      refine ⟨[], c, cs.flatMap escape, ?_, List.forall_mem_nil _, hbreak⟩
      rw [List.flatMap_cons, hescape]
      rfl

/-! ## Objects -/

-- A member without a value ends the reading.
theorem members?_eq_none {fuel depth : Nat} {cs : List Char} (name : String)
    (done : List (String × Value)) (hspace : skipSpace cs = cs)
    (hvalue : value? fuel depth cs = none) :
    members? (fuel + 1) depth done (writeString name ++ ':' :: cs) = none := by
  have hname : writeString name ++ ':' :: cs =
      '"' :: (name.toList.flatMap escape ++ '"' :: ':' :: cs) := by
    rw [writeString, List.cons_append, List.append_assoc]
    rfl
  have hcolon : skipSpace (':' :: cs) = ':' :: cs := rfl
  rw [hname, members?, stringRest_flatMap_escape]
  simp only [hcolon, hspace, hvalue]

/-- A text begins with a quote, and the reader finds no members in it. -/
structure Unread (cs : List Char) : Prop where
  quoted : ∃ rest, cs = '"' :: rest
  members?_eq_none : ∀ fuel depth done, members? fuel depth done cs = none

theorem Unread.skipSpace_eq {cs : List Char} (h : Unread cs) : skipSpace cs = cs := by
  rcases h.quoted with ⟨rest, rfl⟩
  rfl

theorem unread_member {name : String} {cs : List Char} (hspace : skipSpace cs = cs)
    (hvalue : ∀ fuel depth, value? fuel depth cs = none) :
    Unread (writeString name ++ ':' :: cs) where
  quoted := ⟨_, rfl⟩
  members?_eq_none fuel depth done := by
    cases fuel with
    | zero => rw [members?]
    | succ fuel => exact members?_eq_none name done hspace (hvalue fuel depth)

theorem Unread.cons {name : String} {v : Value} {cs : List Char} (hv : Simple v) (h : Unread cs) :
    Unread (writeString name ++ ':' :: (write v ++ ',' :: cs)) where
  quoted := ⟨_, rfl⟩
  members?_eq_none fuel depth done := by
    have hend : Ends (',' :: cs) := by
      intro c hc
      cases hc
      decide
    match fuel with
    | 0 => rw [members?]
    | 1 => exact Json.members?_eq_none name done (skipSpace_write hv _) (by rw [value?])
    | fuel + 2 =>
      rw [(members?_member hv name fuel depth done hend).1 rfl, h.skipSpace_eq]
      exact h.members?_eq_none _ _ _

/-- The first bare break of the members of an object, and what is written in front of it. -/
theorem exists_cut_writeMembers {members : List (String × Value)}
    (hsimple : ∀ m ∈ members, Simple m.2) (hnames : ∀ m ∈ members, FreeOfBareBreaks m.1)
    (h : ¬MembersFreeOfBareBreaks members) :
    ∃ front c back, writeMembers members = front ++ c :: back ∧ Unbroken front ∧
      isLineBreak c = true ∧ Unread front := by
  have hpunctuation : isLineBreak '"' = false ∧ isLineBreak ':' = false ∧
      isLineBreak ',' = false := by decide
  induction members with
  | nil => exact absurd (List.forall_mem_nil _) h
  | cons m members ih =>
    rcases m with ⟨name, v⟩
    rw [List.forall_mem_cons] at hsimple hnames
    rw [MembersFreeOfBareBreaks, List.forall_mem_cons] at h
    have hname := unbroken_writeString hnames.1
    by_cases hvalue : v.FreeOfBareBreaks
    · -- The cut is in a later member.
      have hrest : ¬MembersFreeOfBareBreaks members := fun hrest => h ⟨⟨hnames.1, hvalue⟩, hrest⟩
      have hmore : members ≠ [] := by
        rintro rfl
        exact hrest (List.forall_mem_nil _)
      rcases ih hsimple.2 hnames.2 hrest with ⟨front, c, back, hwrite, hfront, hbreak, hunread⟩
      refine ⟨writeString name ++ ':' :: (write v ++ ',' :: front), c, back, ?_, ?_, hbreak,
        hunread.cons hsimple.1⟩
      · rw [writeMembers_cons hmore, hwrite]
        simp only [List.append_assoc, List.cons_append]
      · refine List.forall_mem_append.mpr ⟨hname, List.forall_mem_cons.mpr ⟨hpunctuation.2.1, ?_⟩⟩
        exact List.forall_mem_append.mpr ⟨unbroken_write hsimple.1 hvalue,
          List.forall_mem_cons.mpr ⟨hpunctuation.2.2, hfront⟩⟩
    · -- The cut is in this member, whose value is a string.
      cases hsimple.1 with
      | null => exact absurd trivial hvalue
      | bool b => exact absurd trivial hvalue
      | float x => exact absurd trivial hvalue
      | string s =>
        rcases exists_cut_flatMap_escape hvalue with ⟨cs, c, back, hwrite, hfront, hbreak⟩
        have hstring (rest : List Char) : writeString s ++ rest =
            '"' :: cs.flatMap escape ++ c :: (back ++ '"' :: rest) := by
          rw [writeString, hwrite]
          simp only [List.append_assoc, List.cons_append, List.nil_append]
        refine ⟨writeString name ++ ':' :: '"' :: cs.flatMap escape, c, ?_, ?_, ?_, hbreak,
          unread_member rfl (value?_unclosed cs)⟩
        · exact back ++ '"' :: if members = [] then [] else ',' :: writeMembers members
        · by_cases hlast : members = []
          · subst hlast
            show writeString name ++ ':' :: writeString s = _
            rw [← List.append_nil (writeString s), hstring, if_pos rfl, List.append_assoc]
            rfl
          · rw [writeMembers_cons hlast, if_neg hlast, write, hstring, List.append_assoc]
            rfl
        · exact List.forall_mem_append.mpr ⟨hname, List.forall_mem_cons.mpr
            ⟨hpunctuation.2.1, List.forall_mem_cons.mpr ⟨hpunctuation.1, hfront⟩⟩⟩

theorem exists_cut_write {members : List (String × Value)}
    (hsimple : ∀ m ∈ members, Simple m.2) (hnames : ∀ m ∈ members, FreeOfBareBreaks m.1)
    (h : ¬MembersFreeOfBareBreaks members) :
    ∃ front c back, write (.object members) = '{' :: front ++ c :: (back ++ ['}']) ∧
      Unbroken ('{' :: front) ∧ isLineBreak c = true ∧ read? ('{' :: front) = none := by
  rcases exists_cut_writeMembers hsimple hnames h with
    ⟨front, c, back, hwrite, hfront, hbreak, hunread⟩
  refine ⟨front, c, back, ?_, List.forall_mem_cons.mpr ⟨by decide, hfront⟩, hbreak, ?_⟩
  · rw [write, hwrite, List.append_assoc]
    rfl
  · have hopen : skipSpace ('{' :: front) = '{' :: front := rfl
    rcases hunread.quoted with ⟨rest, hquote⟩
    have hvalue (fuel : Nat) : value? (fuel + 1) maxDepth ('{' :: front) = none := by
      have hmembers := hunread.members?_eq_none fuel 199 []
      rw [maxDepth, value?]
      simp only [hunread.skipSpace_eq]
      rw [hquote] at hmembers ⊢
      exact hmembers
    rw [read?, hopen, hvalue]

/-! ## Lines -/

/-- An object that is not on one line begins with a line that is no JSON. -/
theorem exists_nonemptyLines_write {members : List (String × Value)}
    (hsimple : ∀ m ∈ members, Simple m.2) (hnames : ∀ m ∈ members, FreeOfBareBreaks m.1)
    (h : ¬MembersFreeOfBareBreaks members) :
    ∃ l ls, nonemptyLines (write (.object members)) = l :: ls ∧ read? l = none := by
  rcases exists_cut_write hsimple hnames h with ⟨front, c, back, hwrite, hfront, hbreak, hread⟩
  refine ⟨'{' :: front, nonemptyLines (back ++ ['}']), ?_, hread⟩
  rw [hwrite, nonemptyLines_append_break hbreak,
    nonemptyLines_of_unbroken hfront (List.cons_ne_nil _ _), List.singleton_append]

/-- An object that is not on one line is at least two lines with content: the brace at either end is
on one of its own. -/
theorem one_lt_length_contentLines_write {members : List (String × Value)}
    (hsimple : ∀ m ∈ members, Simple m.2) (hnames : ∀ m ∈ members, FreeOfBareBreaks m.1)
    (h : ¬MembersFreeOfBareBreaks members) :
    1 < (contentLines (write (.object members))).length := by
  rcases exists_cut_write hsimple hnames h with ⟨front, c, back, hwrite, -, hbreak, -⟩
  have hfront : contentLines ('{' :: front) ≠ [] :=
    contentLines_ne_nil List.mem_cons_self (by decide)
  have hback : contentLines (back ++ ['}']) ≠ [] :=
    contentLines_ne_nil List.mem_concat_self (by decide)
  rw [hwrite, contentLines_append_break hbreak, List.length_append]
  have hfirst := List.length_pos_iff.mpr hfront
  have hsecond := List.length_pos_iff.mpr hback
  omega

end Reckoner.Json
