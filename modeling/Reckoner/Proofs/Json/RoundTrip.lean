import Reckoner.Json.Writer
import Reckoner.Proofs.Json.Doubles

/-!
# RoundTrip — flat objects survive their text

An object whose members are texts, doubles, flags and nulls reads back from its text as it was. The
reader gets ahead of the writer character by character in a text and member by member in an object,
and what is behind it no longer matters.
-/

namespace Reckoner.Json

open Number

/-! ## Texts -/

-- A control character without a letter of its own is written by its number.
theorem hex_of_control {n : Nat} (hn : n < 0x20) :
    ∃ a b, Text.Quoted.hex 4 n = ['0', '0', a, b] ∧ codeUnit? '0' '0' a b = some n := by
  have hall : ∀ n < 0x20, Text.Quoted.hex 4 n =
      ['0', '0', (Text.Quoted.hex 4 n).getD 2 '0', (Text.Quoted.hex 4 n).getD 3 '0'] ∧
      codeUnit? '0' '0' ((Text.Quoted.hex 4 n).getD 2 '0') ((Text.Quoted.hex 4 n).getD 3 '0') =
        some n := by decide
  exact ⟨_, _, hall n hn⟩

-- A character that is not escaped stands for itself.
theorem stringRest_plain {c : Char} (hquote : c ≠ '"') (hslash : c ≠ '\\')
    (hprintable : ¬c.toNat < 0x20) (done rest : List Char) :
    stringRest done (c :: rest) = stringRest (c :: done) rest := by
  rw [stringRest]
  · rw [if_neg (by rintro (h | h); exacts [hslash h, hprintable h])]
  · exact hquote
  · exact fun _ _ _ _ _ h _ => hslash h
  · exact fun _ _ h _ => hslash h

theorem stringRest_escape (c : Char) (done rest : List Char) :
    stringRest done (escape c ++ rest) = stringRest (c :: done) rest := by
  unfold escape
  split
  · subst c
    rfl
  split
  · subst c
    rfl
  split
  · subst c
    rfl
  split
  · subst c
    rfl
  split
  · subst c
    rfl
  split
  · subst c
    rfl
  split
  · subst c
    rfl
  split
  · -- A control character without a letter has its number in four digits.
    rename_i hcontrol
    rcases hex_of_control hcontrol with ⟨a, b, hhex, hunit⟩
    rw [hhex]
    show stringRest done ('\\' :: 'u' :: '0' :: '0' :: a :: b :: rest) = _
    rw [stringRest, hunit]
    simp only
    rw [if_neg (by omega), if_neg (by omega), Char.ofNat_toNat]
  · rename_i hquote hslash _ _ _ _ _ hprintable
    exact stringRest_plain hquote hslash hprintable done rest

/-- A text reads back up to its closing quote. -/
theorem stringRest_flatMap_escape (cs done rest : List Char) :
    stringRest done (cs.flatMap escape ++ '"' :: rest) =
      some (String.ofList (done.reverse ++ cs), rest) := by
  induction cs generalizing done with
  | nil =>
    rw [List.flatMap_nil, List.append_nil]
    rfl
  | cons c cs ih =>
    rw [List.flatMap_cons, List.append_assoc, stringRest_escape, ih, List.reverse_cons,
      List.append_assoc]
    rfl

/-! ## Values -/

/-- The values that are neither whole numbers nor made of others. -/
inductive Simple : Value → Prop where
  | null : Simple .null
  | bool (b : Bool) : Simple (.bool b)
  | float (x : Float) : Simple (.float x)
  | string (s : String) : Simple (.string s)

-- The first character of a text decides how it is read; here it is that of a word or a number.
theorem value?_eq_wordOrNumber? {c : Char} {cs : List Char} (fuel depth : Nat) (hquote : c ≠ '"')
    (hbracket : c ≠ '[') (hbrace : c ≠ '{') :
    value? (fuel + 1) depth (c :: cs) = wordOrNumber? (c :: cs) := by
  rw [value?]
  · exact fun _ h => hquote (List.cons.inj h).1
  · exact fun _ h => hbracket (List.cons.inj h).1
  · exact fun _ h => hbrace (List.cons.inj h).1

-- How the text of a double begins.
theorem exists_head_double (x : Float) :
    ∃ c cs, number.ofBinary64 (Binary64.ofFloat x) = c :: cs ∧
      (c.isDigit = true ∨ c = '-' ∨ c = 'N' ∨ c = 'I') := by
  rcases Binary64.ofFloat_cases x with ⟨negative, bits, hfinite, hx, hmeaning⟩ |
    ⟨negative, hx, hmeaning⟩ | ⟨hx, hmeaning⟩
  · rcases exists_parts_of_finite hfinite with ⟨p, htext, hform, -⟩
    rcases List.exists_cons_of_ne_nil hform.whole_ne_nil with ⟨c, whole, hwhole⟩
    have hdigit := hform.whole_digits c (by rw [hwhole]; exact List.mem_cons_self)
    rw [hmeaning, Layout.ofBinary64, ← htext, Layout.Parts.text, hwhole]
    cases negative with
    | true => exact ⟨_, _, rfl, .inr (.inl rfl)⟩
    | false => exact ⟨_, _, rfl, .inl hdigit⟩
  · rw [hmeaning]
    cases negative with
    | true => exact ⟨_, _, rfl, .inr (.inl rfl)⟩
    | false => exact ⟨_, _, rfl, .inr (.inr (.inr rfl))⟩
  · rw [hmeaning]
    exact ⟨_, _, rfl, .inr (.inr (.inl rfl))⟩

theorem value?_write {v : Value} (hv : Simple v) (fuel depth : Nat) {rest : List Char}
    (hrest : Ends rest) : value? (fuel + 1) depth (write v ++ rest) = some (v, rest) := by
  cases hv with
  | null => rfl
  | bool b => cases b <;> rfl
  | string s =>
    show value? (fuel + 1) depth ('"' :: (s.toList.flatMap escape ++ ['"'] ++ rest)) = _
    rw [value?, List.append_assoc, List.singleton_append, stringRest_flatMap_escape]
    simp only [Option.map_some, List.reverse_nil, List.nil_append, String.ofList_toList]
  | float x =>
    have hread := wordOrNumber?_double x hrest
    rcases exists_head_double x with ⟨c, cs, hhead, hc⟩
    show value? (fuel + 1) depth (number.ofBinary64 (Binary64.ofFloat x) ++ rest) = _
    rw [hhead, List.cons_append] at hread ⊢
    rw [← hread]
    refine value?_eq_wordOrNumber? fuel depth ?_ ?_ ?_ <;> rintro rfl <;> revert hc <;> decide

-- No value begins with white space.
theorem skipSpace_write {v : Value} (hv : Simple v) (rest : List Char) :
    skipSpace (write v ++ rest) = write v ++ rest := by
  cases hv with
  | null => rfl
  | bool b => cases b <;> rfl
  | string s => rfl
  | float x =>
    rcases exists_head_double x with ⟨c, cs, hhead, hc⟩
    have hspace : ¬isSpace c = true := by
      rcases hc with hdigit | rfl | rfl | rfl
      · intro h
        simp only [isSpace, Bool.or_eq_true, beq_iff_eq] at h
        rcases h with ((rfl | rfl) | rfl) | rfl <;> exact nomatch hdigit
      all_goals decide
    show skipSpace (number.ofBinary64 (Binary64.ofFloat x) ++ rest) =
      number.ofBinary64 (Binary64.ofFloat x) ++ rest
    rw [hhead]
    exact List.dropWhile_cons_of_neg hspace

/-! ## Objects -/

-- The reader goes on after one member as what follows it says.
theorem members?_member {v : Value} (hv : Simple v) (name : String) (fuel depth : Nat)
    (done : List (String × Value)) {rest after : List Char} (hrest : Ends rest) :
    (skipSpace rest = ',' :: after →
      members? (fuel + 2) depth done (writeString name ++ ':' :: (write v ++ rest)) =
        members? (fuel + 1) depth ((name, v) :: done) (skipSpace after)) ∧
    (skipSpace rest = '}' :: after →
      members? (fuel + 2) depth done (writeString name ++ ':' :: (write v ++ rest)) =
        some (.object ((name, v) :: done).reverse, after)) := by
  have hname : writeString name ++ ':' :: (write v ++ rest) =
      '"' :: (name.toList.flatMap escape ++ '"' :: ':' :: (write v ++ rest)) := by
    rw [writeString, List.cons_append, List.append_assoc]
    rfl
  have hcolon : skipSpace (':' :: (write v ++ rest)) = ':' :: (write v ++ rest) := rfl
  constructor <;> intro hskip <;> rw [hname, members?, stringRest_flatMap_escape] <;>
    simp only [List.reverse_nil, List.nil_append, String.ofList_toList, hcolon, skipSpace_write hv,
      value?_write hv fuel depth hrest, hskip]

theorem writeMembers_cons {name : String} {v : Value} {members : List (String × Value)}
    (h : members ≠ []) : writeMembers ((name, v) :: members) =
      writeString name ++ ':' :: (write v ++ ',' :: writeMembers members) := by
  cases members with
  | nil => exact absurd rfl h
  | cons m members => rfl

theorem exists_writeMembers {members : List (String × Value)} (h : members ≠ []) :
    ∃ cs, writeMembers members = '"' :: cs := by
  rcases members with _ | ⟨⟨name, v⟩, _ | ⟨m, members⟩⟩
  · exact absurd rfl h
  · exact ⟨_, rfl⟩
  · exact ⟨_, rfl⟩

-- The further members of an object read back up to its closing brace.
theorem members?_writeMembers {members : List (String × Value)} (hnonempty : members ≠ [])
    (hsimple : ∀ m ∈ members, Simple m.2) {fuel : Nat} (hfuel : members.length < fuel) (depth : Nat)
    (done : List (String × Value)) (rest : List Char) :
    members? fuel depth done (writeMembers members ++ '}' :: rest) =
      some (.object (done.reverse ++ members), rest) := by
  induction members generalizing fuel done with
  | nil => exact absurd rfl hnonempty
  | cons m members ih =>
    rcases m with ⟨name, v⟩
    rw [List.forall_mem_cons] at hsimple
    rw [List.length_cons] at hfuel
    rcases Nat.exists_eq_add_of_lt hfuel with ⟨k, hk⟩
    -- What follows the member decides how the reader goes on: the brace, or a comma.
    by_cases hlast : members = []
    · subst hlast
      have hend : Ends ('}' :: rest) := by
        intro c hc
        cases hc
        decide
      rw [show fuel = k + 2 by simp at hk; omega, writeMembers, List.append_assoc, List.cons_append,
        (members?_member hsimple.1 name k depth done hend).2 rfl, List.reverse_cons]
    · have hend : Ends (',' :: (writeMembers members ++ '}' :: rest)) := by
        intro c hc
        cases hc
        decide
      rcases exists_writeMembers hlast with ⟨cs, hcs⟩
      have hskip : skipSpace (writeMembers members ++ '}' :: rest) =
          writeMembers members ++ '}' :: rest := by
        rw [hcs]
        rfl
      rw [show fuel = (members.length + k) + 2 by omega, writeMembers_cons hlast, List.append_assoc,
        List.cons_append, List.append_assoc, List.cons_append,
        (members?_member hsimple.1 name _ depth done hend).1 rfl, hskip,
        ih hlast hsimple.2 (by omega), List.reverse_cons, List.append_assoc]
      rfl

theorem length_writeMembers (members : List (String × Value)) :
    members.length ≤ (writeMembers members).length := by
  induction members with
  | nil => exact Nat.zero_le _
  | cons m members ih =>
    rcases m with ⟨name, v⟩
    by_cases hlast : members = []
    · subst hlast
      rw [writeMembers, writeString]
      simp only [List.length_append, List.length_cons, List.length_nil]
      omega
    · rw [writeMembers_cons hlast, writeString]
      simp only [List.length_append, List.length_cons, List.length_nil]
      omega

/-- A flat object reads back from its text. -/
theorem read?_write {members : List (String × Value)} (hnonempty : members ≠ [])
    (hsimple : ∀ m ∈ members, Simple m.2) :
    read? (write (.object members)) = some (.object members) := by
  have hwrite : write (.object members) = '{' :: (writeMembers members ++ ['}']) := rfl
  have hlength := length_writeMembers members
  have hfuel : members.length < 2 * (write (.object members)).length + 1 := by
    rw [hwrite, List.length_cons, List.length_append]
    omega
  rcases exists_writeMembers hnonempty with ⟨cs, hcs⟩
  have hskip : skipSpace (writeMembers members ++ ['}']) = '"' :: (cs ++ ['}']) := by
    rw [hcs]
    rfl
  have hvalue : value? (2 * (write (.object members)).length + 2) maxDepth
      ('{' :: (writeMembers members ++ ['}'])) = some (.object members, []) := by
    have hmembers := members?_writeMembers hnonempty hsimple hfuel 199 [] []
    rw [hcs] at hmembers
    rw [maxDepth, value?]
    simp only [hskip]
    exact hmembers
  have hopen : skipSpace (write (.object members)) = '{' :: (writeMembers members ++ ['}']) := rfl
  rw [read?, hopen, hvalue]
  rfl

end Reckoner.Json
