import Reckoner.Proofs.Json.Numbers
import Reckoner.Proofs.Json.Strings

/-!
# Reading — the reader reads JSON

The reader takes a text exactly if it is JSON within the limits of the reader, and the value is what
the text says. What the reader finds is in the grammar by the reader's own recursion; that it finds
all that is in the grammar is by induction on the derivation, with what follows the part left open.
-/

namespace Reckoner.Json

/-! ## White space -/

theorem isSpace_iff {c : Char} : isSpace c = true ↔ c ∈ [' ', '\t', '\n', '\r'] := by
  simp only [isSpace, Bool.or_eq_true, beq_iff_eq, List.mem_cons, List.not_mem_nil, or_false,
    or_assoc]

theorem isSpace_of_isDigit {c : Char} (hc : c.isDigit = true) : isSpace c = false := by
  rw [Bool.eq_false_iff, Ne, isSpace_iff]
  intro hspace
  have hall : [' ', '\t', '\n', '\r'].all fun c => !c.isDigit := by decide
  have hnone := List.all_eq_true.mp hall c hspace
  rw [hc] at hnone
  cases hnone

theorem skipSpace_cons {c : Char} (hc : isSpace c = false) (cs : List Char) :
    skipSpace (c :: cs) = c :: cs :=
  List.dropWhile_cons_of_neg (Bool.eq_false_iff.mp hc)

theorem skips_skipSpace (cs : List Char) : Skips cs (skipSpace cs) := by
  induction cs with
  | nil => exact .none []
  | cons c cs ih =>
    rw [skipSpace, List.dropWhile_cons]
    split
    · rename_i hc
      exact .one (isSpace_iff.mp hc) ih
    · exact .none _

-- White space is skipped up to what is none.
theorem Skips.skipSpace_eq {cs rest : List Char} (h : Skips cs rest)
    (hrest : ∀ c ∈ rest.head?, isSpace c = false) : skipSpace cs = rest := by
  induction h with
  | none cs =>
    cases cs with
    | nil => rfl
    | cons c cs => exact skipSpace_cons (hrest c rfl) cs
  | one hc _ ih => exact (List.dropWhile_cons_of_pos (isSpace_iff.mpr hc)).trans (ih hrest)

theorem Skips.length_le {cs rest : List Char} (h : Skips cs rest) : rest.length ≤ cs.length := by
  induction h with
  | none cs => exact Nat.le_refl _
  | one _ _ ih => exact ih.trans (Nat.le_succ _)

theorem Skips.length_lt {cs rest : List Char} {c : Char} (h : Skips cs (c :: rest)) :
    rest.length < cs.length := h.length_le

-- A text does not continue a number if it is empty, or begins with white space or punctuation.
theorem ends_cons {c : Char} (hc : c ∈ [' ', '\t', '\n', '\r', ']', '}', ',', ':'])
    (rest : List Char) : Ends (c :: rest) := by
  have hall : [' ', '\t', '\n', '\r', ']', '}', ',', ':'].all fun c =>
      !c.isDigit && c != '.' && c != 'e' && c != 'E' := by decide
  have hc := List.all_eq_true.mp hall c hc
  simp only [Bool.and_eq_true, Bool.not_eq_true', bne_iff_ne, and_assoc] at hc
  rintro d ⟨⟩
  exact hc

theorem Skips.ends {cs rest : List Char} (h : Skips cs rest) (hrest : Ends rest) : Ends cs := by
  cases h with
  | none => exact hrest
  | one hc _ => exact ends_cons (List.mem_append_left [']', '}', ',', ':'] hc) _

/-! ## What the reader takes is JSON -/

-- A word in front of a text.
theorem eq_append_of_afterWord? {word cs rest : List Char} (h : afterWord? word cs = some rest) :
    cs = word ++ rest := by
  induction word generalizing cs with
  | nil => exact Option.some.inj h
  | cons w word ih =>
    cases cs with
    | nil => cases h
    | cons c cs =>
      rw [afterWord?] at h
      split_ifs at h with hc
      rw [hc, ih h]
      rfl

theorem begins_of_wordOrNumber? {n : Nat} {cs rest : List Char} {v : Value}
    (h : wordOrNumber? cs = some (v, rest)) : Begins .reader n cs (.value v.datum) rest := by
  rw [wordOrNumber?] at h
  split at h
  · rename_i found hfound
    cases h
    rcases List.exists_of_findSome?_eq_some hfound with ⟨⟨word, v'⟩, hword, hafter⟩
    rcases Option.map_eq_some_iff.mp hafter with ⟨rest', hrest, heq⟩
    cases heq
    rw [eq_append_of_afterWord? hrest]
    simp only [words, List.mem_cons, List.not_mem_nil, or_false, Prod.mk.injEq] at hword
    refine .constant ?_ rest
    rcases hword with ⟨rfl, rfl⟩ | ⟨rfl, rfl⟩ | ⟨rfl, rfl⟩ | ⟨rfl, rfl⟩ | ⟨rfl, rfl⟩ | ⟨rfl, rfl⟩ <;>
      simp [constants, Value.datum]
  · rcases exists_of_number? h with ⟨size, text, rfl, hnumber, hsize, hv⟩
    rw [hv]
    exact .number hnumber hsize rest

-- A string and nothing in front of it.
theorem closes_of_stringRest_nil {cs rest : List Char} {s : String}
    (h : stringRest [] cs = some (s, rest)) : Closes cs (unitsOf s.toList) rest := by
  rcases closes_of_stringRest h with ⟨text, hs, hcloses⟩
  rw [List.reverse_nil, List.nil_append] at hs
  rwa [hs]

/-- Whatever the reader takes with so much fuel is JSON within its limits, and the value is what the
text says. -/
structure Sound (fuel : Nat) : Prop where
  value : ∀ {depth cs v rest}, value? fuel depth cs = some (v, rest) →
    Begins .reader depth cs (.value v.datum) rest
  elements : ∀ {depth done cs v rest}, elements? fuel depth done cs = some (v, rest) →
    ∃ vs, v = .array (done.reverse ++ vs) ∧
      Begins .reader depth cs (.elements (elementData vs)) rest
  members : ∀ {depth done cs v rest}, members? fuel depth done cs = some (v, rest) →
    ∃ ms, v = .object (done.reverse ++ ms) ∧
      Begins .reader depth cs (.members (memberData ms)) rest

namespace Sound

variable {fuel depth : Nat} {cs rest : List Char} {v : Value}

theorem value_succ (h : Sound fuel) (hread : value? (fuel + 1) depth cs = some (v, rest)) :
    Begins .reader depth cs (.value v.datum) rest := by
  rw [value?.eq_def] at hread
  simp only at hread
  split at hread
  · rcases Option.map_eq_some_iff.mp hread with ⟨⟨s, rest'⟩, hstring, heq⟩
    cases heq
    exact .string (closes_of_stringRest_nil hstring) ⟨_, rfl⟩
  · rename_i after
    have hskips := skips_skipSpace after
    split at hread
    · rename_i rest' hclose
      cases hread
      exact .emptyArray (hclose ▸ hskips)
    · split at hread
      · cases hread
      · rcases h.elements hread with ⟨vs, rfl, hbegins⟩
        exact .array hskips hbegins
  · rename_i after
    have hskips := skips_skipSpace after
    split at hread
    · rename_i rest' hclose
      cases hread
      exact .emptyObject (hclose ▸ hskips)
    · split at hread
      · cases hread
      · rcases h.members hread with ⟨ms, rfl, hbegins⟩
        exact .object hskips hbegins
  · exact begins_of_wordOrNumber? hread

theorem elements_succ (h : Sound fuel) {done : List Value}
    (hread : elements? (fuel + 1) depth done cs = some (v, rest)) :
    ∃ vs, v = .array (done.reverse ++ vs) ∧
      Begins .reader depth cs (.elements (elementData vs)) rest := by
  rw [elements?] at hread
  cases hfirst : value? fuel depth cs with
  | none =>
    rw [hfirst] at hread
    cases hread
  | some found =>
    rcases found with ⟨first, after⟩
    rw [hfirst] at hread
    simp only at hread
    have hbegins := h.value hfirst
    have hskips := skips_skipSpace after
    split at hread
    · rename_i more hcomma
      rw [hcomma] at hskips
      rcases h.elements hread with ⟨vs, rfl, hrest⟩
      refine ⟨first :: vs, ?_, .element hbegins hskips (skips_skipSpace more) hrest⟩
      rw [List.reverse_cons, List.append_assoc]
      rfl
    · rename_i rest' hclose
      rw [hclose] at hskips
      cases hread
      exact ⟨[first], by rw [List.reverse_cons], .lastElement hbegins hskips⟩
    · cases hread

theorem members_succ (h : Sound fuel) {done : List (String × Value)}
    (hread : members? (fuel + 1) depth done cs = some (v, rest)) :
    ∃ ms, v = .object (done.reverse ++ ms) ∧
      Begins .reader depth cs (.members (memberData ms)) rest := by
  rw [members?.eq_def] at hread
  simp only at hread
  split at hread
  case h_2 => cases hread
  rename_i cs
  cases hname : stringRest [] cs with
  | none =>
    rw [hname] at hread
    cases hread
  | some found =>
    rcases found with ⟨name, after⟩
    rw [hname] at hread
    simp only at hread
    split at hread
    case h_2 => cases hread
    rename_i more hcolon
    cases hfirst : value? fuel depth (skipSpace more) with
    | none =>
      rw [hfirst] at hread
      cases hread
    | some found =>
      rcases found with ⟨first, after'⟩
      rw [hfirst] at hread
      simp only at hread
      have hmember : Begins .reader depth ('"' :: cs) (.member (unitsOf name.toList) first.datum)
          after' :=
        .member (closes_of_stringRest_nil hname) ⟨_, rfl⟩ (hcolon ▸ skips_skipSpace after)
          (skips_skipSpace more) (h.value hfirst)
      have hskips := skips_skipSpace after'
      split at hread
      · rename_i more hcomma
        rw [hcomma] at hskips
        rcases h.members hread with ⟨ms, rfl, hrest⟩
        refine ⟨(name, first) :: ms, ?_, .moreMembers hmember hskips (skips_skipSpace more) hrest⟩
        rw [List.reverse_cons, List.append_assoc]
        rfl
      · rename_i rest' hclose
        rw [hclose] at hskips
        cases hread
        exact ⟨[(name, first)], by rw [List.reverse_cons], .lastMember hmember hskips⟩
      · cases hread

end Sound

theorem sound (fuel : Nat) : Sound fuel := by
  induction fuel with
  | zero =>
    refine ⟨fun h => ?_, fun h => ?_, fun h => ?_⟩
    · rw [value?] at h
      cases h
    · rw [elements?] at h
      cases h
    · rw [members?] at h
      cases h
  | succ fuel ih => exact ⟨ih.value_succ, ih.elements_succ, ih.members_succ⟩

/-! ## All that is in the grammar is taken -/

theorem IsNumber.exists_cons {size : Nat} {text : List Char} (h : IsNumber size text) :
    ∃ (negative : Bool) (c : Char) (cs : List Char), c.isDigit = true ∧
      text = (if negative then ['-'] else []) ++ c :: cs := by
  cases h with
  | intro hsign hwhole hzero hfraction hexponent =>
    rcases List.exists_cons_of_ne_nil hwhole.1 with ⟨c, whole, rfl⟩
    have hc := hwhole.2 c List.mem_cons_self
    rcases hsign with rfl | rfl
    · exact ⟨false, c, _, hc, rfl⟩
    · exact ⟨true, c, _, hc, rfl⟩

-- What begins with a digit, or with a sign and a digit, is read as a number.
theorem value?_of_isDigit {c : Char} (hc : c.isDigit = true) (negative : Bool) (cs : List Char)
    (fuel depth : Nat) :
    value? (fuel + 1) depth ((if negative then ['-'] else []) ++ c :: cs) =
      number? ((if negative then ['-'] else []) ++ c :: cs) := by
  have hword : wordOrNumber? ((if negative then ['-'] else []) ++ c :: cs) =
      number? ((if negative then ['-'] else []) ++ c :: cs) := by
    rw [wordOrNumber?, findSome?_words_of_isDigit cs negative hc]
  rw [← hword]
  cases negative with
  | true => exact value?_eq_wordOrNumber? fuel depth (by decide) (by decide) (by decide)
  | false =>
    have hne {d : Char} (hd : d.isDigit = false) : c ≠ d := by
      rintro rfl
      rw [hc] at hd
      cases hd
    exact value?_eq_wordOrNumber? fuel depth (hne rfl) (hne rfl) (hne rfl)

theorem exists_value?_of_isNumber {size : Nat} {text rest : List Char} (h : IsNumber size text)
    (hsize : size ≤ 4300) (hrest : Ends rest) (fuel depth : Nat) :
    ∃ v, value? (fuel + 1) depth (text ++ rest) = some (v, rest) ∧ v.datum = .number := by
  rcases exists_number?_of_isNumber h hsize hrest with ⟨v, hread, hv⟩
  rcases h.exists_cons with ⟨negative, c, cs, hc, rfl⟩
  refine ⟨v, ?_, hv⟩
  rw [List.append_assoc, List.cons_append] at hread ⊢
  rw [value?_of_isDigit hc, hread]

theorem exists_value?_of_constant {word : List Char} {d : Datum} (h : (word, d) ∈ constants)
    (fuel depth : Nat) (rest : List Char) :
    ∃ v, value? (fuel + 1) depth (word ++ rest) = some (v, rest) ∧ v.datum = d := by
  simp only [constants, List.mem_cons, List.not_mem_nil, or_false, Prod.mk.injEq] at h
  rcases h with ⟨rfl, rfl⟩ | ⟨rfl, rfl⟩ | ⟨rfl, rfl⟩ | ⟨rfl, rfl⟩ | ⟨rfl, rfl⟩ | ⟨rfl, rfl⟩ <;>
    exact ⟨_, rfl, rfl⟩

theorem constants_head {word : List Char} {d : Datum} (h : (word, d) ∈ constants) :
    ∃ c cs, word = c :: cs ∧ isSpace c = false ∧ c ≠ ']' ∧ c ≠ '}' := by
  simp only [constants, List.mem_cons, List.not_mem_nil, or_false, Prod.mk.injEq] at h
  rcases h with ⟨rfl, -⟩ | ⟨rfl, -⟩ | ⟨rfl, -⟩ | ⟨rfl, -⟩ | ⟨rfl, -⟩ | ⟨rfl, -⟩ <;>
    exact ⟨_, _, rfl, by decide⟩

theorem IsNumber.head {size : Nat} {text : List Char} (h : IsNumber size text) :
    ∃ c cs, text = c :: cs ∧ isSpace c = false ∧ c ≠ ']' ∧ c ≠ '}' := by
  rcases h.exists_cons with ⟨negative, c, cs, hc, rfl⟩
  cases negative with
  | true => exact ⟨'-', c :: cs, rfl, by decide⟩
  | false =>
    refine ⟨c, cs, rfl, isSpace_of_isDigit hc, ?_, ?_⟩ <;>
      rintro rfl <;>
      exact absurd hc (by decide)

namespace Begins

variable {l : Limits} {depth : Nat} {cs rest : List Char} {p : Part}

-- A part begins neither with white space nor with a closing bracket.
theorem exists_cons (h : Begins l depth cs p rest) :
    ∃ c cs', cs = c :: cs' ∧ isSpace c = false ∧ c ≠ ']' ∧ c ≠ '}' := by
  induction h with
  | constant h rest =>
    rcases constants_head h with ⟨c, cs, rfl, hc⟩
    exact ⟨c, cs ++ rest, rfl, hc⟩
  | number h hsize rest =>
    rcases h.head with ⟨c, cs, rfl, hc⟩
    exact ⟨c, cs ++ rest, rfl, hc⟩
  | lastElement _ _ ih => exact ih
  | element _ _ _ _ ih => exact ih
  | lastMember _ _ ih => exact ih
  | moreMembers _ _ _ _ ih => exact ih
  | _ => exact ⟨_, _, rfl, by decide⟩

theorem skipSpace_eq (h : Begins l depth cs p rest) {before : List Char} (hskips : Skips before cs) :
    skipSpace before = cs := by
  rcases h.exists_cons with ⟨c, cs', rfl, hc, -⟩
  refine hskips.skipSpace_eq ?_
  rintro _ ⟨⟩
  exact hc

theorem length_lt (h : Begins l depth cs p rest) : rest.length < cs.length := by
  induction h with
  | constant h rest =>
    rcases constants_head h with ⟨c, cs, rfl, -⟩
    simp only [List.cons_append, List.length_cons, List.length_append]
    omega
  | number h hsize rest =>
    rcases h.head with ⟨c, cs, rfl, -⟩
    simp only [List.cons_append, List.length_cons, List.length_append]
    omega
  | string h hunits => exact h.length_lt.trans (Nat.lt_succ_self _)
  | emptyArray h => exact h.length_lt.trans (Nat.lt_succ_self _)
  | array hstart h ih => exact ih.trans_le (hstart.length_le.trans (Nat.le_succ _))
  | emptyObject h => exact h.length_lt.trans (Nat.lt_succ_self _)
  | object hstart h ih => exact ih.trans_le (hstart.length_le.trans (Nat.le_succ _))
  | lastElement hvalue hafter ih => exact hafter.length_lt.trans ih
  | element hvalue hafter hmore h ihvalue ih =>
    exact ih.trans_le (hmore.length_le.trans (hafter.length_lt.trans ihvalue).le)
  | member hname hunits hafter hmore h ih =>
    have hlength := hafter.length_lt.trans hname.length_lt
    exact ih.trans_le (hmore.length_le.trans (hlength.le.trans (Nat.le_succ _)))
  | lastMember hmember hafter ih => exact hafter.length_lt.trans ih
  | moreMembers hmember hafter hmore h ihmember ih =>
    exact ih.trans_le (hmore.length_le.trans (hafter.length_lt.trans ihmember).le)

end Begins

/-- What the reader makes of a part that a text begins with, if it has fuel for the text: a value that
says the same, or in brackets the values that are left to put in them. -/
def Part.IsRead (depth : Nat) (cs rest : List Char) : Part → Prop
  | .value d => Ends rest → ∀ fuel, 2 * cs.length < fuel →
      ∃ v, value? fuel depth cs = some (v, rest) ∧ v.datum = d
  | .member name d => Ends rest → ∀ fuel, 2 * cs.length ≤ fuel →
      ∃ cs' s after more v, cs = '"' :: cs' ∧ stringRest [] cs' = some (s, after) ∧
        skipSpace after = ':' :: more ∧ value? fuel depth (skipSpace more) = some (v, rest) ∧
        unitsOf s.toList = name ∧ v.datum = d
  | .elements ds => ∀ fuel done, 2 * cs.length + 1 < fuel →
      ∃ vs, elements? fuel depth done cs = some (.array (done.reverse ++ vs), rest) ∧
        elementData vs = ds
  | .members ms => ∀ fuel done, 2 * cs.length + 1 < fuel →
      ∃ vs, members? fuel depth done cs = some (.object (done.reverse ++ vs), rest) ∧
        memberData vs = ms

theorem exists_stringRest_of_closes {cs rest : List Char} {us : List Nat} (h : Closes cs us rest)
    (hus : Limits.reader.string us) :
    ∃ s, stringRest [] cs = some (s, rest) ∧ unitsOf s.toList = us := by
  rcases hus with ⟨text, rfl⟩
  refine ⟨_, h.completes.text text rfl [], ?_⟩
  rw [List.reverse_nil, List.nil_append, String.toList_ofList]

-- What is not a closing bracket is the first element, or the first member.
theorem value?_array {cs start : List Char} {c : Char} (hskip : skipSpace cs = c :: start)
    (hclose : c ≠ ']') (fuel depth : Nat) :
    value? (fuel + 1) (depth + 1) ('[' :: cs) = elements? fuel depth [] (c :: start) := by
  rw [value?, hskip]
  split
  · rename_i heq
    exact absurd (List.cons.inj heq).1 hclose
  · rfl

theorem value?_object {cs start : List Char} {c : Char} (hskip : skipSpace cs = c :: start)
    (hclose : c ≠ '}') (fuel depth : Nat) :
    value? (fuel + 1) (depth + 1) ('{' :: cs) = members? fuel depth [] (c :: start) := by
  rw [value?, hskip]
  split
  · rename_i heq
    exact absurd (List.cons.inj heq).1 hclose
  · rfl

/-- All that is JSON within the limits of the reader is taken. -/
theorem Begins.isRead {depth : Nat} {cs rest : List Char} {p : Part}
    (h : Begins .reader depth cs p rest) : p.IsRead depth cs rest := by
  have hsucc {n fuel : Nat} (h : n < fuel) : ∃ fuel', fuel = fuel' + 1 :=
    Nat.exists_eq_succ_of_ne_zero (Nat.ne_zero_of_lt h)
  induction h with
  | constant h rest =>
    intro hrest fuel hfuel
    rcases hsucc hfuel with ⟨fuel, rfl⟩
    exact exists_value?_of_constant h fuel _ rest
  | number h hsize rest =>
    intro hrest fuel hfuel
    rcases hsucc hfuel with ⟨fuel, rfl⟩
    exact exists_value?_of_isNumber h hsize hrest fuel _
  | string h hunits =>
    intro hrest fuel hfuel
    rcases hsucc hfuel with ⟨fuel, rfl⟩
    rcases exists_stringRest_of_closes h hunits with ⟨s, hread, rfl⟩
    exact ⟨.string s, by rw [value?, hread]; rfl, rfl⟩
  | emptyArray h =>
    intro hrest fuel hfuel
    rcases hsucc hfuel with ⟨fuel, rfl⟩
    have hskip := h.skipSpace_eq (by rintro _ ⟨⟩; rfl)
    exact ⟨.array [], by rw [value?, hskip]; rfl, rfl⟩
  | array hstart h ih =>
    intro hrest fuel hfuel
    rcases hsucc hfuel with ⟨fuel, rfl⟩
    have hlength := hstart.length_le
    rcases ih fuel [] (by rw [List.length_cons] at hfuel; omega) with ⟨vs, hread, rfl⟩
    rcases h.exists_cons with ⟨c, start, rfl, -, hclose, -⟩
    exact ⟨.array vs, by rw [value?_array (h.skipSpace_eq hstart) hclose, hread]; rfl, rfl⟩
  | emptyObject h =>
    intro hrest fuel hfuel
    rcases hsucc hfuel with ⟨fuel, rfl⟩
    have hskip := h.skipSpace_eq (by rintro _ ⟨⟩; rfl)
    exact ⟨.object [], by rw [value?, hskip]; rfl, rfl⟩
  | object hstart h ih =>
    intro hrest fuel hfuel
    rcases hsucc hfuel with ⟨fuel, rfl⟩
    have hlength := hstart.length_le
    rcases ih fuel [] (by rw [List.length_cons] at hfuel; omega) with ⟨vs, hread, rfl⟩
    rcases h.exists_cons with ⟨c, start, rfl, -, -, hclose⟩
    exact ⟨.object vs, by rw [value?_object (h.skipSpace_eq hstart) hclose, hread]; rfl, rfl⟩
  | lastElement hvalue hafter ih =>
    intro fuel done hfuel
    rcases hsucc hfuel with ⟨fuel, rfl⟩
    rcases ih (hafter.ends (ends_cons (by decide) _)) fuel (by omega) with ⟨v, hread, rfl⟩
    have hskip := hafter.skipSpace_eq (by rintro _ ⟨⟩; rfl)
    refine ⟨[v], ?_, rfl⟩
    rw [elements?, hread]
    simp only [hskip, List.reverse_cons]
  | element hvalue hafter hmore h ihvalue ih =>
    intro fuel done hfuel
    rcases hsucc hfuel with ⟨fuel, rfl⟩
    rcases ihvalue (hafter.ends (ends_cons (by decide) _)) fuel (by omega) with ⟨v, hread, rfl⟩
    have hlength := (hmore.length_le.trans_lt hafter.length_lt).trans hvalue.length_lt
    rcases ih fuel (v :: done) (by omega) with ⟨vs, hrest, rfl⟩
    have hskip := hafter.skipSpace_eq (by rintro _ ⟨⟩; rfl)
    refine ⟨v :: vs, ?_, rfl⟩
    rw [elements?, hread]
    simp only [hskip, h.skipSpace_eq hmore, hrest, List.reverse_cons, List.append_assoc,
      List.singleton_append]
  | member hname hunits hafter hmore h ih =>
    intro hrest fuel hfuel
    have hlength := (hmore.length_le.trans_lt hafter.length_lt).trans hname.length_lt
    rcases exists_stringRest_of_closes hname hunits with ⟨s, hread, rfl⟩
    rcases ih hrest fuel (by rw [List.length_cons] at hfuel; omega) with ⟨v, hvalue, rfl⟩
    have hskip := hafter.skipSpace_eq (by rintro _ ⟨⟩; rfl)
    exact ⟨_, s, _, _, v, rfl, hread, hskip, by rw [h.skipSpace_eq hmore, hvalue], rfl, rfl⟩
  | lastMember hmember hafter ih =>
    intro fuel done hfuel
    rcases hsucc hfuel with ⟨fuel, rfl⟩
    rcases ih (hafter.ends (ends_cons (by decide) _)) fuel (by omega) with
      ⟨cs', s, after, more, v, rfl, hread, hcolon, hvalue, rfl, rfl⟩
    have hskip := hafter.skipSpace_eq (by rintro _ ⟨⟩; rfl)
    refine ⟨[(s, v)], ?_, rfl⟩
    rw [members?, hread]
    simp only [hcolon, hvalue, hskip, List.reverse_cons]
  | moreMembers hmember hafter hmore h ihmember ih =>
    intro fuel done hfuel
    rcases hsucc hfuel with ⟨fuel, rfl⟩
    have hlength := (hmore.length_le.trans_lt hafter.length_lt).trans hmember.length_lt
    rcases ihmember (hafter.ends (ends_cons (by decide) _)) fuel (by omega) with
      ⟨cs', s, after, more, v, rfl, hread, hcolon, hvalue, rfl, rfl⟩
    rcases ih fuel ((s, v) :: done) (by omega) with ⟨ms, hrest, rfl⟩
    have hskip := hafter.skipSpace_eq (by rintro _ ⟨⟩; rfl)
    refine ⟨(s, v) :: ms, ?_, rfl⟩
    rw [members?, hread]
    simp only [hcolon, hvalue, hskip, h.skipSpace_eq hmore, hrest, List.reverse_cons,
      List.append_assoc, List.singleton_append]

/-! ## Texts -/

/-- The reader takes a text exactly if it is JSON within the limits of the reader, nested at most 200
deep, and then the value is what the text says. -/
theorem exists_read?_iff {cs : List Char} {d : Datum} :
    (∃ v, read? cs = some v ∧ v.datum = d) ↔ Says .reader 200 cs d := by
  constructor
  · rintro ⟨v, hread, rfl⟩
    rw [read?] at hread
    split at hread
    · rename_i v' rest hvalue
      split_ifs at hread with hempty
      cases hread
      rw [List.isEmpty_iff] at hempty
      exact ⟨_, rest, skips_skipSpace cs, (sound _).value hvalue, hempty ▸ skips_skipSpace rest⟩
    · cases hread
  · rintro ⟨start, rest, hstart, hbegins, hrest⟩
    have hends : Ends rest := hrest.ends fun _ hc => by cases hc
    have hlength := hstart.length_le
    rcases hbegins.isRead hends (2 * cs.length + 2) (by omega) with ⟨v, hvalue, hv⟩
    refine ⟨v, ?_, hv⟩
    have hskip := hrest.skipSpace_eq fun _ hc => by cases hc
    rw [read?, hbegins.skipSpace_eq hstart, maxDepth, hvalue]
    simp only [hskip, List.isEmpty_nil, if_true]

/-! ## Members -/

theorem unitsOf_inj {cs ds : List Char} : unitsOf cs = unitsOf ds ↔ cs = ds := by
  refine ⟨fun h => ?_, fun h => h ▸ rfl⟩
  induction cs generalizing ds with
  | nil =>
    cases ds with
    | nil => rfl
    | cons d ds => exact absurd h.symm (unitsOf_cons_ne_nil d ds)
  | cons c cs ih =>
    rw [unitsOf, List.flatMap_cons] at h
    rcases exists_of_unitsOf_eq h.symm with ⟨ds', rfl, hrest⟩
    rw [ih hrest]

theorem Value.datum_eq_string {v : Value} {s : String} :
    v.datum = .string (unitsOf s.toList) ↔ v = .string s := by
  cases v with
  | string s' =>
    rw [datum, Datum.string.injEq, unitsOf_inj, String.toList_inj, Value.string.injEq]
  | _ => constructor <;> intro h <;> cases h

theorem Value.datum_eq_object {v : Value} {ms : List (List Nat × Datum)} :
    v.datum = .object ms ↔ ∃ members, v = .object members ∧ memberData members = ms := by
  cases v with
  | object members =>
    rw [datum, Datum.object.injEq]
    constructor
    · exact fun h => ⟨members, rfl, h⟩
    · rintro ⟨_, heq, h⟩
      cases heq
      exact h
  | _ =>
    constructor
    · intro h
      cases h
    · rintro ⟨_, heq, -⟩
      cases heq

theorem memberData_eq_map (members : List (String × Value)) :
    memberData members = members.map fun m => (unitsOf m.1.toList, m.2.datum) := by
  induction members with
  | nil => rfl
  | cons m members ih => rw [memberData, ih, List.map_cons]

-- The last member of a name says what the last value of that name is.
theorem lastNamed?_memberData (name : String) (members : List (String × Value)) :
    lastNamed? name.toList (memberData members) = (Value.lookup? name members).map Value.datum := by
  rw [lastNamed?, memberData_eq_map, ← List.map_reverse, Value.lookup?, Option.map_map]
  induction members.reverse with
  | nil => rfl
  | cons m ms ih =>
    rw [List.map_cons, List.lookup_cons, List.find?_cons]
    by_cases hname : m.1 = name
    · subst hname
      simp
    · have hunits : (unitsOf name.toList == unitsOf m.1.toList) = false := by
        rw [beq_eq_false_iff_ne, Ne, unitsOf_inj, String.toList_inj]
        exact fun heq => hname heq.symm
      rw [hunits, beq_eq_false_iff_ne.mpr hname]
      exact ih

theorem lastNamed?_memberData_eq_string {name s : String} {members : List (String × Value)} :
    lastNamed? name.toList (memberData members) = some (.string (unitsOf s.toList)) ↔
      Value.lookup? name members = some (.string s) := by
  rw [lastNamed?_memberData, Option.map_eq_some_iff]
  constructor
  · rintro ⟨v, hfound, hv⟩
    rw [hfound, Value.datum_eq_string.mp hv]
  · exact fun hfound => ⟨_, hfound, rfl⟩

end Reckoner.Json
