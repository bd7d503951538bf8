import Reckoner.Proofs.Json.Reading

/-!
# Beyond — JSON that the reader refuses

Half of a surrogate pair by itself, a number that goes on for too long, arrays that are nested too
deep: each of them is JSON, and the reader refuses a text that it stands in.
-/

namespace Reckoner.Json

/-! ## In the grammar -/

-- A string with nothing in it that needs an escape.
theorem closes_unitsOf (cs : List Char)
    (h : cs.all fun c => c != '"' && c != '\\' && 0x20 ≤ c.toNat) (rest : List Char) :
    Closes (cs ++ '"' :: rest) (unitsOf cs) rest := by
  induction cs with
  | nil => exact .quote rest
  | cons c cs ih =>
    simp only [List.all_cons, Bool.and_eq_true, bne_iff_ne, decide_eq_true_eq, and_assoc] at h
    exact .plain h.1 h.2.1 h.2.2.1 (ih h.2.2.2)

theorem isNumber_of_isDigits {whole : List Char} (h : IsDigits whole)
    (hzero : whole.head? = some '0' → whole = ['0']) : IsNumber whole.length whole := by
  have hnumber : IsNumber _ ([] ++ (whole ++ ([] ++ []))) :=
    .intro (.inl rfl) h hzero .absent .absent
  rwa [List.nil_append, List.append_nil, List.append_nil, List.length_nil, Nat.zero_add] at hnumber

/-- Arrays in one another, around a digit. -/
def nested (depth : Nat) : List Char :=
  List.replicate depth '[' ++ '1' :: List.replicate depth ']'

theorem nested_succ (depth : Nat) : nested (depth + 1) = '[' :: (nested depth ++ [']']) := by
  rw [nested, nested, List.replicate_succ, List.replicate_succ', List.append_assoc]
  rfl

theorem exists_nested (depth : Nat) (rest : List Char) :
    ∃ c cs, nested depth ++ rest = c :: cs ∧ isSpace c = false ∧ c ≠ ']' := by
  cases depth with
  | zero => exact ⟨'1', rest, rfl, by decide⟩
  | succ depth => exact ⟨'[', _, by rw [nested_succ]; rfl, by decide⟩

theorem mem_nested {c : Char} {depth : Nat} (h : c ∈ nested depth) : c ∈ ['[', '1', ']'] := by
  rcases List.mem_append.mp h with h | h
  · exact List.eq_of_mem_replicate h ▸ List.mem_cons_self
  · rcases List.mem_cons.mp h with rfl | h
    · exact List.mem_cons_of_mem _ List.mem_cons_self
    · exact List.eq_of_mem_replicate h ▸ List.mem_of_getElem? (i := 2) rfl

theorem exists_begins_nested {l : Limits} (hsize : l.number 1) (depth : Nat) (rest : List Char) :
    ∃ d, Begins l depth (nested depth ++ rest) (.value d) rest := by
  induction depth generalizing rest with
  | zero =>
    have hdigits : IsDigits ['1'] := ⟨List.cons_ne_nil _ _, List.forall_mem_singleton.mpr rfl⟩
    have hzero : ['1'].head? ≠ some '0' := by decide
    have hone : IsNumber 1 ['1'] := isNumber_of_isDigits hdigits fun h => absurd h hzero
    exact ⟨.number, .number hone hsize rest⟩
  | succ depth ih =>
    rcases ih (']' :: rest) with ⟨d, hd⟩
    rw [nested_succ, List.cons_append, List.append_assoc]
    exact ⟨.array [d], .array (.none _) (.lastElement hd (.none _))⟩

/-! ## Refused -/

-- Half of a pair in front of the end of its string.
theorem stringRest_half {a b c d : Char} {unit : Nat} (hunit : codeUnit? a b c d = some unit)
    (hhalf : 0xD800 ≤ unit ∧ unit < 0xE000) (done rest : List Char) :
    stringRest done ('\\' :: 'u' :: a :: b :: c :: d :: '"' :: rest) = none := by
  rw [stringRest, hunit]
  simp only
  split_ifs with hhigh hlow
  · rfl
  · rfl
  · omega

theorem number?_of_isDigits {whole rest : List Char} (h : IsDigits whole)
    (hsize : 4300 < whole.length) (hrest : ∀ c ∈ rest.head?, c.isDigit = false) :
    number? (whole ++ rest) = none := by
  rcases List.exists_cons_of_ne_nil h.1 with ⟨c, cs, rfl⟩
  have hminus : ((c :: cs ++ rest).head? == some '-') = false := by
    rw [beq_eq_false_iff_ne]
    rintro ⟨⟩
    exact absurd (h.2 '-' List.mem_cons_self) (by decide)
  have hwhole : (c :: cs ++ rest).takeWhile Char.isDigit = c :: cs := by
    rw [List.takeWhile_append_of_pos h.2]
    cases rest with
    | nil => rw [List.takeWhile_nil, List.append_nil]
    | cons r rest =>
      rw [List.takeWhile_cons_of_neg (Bool.eq_false_iff.mp (hrest r rfl)), List.append_nil]
  rw [number?, hminus]
  simp only [Bool.false_eq_true, if_false, hwhole, Bool.toNat_false, Nat.add_zero, maxDigits]
  rw [if_pos hsize, ite_self]

theorem value?_of_isDigits {whole rest : List Char} (h : IsDigits whole)
    (hsize : 4300 < whole.length) (hrest : ∀ c ∈ rest.head?, c.isDigit = false)
    (fuel depth : Nat) : value? fuel depth (whole ++ rest) = none := by
  cases fuel with
  | zero => rw [value?]
  | succ fuel =>
    have hnumber := number?_of_isDigits h hsize hrest
    rcases List.exists_cons_of_ne_nil h.1 with ⟨c, cs, rfl⟩
    exact (value?_of_isDigit (h.2 c List.mem_cons_self) false (cs ++ rest) fuel depth).trans hnumber

-- Arrays in one another are refused at the bracket that is one too many.
theorem value?_nested {depth n : Nat} (h : depth < n) (fuel : Nat) (rest : List Char) :
    value? fuel depth (nested n ++ rest) = none := by
  induction n generalizing depth fuel rest with
  | zero => exact absurd h (Nat.not_lt_zero depth)
  | succ n ih =>
    rw [nested_succ, List.cons_append, List.append_assoc]
    rcases exists_nested n ([']'] ++ rest) with ⟨c, cs, hcs, hspace, hclose⟩
    have hskip : skipSpace (nested n ++ ([']'] ++ rest)) = c :: cs := by
      rw [hcs, skipSpace_cons hspace]
    cases fuel with
    | zero => rw [value?]
    | succ fuel =>
      cases depth with
      | zero =>
        rw [value?, hskip]
        split
        · rename_i heq
          exact absurd (List.cons.inj heq).1 hclose
        · rfl
      | succ depth =>
        rw [value?_array hskip hclose, ← hcs]
        cases fuel with
        | zero => rw [elements?]
        | succ fuel => rw [elements?, ih (Nat.lt_of_succ_lt_succ h)]

/-! ## Beside an expression -/

/-- An object with the expression `1` and one more value. -/
def besides (x : List Char) : List Char :=
  '{' :: ("\"expression\":\"1\",\"x\":".toList ++ (x ++ ['}']))

-- It is JSON if the value is.
theorem says_besides {l : Limits} (hl : ∀ cs, l.string (unitsOf cs)) {depth : Nat} {x : List Char}
    {d : Datum} (h : Begins l depth (x ++ ['}']) (.value d) ['}']) :
    Says l (depth + 1) (besides x) (.object [
      (unitsOf "expression".toList, .string (unitsOf "1".toList)), (unitsOf "x".toList, d)]) := by
  have hname := closes_unitsOf "expression".toList (by decide)
    (":\"1\",\"x\":".toList ++ (x ++ ['}']))
  have htext := closes_unitsOf "1".toList (by decide) (",\"x\":".toList ++ (x ++ ['}']))
  have hother := closes_unitsOf "x".toList (by decide) (":".toList ++ (x ++ ['}']))
  have hfirst : Begins l depth _ (.member _ _) _ :=
    .member hname (hl _) (.none _) (.none _) (.string htext (hl _))
  have hlast : Begins l depth _ (.member _ _) _ := .member hother (hl _) (.none _) (.none _) h
  exact ⟨besides x, [], .none _, .object (.none _)
    (.moreMembers hfirst (.none _) (.none _) (.lastMember hlast (.none _))), .none _⟩

-- A member of an object and the comma behind it.
theorem members?_more {fuel depth : Nat} {cs after more next : List Char} {name : String}
    {v : Value} (done : List (String × Value)) (hname : stringRest [] cs = some (name, after))
    (hcolon : skipSpace after = ':' :: more)
    (hvalue : value? fuel depth (skipSpace more) = some (v, ',' :: next)) :
    members? (fuel + 1) depth done ('"' :: cs) =
      members? fuel depth ((name, v) :: done) (skipSpace next) := by
  rw [members?, hname]
  simp only [hcolon, hvalue]
  rfl

-- It is refused if the value is.
theorem read?_besides {x : List Char}
    (h : ∀ fuel, value? fuel 199 (skipSpace (x ++ ['}'])) = none) : read? (besides x) = none := by
  have hvalue (fuel : Nat) : value? (fuel + 3) 200 (besides x) = none := by
    have hobject : value? (fuel + 3) 200 (besides x) = members? (fuel + 2) 199 []
        ("\"expression\":\"1\",\"x\":".toList ++ (x ++ ['}'])) :=
      value?_object rfl (by decide) (fuel + 2) 199
    have hname : stringRest [] ("expression\":\"1\",\"x\":".toList ++ (x ++ ['}'])) =
        some ("expression", ":\"1\",\"x\":".toList ++ (x ++ ['}'])) := rfl
    have hone : value? (fuel + 1) 199 (skipSpace ("\"1\",\"x\":".toList ++ (x ++ ['}']))) =
        some (.string "1", ",\"x\":".toList ++ (x ++ ['}'])) := by
      show value? (fuel + 1) 199 ('"' :: ("1\",\"x\":".toList ++ (x ++ ['}']))) = _
      rw [value?]
      rfl
    have hother : stringRest [] ("x\":".toList ++ (x ++ ['}'])) =
        some ("x", ":".toList ++ (x ++ ['}'])) := rfl
    rw [hobject]
    refine (members?_more [] hname rfl hone).trans ?_
    show members? (fuel + 1) 199 _ ('"' :: ("x\":".toList ++ (x ++ ['}']))) = none
    have hcolon : skipSpace (":".toList ++ (x ++ ['}'])) = ':' :: (x ++ ['}']) := rfl
    rw [members?, hother]
    simp only [hcolon, h]
  have hlength : 0 < (besides x).length := List.length_pos_iff.mpr (List.cons_ne_nil _ _)
  rcases Nat.exists_eq_add_of_le' (by omega : 3 ≤ 2 * (besides x).length + 2) with ⟨fuel, hfuel⟩
  have hspace : skipSpace (besides x) = besides x := rfl
  rw [read?, hspace, hfuel, maxDepth, hvalue]

theorem read?_besides_half {a b c d : Char} {unit : Nat} (hunit : codeUnit? a b c d = some unit)
    (hhalf : 0xD800 ≤ unit ∧ unit < 0xE000) :
    read? (besides ['"', '\\', 'u', a, b, c, d, '"']) = none := by
  refine read?_besides fun fuel => ?_
  show value? fuel 199 ['"', '\\', 'u', a, b, c, d, '"', '}'] = none
  cases fuel with
  | zero => rw [value?]
  | succ fuel =>
    rw [value?, stringRest_half hunit hhalf]
    rfl

theorem read?_besides_of_isDigits {whole : List Char} (h : IsDigits whole)
    (hsize : 4300 < whole.length) : read? (besides whole) = none := by
  refine read?_besides fun fuel => ?_
  have hclose : ∀ c ∈ ['}'].head?, c.isDigit = false := by
    rintro _ ⟨⟩
    rfl
  have hvalue := value?_of_isDigits h hsize hclose fuel 199
  rcases List.exists_cons_of_ne_nil h.1 with ⟨c, cs, rfl⟩
  rw [List.cons_append, skipSpace_cons (isSpace_of_isDigit (h.2 c List.mem_cons_self))]
  exact hvalue

theorem read?_besides_nested {depth : Nat} (h : 199 < depth) :
    read? (besides (nested depth)) = none := by
  refine read?_besides fun fuel => ?_
  rcases exists_nested depth ['}'] with ⟨c, cs, hcs, hspace, -⟩
  rw [hcs, skipSpace_cons hspace, ← hcs]
  exact value?_nested h fuel ['}']

end Reckoner.Json
