import Reckoner.Proofs.Json.Cut
import Reckoner.Proofs.Members

/-!
# Wire — requests and outcomes as lines of JSON

A request and an outcome survive their JSON text. The text is a single line if none of the three bare
line breaks is in the texts of the record.
-/

namespace Reckoner

open Json Record

/-! ## Records -/

theorem Json.Simple.saturate_eq {v : Value} (hv : Simple v) : v.saturate = v := by
  cases hv <;> rfl

theorem Json.parse?_write {members : List (String × Value)} (hnonempty : members ≠ [])
    (hsimple : ∀ m ∈ members, Simple m.2) :
    parse? (String.ofList (write (.object members))) = some (.object members) := by
  rw [parse?, String.toList_ofList]
  exact read?_write hnonempty hsimple

-- Reading the text of a flat object is reading its members.
theorem Record.recordOfText_write {α : Type} (read : List (String × Value) → Checked α)
    {members : List (String × Value)} (hnonempty : members ≠ [])
    (hsimple : ∀ m ∈ members, Simple m.2) :
    recordOfText read (String.ofList (write (.object members))) = read members := by
  have hsaturate : (members.map fun m => (m.1, m.2.saturate)) = members := by
    refine (List.map_congr_left fun m hm => ?_).trans (List.map_id members)
    rw [(hsimple m hm).saturate_eq]
    rfl
  rw [recordOfText, parse?_write hnonempty hsimple]
  simp only [record, hsaturate]

/-! ## Requests -/

namespace Request

theorem simple_members (r : Request) : ∀ m ∈ r.members, Simple m.2 :=
  List.forall_mem_cons.mpr ⟨.string _, List.forall_mem_singleton.mpr (.string _)⟩

/-- A request is read back from its text. -/
theorem ofText_write (r : Request) : ofText (String.ofList (write r.toValue)) = .ok r := by
  have hread := recordOfText_write ofMembers (List.cons_ne_nil _ _) r.simple_members
  exact hread.trans r.ofMembers_members

/-- The texts of a request are free of bare breaks. -/
def FreeOfBareBreaks (r : Request) : Prop :=
  Json.FreeOfBareBreaks r.expression ∧ Json.FreeOfBareBreaks r.function

instance (r : Request) : Decidable r.FreeOfBareBreaks := inferInstanceAs (Decidable (_ ∧ _))

theorem freeOfBareBreaks_names (r : Request) : ∀ m ∈ r.members, Json.FreeOfBareBreaks m.1 :=
  List.forall_mem_cons.mpr ⟨(by decide : Json.FreeOfBareBreaks "expression"),
    List.forall_mem_singleton.mpr (by decide : Json.FreeOfBareBreaks "function")⟩

theorem membersFreeOfBareBreaks_iff (r : Request) :
    MembersFreeOfBareBreaks r.members ↔ r.FreeOfBareBreaks := by
  constructor
  · intro h
    exact ⟨(h _ List.mem_cons_self).2, (h _ (List.mem_cons_of_mem _ List.mem_cons_self)).2⟩
  · intro h m hm
    refine ⟨r.freeOfBareBreaks_names m hm, ?_⟩
    rcases List.mem_cons.mp hm with rfl | hm
    · exact h.1
    · rw [List.mem_singleton.mp hm]
      exact h.2

/-- A request whose texts are free of bare breaks is written on one line. -/
theorem isContent_write {r : Request} (h : r.FreeOfBareBreaks) :
    Text.IsContent (write r.toValue) :=
  Json.isContent_write r.simple_members (r.membersFreeOfBareBreaks_iff.mpr h)

/-- Any other request is written on several lines. -/
theorem one_lt_length_contentLines {r : Request} (h : ¬r.FreeOfBareBreaks) :
    1 < (Text.contentLines (write r.toValue)).length :=
  one_lt_length_contentLines_write r.simple_members r.freeOfBareBreaks_names
    (r.membersFreeOfBareBreaks_iff.not.mpr h)

end Request

/-! ## Outcomes -/

namespace Outcome

theorem simple_members (o : Outcome) : ∀ m ∈ o.members, Simple m.2 := by
  have hresult : Simple (.ofDouble? o.result) := by
    cases o.result with
    | none => exact .null
    | some x => exact .float x
  have herror : Simple (.ofText? o.error) := by
    cases o.error with
    | none => exact .null
    | some e => exact .string e
  refine List.forall_mem_cons.mpr ⟨.string _, List.forall_mem_cons.mpr ⟨hresult, ?_⟩⟩
  exact List.forall_mem_cons.mpr ⟨herror, List.forall_mem_singleton.mpr (.bool _)⟩

/-- An outcome is read back from its text. -/
theorem ofText_write (o : Outcome) : ofText (String.ofList (write o.toValue)) = .ok o := by
  have hread := recordOfText_write ofMembers (List.cons_ne_nil _ _) o.simple_members
  exact hread.trans (o.ofMembers_append [])

/-- The texts of an outcome are free of bare breaks. -/
def FreeOfBareBreaks (o : Outcome) : Prop :=
  Json.FreeOfBareBreaks o.expression ∧ ∀ e ∈ o.error, Json.FreeOfBareBreaks e

theorem freeOfBareBreaks_names (o : Outcome) : ∀ m ∈ o.members, Json.FreeOfBareBreaks m.1 := by
  have hnames : Json.FreeOfBareBreaks "expression" ∧ Json.FreeOfBareBreaks "result" ∧
      Json.FreeOfBareBreaks "error" ∧ Json.FreeOfBareBreaks "rejected" := by decide
  refine List.forall_mem_cons.mpr ⟨hnames.1, List.forall_mem_cons.mpr ⟨hnames.2.1, ?_⟩⟩
  exact List.forall_mem_cons.mpr ⟨hnames.2.2.1, List.forall_mem_singleton.mpr hnames.2.2.2⟩

theorem membersFreeOfBareBreaks_iff (o : Outcome) :
    MembersFreeOfBareBreaks o.members ↔ o.FreeOfBareBreaks := by
  have hresult : (Value.ofDouble? o.result).FreeOfBareBreaks := by
    cases o.result <;> trivial
  have htext : (Value.ofText? o.error).FreeOfBareBreaks ↔
      ∀ e ∈ o.error, Json.FreeOfBareBreaks e := by
    cases o.error with
    | none => exact ⟨fun _ e he => (nomatch he), fun _ => trivial⟩
    | some e => exact ⟨fun h e' he => Option.some.inj he ▸ h, fun h => h e rfl⟩
  constructor
  · intro h
    exact ⟨(h ("expression", .string o.expression) (by simp [members])).2,
      htext.mp (h ("error", .ofText? o.error) (by simp [members])).2⟩
  · intro h m hm
    refine ⟨o.freeOfBareBreaks_names m hm, ?_⟩
    simp only [members, List.mem_cons, List.not_mem_nil, or_false] at hm
    rcases hm with rfl | rfl | rfl | rfl
    · exact h.1
    · exact hresult
    · exact htext.mpr h.2
    · trivial

/-- An outcome whose texts are free of bare breaks is written on one line. -/
theorem isContent_write {o : Outcome} (h : o.FreeOfBareBreaks) :
    Text.IsContent (write o.toValue) :=
  Json.isContent_write o.simple_members (o.membersFreeOfBareBreaks_iff.mpr h)

/-- Any other outcome begins with a line that is no JSON. -/
theorem exists_nonemptyLines {o : Outcome} (h : ¬o.FreeOfBareBreaks) :
    ∃ l ls, Text.nonemptyLines (write o.toValue) = l :: ls ∧
      ofText (String.ofList l) = .error [⟨none, .notJson⟩] := by
  rcases exists_nonemptyLines_write o.simple_members o.freeOfBareBreaks_names
    (o.membersFreeOfBareBreaks_iff.not.mpr h) with ⟨l, ls, hlines, hread⟩
  refine ⟨l, ls, hlines, ?_⟩
  rw [ofText, recordOfText, parse?, String.toList_ofList, hread]
  rfl

end Outcome

end Reckoner
