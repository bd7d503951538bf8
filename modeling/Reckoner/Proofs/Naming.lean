import Reckoner.Proofs.Json.Reading
import Reckoner.Proofs.Members

/-!
# Naming — lines that are requests

A line is a request exactly if it is an object in JSON that has an expression, a text that is not
blank, and for its function a text or nothing. Numbers beyond the doubles, which reading changes, are
no texts, so they make no difference to this.
-/

namespace Reckoner

open Json Record

/-! ## Fields -/

theorem Json.Value.lookup?_map (name : String) (members : List (String × Value))
    (f : Value → Value) :
    lookup? name (members.map fun m => (m.1, f m.2)) = (lookup? name members).map f := by
  rw [lookup?, lookup?, ← List.map_reverse, List.find?_map, Option.map_map, Option.map_map]
  rfl

theorem Json.Value.saturate_eq_string {v : Value} {s : String} :
    v.saturate = .string s ↔ v = .string s := by
  cases v with
  | int n =>
    rw [saturate]
    split
    · exact ⟨nofun, nofun⟩
    · exact Iff.rfl
  | null => exact Iff.rfl
  | bool b => exact Iff.rfl
  | float x => exact Iff.rfl
  | string s => exact Iff.rfl
  | array elements => exact Iff.rfl
  | object members => exact Iff.rfl

-- Where a text is, there was one before the numbers were changed.
theorem Json.Value.lookup?_saturate {name s : String} {members : List (String × Value)} :
    lookup? name (members.map fun m => (m.1, m.2.saturate)) = some (.string s) ↔
      lookup? name members = some (.string s) := by
  rw [lookup?_map, Option.map_eq_some_iff]
  constructor
  · rintro ⟨v, hfound, hv⟩
    rw [hfound, saturate_eq_string.mp hv]
  · exact fun hfound => ⟨_, hfound, rfl⟩

namespace Record

variable {α β : Type} {members : List (String × Value)} {name : String}
  {read : Value → Except Cause α} {a absent : α}

theorem Checked.eq_ok_of_apply {f : Checked (α → β)} {x : Checked α} {b : β}
    (h : Checked.apply f x = .ok b) : ∃ g a, f = .ok g ∧ x = .ok a ∧ g a = b := by
  cases f with
  | error faults => cases x <;> exact nomatch h
  | ok g =>
    cases x with
    | error faults => exact nomatch h
    | ok a => exact ⟨g, a, rfl, rfl, Except.ok.inj h⟩

theorem Checked.eq_ok_of_ofField {found : Except Cause α} (h : Checked.ofField name found = .ok a) :
    found = .ok a := by
  cases found with
  | error cause => exact nomatch h
  | ok a' => rw [Except.ok.inj h]

theorem exists_of_required (h : required members name read = .ok a) :
    ∃ v, Value.lookup? name members = some v ∧ read v = .ok a := by
  rw [required] at h
  split at h
  · rename_i v hfound
    exact ⟨v, hfound, Checked.eq_ok_of_ofField h⟩
  · cases h

theorem exists_of_withDefault (h : withDefault members name absent read = .ok a) :
    Value.lookup? name members = none ∨
      ∃ v, Value.lookup? name members = some v ∧ read v = .ok a := by
  rw [withDefault] at h
  split at h
  · rename_i v hfound
    exact .inr ⟨v, hfound, Checked.eq_ok_of_ofField h⟩
  · rename_i hmissing
    exact .inl hmissing

theorem eq_string_of_text {v : Value} {s : String} (h : text v = .ok s) : v = .string s := by
  cases v with
  | string s' => rw [Except.ok.inj h]
  | _ => exact nomatch h

theorem eq_string_of_expression {v : Value} {e : { s : String // Text.isBlankText s = false }}
    (h : Record.expression v = .ok e) : v = .string e.1 := by
  rw [Record.expression] at h
  split at h
  · cases h
  · rename_i s hs
    split at h
    · rw [eq_string_of_text hs, ← Except.ok.inj h]
    · cases h

end Record

/-! ## Requests -/

namespace Request

/-- A line names an expression: it is an object in JSON, one that is not too much for the reader,
with this text for its expression, not a blank one, and with a text or nothing for its function. -/
def Names (line e : String) : Prop :=
  ∃ members, Says .reader 200 line.toList (.object members) ∧
    lastNamed? "expression".toList members = some (.string (unitsOf e.toList)) ∧
    Text.isBlankText e = false ∧
    (lastNamed? "function".toList members = none ∨
      ∃ f : String, lastNamed? "function".toList members = some (.string (unitsOf f.toList)))

-- The fields of a request that members make, before the numbers among them are changed.
theorem exists_of_ofMembers {members : List (String × Value)} {r : Request}
    (h : ofMembers (members.map fun m => (m.1, m.2.saturate)) = .ok r) :
    Value.lookup? "expression" members = some (.string r.expression) ∧
      (Value.lookup? "function" members = none ∨
        ∃ f, Value.lookup? "function" members = some (.string f)) := by
  rcases Checked.eq_ok_of_apply h with ⟨make, function, hmake, hfunction, rfl⟩
  constructor
  · cases hexpression : required (members.map fun m => (m.1, m.2.saturate)) "expression"
        Record.expression with
    | error faults =>
      rw [hexpression] at hmake
      exact nomatch hmake
    | ok e =>
      rw [hexpression] at hmake
      cases hmake
      rcases exists_of_required hexpression with ⟨v, hfound, hread⟩
      rw [eq_string_of_expression hread] at hfound
      exact Value.lookup?_saturate.mp hfound
  · rcases exists_of_withDefault hfunction with hmissing | ⟨v, hfound, hread⟩
    · rw [Value.lookup?_map, Option.map_eq_none_iff] at hmissing
      exact .inl hmissing
    · rw [eq_string_of_text hread] at hfound
      exact .inr ⟨function, Value.lookup?_saturate.mp hfound⟩

/-- A line that is a request names its expression. -/
theorem names_of_ofText {line : String} {r : Request} (h : ofText line = .ok r) :
    Names line r.expression := by
  rw [ofText, recordOfText] at h
  split at h
  · rename_i v hparse
    cases v with
    | object members =>
      rcases exists_of_ofMembers h with ⟨hexpression, hfunction⟩
      refine ⟨memberData members, exists_read?_iff.mp ⟨_, hparse, rfl⟩,
        lastNamed?_memberData_eq_string.mpr hexpression, r.notBlank, ?_⟩
      rcases hfunction with hmissing | ⟨f, hfound⟩
      · rw [lastNamed?_memberData, hmissing, Option.map_none]
        exact .inl rfl
      · exact .inr ⟨f, lastNamed?_memberData_eq_string.mpr hfound⟩
    | _ => exact nomatch h
  · exact nomatch h

/-- A line that names an expression is a request for it. -/
theorem exists_ofText_of_names {line e : String} (h : Names line e) :
    ∃ r, ofText line = .ok r ∧ r.expression = e := by
  rcases h with ⟨ms, hsays, hexpression, hcontent, hfunction⟩
  rcases exists_read?_iff.mpr hsays with ⟨v, hread, hv⟩
  rcases Value.datum_eq_object.mp hv with ⟨members, rfl, rfl⟩
  have hparse : parse? line = some (.object members) := hread
  rw [lastNamed?_memberData_eq_string] at hexpression
  have hfirst := required_eq_ok (Value.lookup?_saturate.mpr hexpression)
    (expression_eq_ok hcontent)
  have hsecond : ∃ f, withDefault (members.map fun m => (m.1, m.2.saturate)) "function"
      defaultFunction text = .ok f := by
    rcases hfunction with hmissing | ⟨f, hfound⟩
    · rw [lastNamed?_memberData, Option.map_eq_none_iff] at hmissing
      refine ⟨defaultFunction, ?_⟩
      rw [withDefault, Value.lookup?_map, hmissing]
      rfl
    · rw [lastNamed?_memberData_eq_string] at hfound
      exact ⟨f, withDefault_eq_ok (Value.lookup?_saturate.mpr hfound) rfl⟩
  rcases hsecond with ⟨f, hsecond⟩
  refine ⟨⟨e, f, hcontent⟩, ?_, rfl⟩
  rw [ofText, recordOfText, hparse]
  show ofMembers _ = _
  simp only [ofMembers]
  rw [hfirst, hsecond]
  rfl

end Request

end Reckoner
