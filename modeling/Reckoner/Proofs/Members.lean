import Reckoner.Outcome

/-!
# Members — requests and outcomes from their members

A request and an outcome are read back from their members unchanged. For an outcome other members may
stand before its own, as the last one of a name counts.
-/

namespace Reckoner

open Record

/-! ## Fields -/

theorem Json.Value.lookup?_append {name : String} {members : List (String × Json.Value)}
    {v : Json.Value} (extra : List (String × Json.Value)) (h : lookup? name members = some v) :
    lookup? name (extra ++ members) = some v := by
  unfold lookup? at h ⊢
  obtain ⟨m, hfound, hvalue⟩ := Option.map_eq_some_iff.mp h
  rw [List.reverse_append, List.find?_append, hfound, ← hvalue]
  rfl

namespace Record

variable {α : Type} {read : Json.Value → Except Cause α} {name : String}
  {members : List (String × Json.Value)} {v : Json.Value} {a absent : α}

theorem required_eq_ok (hfound : Json.Value.lookup? name members = some v)
    (hread : read v = .ok a) : required members name read = .ok a := by
  simp only [required, hfound, hread, Checked.ofField]

theorem withDefault_eq_ok (hfound : Json.Value.lookup? name members = some v)
    (hread : read v = .ok a) : withDefault members name absent read = .ok a := by
  simp only [withDefault, hfound, hread, Checked.ofField]

end Record

/-! ## Requests -/

namespace Request

/-- The members of a request. -/
def members (r : Request) : List (String × Json.Value) :=
  [("expression", .string r.expression), ("function", .string r.function)]

theorem expression_eq_ok {s : String} (h : Text.isBlankText s = false) :
    Record.expression (.string s) = .ok ⟨s, h⟩ := by
  simp only [Record.expression, text]
  exact dif_pos h

theorem ofMembers_members (r : Request) : ofMembers r.members = .ok r := by
  have hexpression : required r.members "expression" Record.expression =
      .ok ⟨r.expression, r.notBlank⟩ :=
    required_eq_ok rfl (expression_eq_ok r.notBlank)
  have hfunction : withDefault r.members "function" defaultFunction text = .ok r.function :=
    withDefault_eq_ok rfl rfl
  simp only [ofMembers]
  rw [hexpression, hfunction]
  rfl

-- An expression that is not blank makes a request for any function.
theorem bare_eq_ok {s : String} (h : Text.isBlankText s = false) (function : String) :
    bare s (.string function) = .ok ⟨s, function, h⟩ :=
  ofMembers_members ⟨s, function, h⟩

end Request

/-! ## Outcomes -/

namespace Outcome

theorem optional_double (result : Option Float) :
    optional double (.ofDouble? result) = .ok result := by
  cases result <;> rfl

theorem optional_text (error : Option String) :
    optional text (.ofText? error) = .ok error := by
  cases error <;> rfl

-- The members of an outcome are read back, and none of those before them counts.
theorem ofMembers_append (o : Outcome) (extra : List (String × Json.Value)) :
    ofMembers (extra ++ o.members) = .ok o := by
  have hexpression : required (extra ++ o.members) "expression" text = .ok o.expression :=
    required_eq_ok (Json.Value.lookup?_append extra rfl) rfl
  have hresult : withDefault (extra ++ o.members) "result" none (optional double) = .ok o.result :=
    withDefault_eq_ok (Json.Value.lookup?_append extra rfl) (optional_double o.result)
  have herror : withDefault (extra ++ o.members) "error" none (optional text) = .ok o.error :=
    withDefault_eq_ok (Json.Value.lookup?_append extra rfl) (optional_text o.error)
  have hrejected : withDefault (extra ++ o.members) "rejected" false flag = .ok o.rejected :=
    withDefault_eq_ok (Json.Value.lookup?_append extra rfl) rfl
  simp only [ofMembers]
  rw [hexpression, hresult, herror, hrejected]
  rfl

end Outcome

end Reckoner
