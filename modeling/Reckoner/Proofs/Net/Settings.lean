import Mathlib.Data.List.Induction
import Mathlib.Tactic.SplitIfs
import Reckoner.Net.Settings

/-!
# Settings — what a change leaves as it is

A change is refused if its name is neither that of a field nor private, and it touches the field
that it names and no other. So after any attempts a field of a server has the last value that it was
given, and a client is as it was built.
-/

namespace Reckoner.Net

open Json

namespace Settings

variable {s t : Settings} {name : String} {v : Value}

/-- The value of the field of a name. -/
def get? (s : Settings) (name : String) : Option Value :=
  if name = "host" then some s.host
  else if name = "port" then some s.port
  else if name = "function" then some s.function
  else none

theorem set_eq_error_iff {refusal : Refusal} :
    s.set name v = .error refusal ↔
      s.get? name = none ∧ isPrivateName name = false ∧ refusal = .unknownField name := by
  rw [set, get?]
  split_ifs with hhost hport hfunction hprivate
  · simp
  · simp
  · simp
  · simp [hprivate]
  · simp [hprivate, eq_comm]

/-- A change gives its value to the field that it names, if there is one. -/
theorem get?_of_set (h : s.set name v = .ok t) (other : String) :
    t.get? other = if other = name then (s.get? other).map fun _ => v else s.get? other := by
  rw [set] at h
  split_ifs at h with hhost hport hfunction hprivate
  · cases h
    subst hhost
    by_cases hother : other = "host" <;> simp [get?, hother]
  · cases h
    subst hport
    by_cases hother : other = "port" <;> simp [get?, hother]
  · cases h
    subst hfunction
    by_cases hother : other = "function" <;> simp [get?, hother]
  · cases h
    split_ifs with hother
    · rw [hother, get?, if_neg hhost, if_neg hport, if_neg hfunction]
      rfl
    · rfl

theorem afterChange_of_error {refusal : Refusal} (h : s.set name v = .error refusal) :
    s.afterChange (name, v) = s := by
  rw [afterChange, h]
  rfl

-- A refused change names no field, so it can be taken for one as well.
theorem get?_afterChange (s : Settings) (name : String) (v : Value) (other : String) :
    (s.afterChange (name, v)).get? other =
      if other = name then (s.get? other).map fun _ => v else s.get? other := by
  cases hset : s.set name v with
  | ok t =>
    rw [afterChange, hset]
    exact get?_of_set hset other
  | error refusal =>
    rw [afterChange_of_error hset]
    split_ifs with hother
    · rw [hother, (set_eq_error_iff.mp hset).1]
      rfl
    · rfl

/-- After any attempts a field has the last value that it was given, or the one from before. -/
theorem get?_afterChanges (s : Settings) (changes : List (String × Value)) (name : String) :
    (s.afterChanges changes).get? name =
      (s.get? name).map fun v => (changes.reverse.lookup name).getD v := by
  induction changes using List.reverseRecOn with
  | nil => exact Option.map_id'.symm
  | append_singleton changes change ih =>
    rcases change with ⟨changed, v⟩
    have hlast : s.afterChanges (changes ++ [(changed, v)]) =
        (s.afterChanges changes).afterChange (changed, v) := List.foldl_append
    rw [hlast, get?_afterChange, ih, List.reverse_concat, List.lookup_cons]
    by_cases hname : name = changed
    · rw [if_pos hname, beq_iff_eq.mpr hname, Option.map_map]
      rfl
    · rw [if_neg hname, beq_eq_false_iff_ne.mpr hname]

end Settings

namespace Endpoint

variable {e : Endpoint} {name : String}

theorem set_eq_error_iff {refusal : Refusal} :
    e.set name = .error refusal ↔ isPrivateName name = false ∧ refusal = .frozen name := by
  rw [set]
  split_ifs with hprivate
  · simp [hprivate]
  · simp [hprivate, eq_comm]

theorem eq_of_set {e' : Endpoint} (h : e.set name = .ok e') : e' = e := by
  rw [set] at h
  split_ifs at h
  cases h
  rfl

/-- No attempt changes a client. -/
theorem afterChanges_eq (e : Endpoint) (names : List String) : e.afterChanges names = e := by
  induction names with
  | nil => rfl
  | cons name names ih =>
    have hfirst : e.afterChange name = e := by
      rw [afterChange]
      cases hset : e.set name with
      | ok e' => exact eq_of_set hset
      | error refusal => rfl
    rw [afterChanges, List.foldl_cons, hfirst]
    exact ih

end Endpoint

end Reckoner.Net
