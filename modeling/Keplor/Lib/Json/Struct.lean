import Keplor.Lib.Json.Record

/-!
# Records with declared fields

What a derived deserializer does before it looks at single fields: it takes a record from an object,
by name, or from an array, by position, and an array may end early only where the fields that are left
have defaults. Which keys of an object it does not know is a question of their own: a record either
refuses them or skips them, and then nothing of the record depends on them.
-/

set_option autoImplicit false

namespace Keplor.Lib.Json

/-- A field of a record, and whether a default stands in for it at the end of an array. -/
structure FieldDecl where
  name : String
  hasDefault : Bool

/-- A list of fields, all with a default or all without. -/
def fieldsWith (hasDefault : Bool) (names : List String) : List FieldDecl :=
  names.map fun name => ⟨name, hasDefault⟩

/-- The members of a record, under the names of its fields. -/
def structMembers (fields : List FieldDecl) : Json → Option (List (String × Json))
  | .obj ms => some ms
  | .arr xs =>
    if xs.length ≤ fields.length ∧ (fields.drop xs.length).all FieldDecl.hasDefault then
      some ((fields.map FieldDecl.name).zip xs)
    else none
  | _ => none

/-- The keys of a tree that is an object. -/
def objectKeys : Json → List String
  | .obj ms => ms.map Prod.fst
  | _ => []

/-- Every key is a field. -/
def Declared (fields : List FieldDecl) (j : Json) : Prop :=
  ∀ k ∈ objectKeys j, k ∈ fields.map FieldDecl.name

instance (fields : List FieldDecl) (j : Json) : Decidable (Declared fields j) :=
  inferInstanceAs (Decidable (∀ k ∈ objectKeys j, k ∈ fields.map FieldDecl.name))

/-- Read `true` or `false`. -/
def toBool : Json → Option Bool
  | .bool b => some b
  | _ => none

/-- Read a list. -/
def toList {α : Type} (d : Json → Option α) : Json → Option (List α)
  | .arr xs => xs.mapM d
  | _ => none

section

variable {fields : List FieldDecl} {ms : List (String × Json)} {j v : Json} {k : String}

/-- In a record all of whose keys are fields, every member is under the name of one. -/
theorem Declared.mem_fields (h : Declared fields j) (hms : structMembers fields j = some ms)
    (hk : (k, v) ∈ ms) : k ∈ fields.map FieldDecl.name := by
  unfold structMembers at hms
  split at hms
  · cases hms
    exact h k (List.mem_map_of_mem hk)
  · split at hms
    · cases hms
      exact (List.of_mem_zip hk).1
    · cases hms
  · cases hms

/-- A field that was read is there once. -/
theorem field_eq_of_mem {o : Option Json} (h : field ms k = some o) (hk : (k, v) ∈ ms) :
    o = some v := by
  have hmem : (k, v) ∈ ms.filter fun m => m.1 == k := List.mem_filter.mpr ⟨hk, by simp⟩
  unfold field at h
  split at h
  · rename_i hnil
    rw [hnil] at hmem
    cases hmem
  · rename_i m hone
    rw [hone, List.mem_singleton] at hmem
    rw [← Option.some.inj h, ← hmem]
  · cases h

variable {α : Type} {d : Json → Option α} {a x : α}

theorem defaulted_of_mem (h : defaulted d ms k a = some x) (hk : (k, v) ∈ ms) : d v = some x := by
  unfold defaulted at h
  split at h
  · rename_i w hw
    rwa [Option.some.inj (field_eq_of_mem hw hk)] at h
  · rename_i hnone
    cases field_eq_of_mem hnone hk
  · cases h

theorem required_eq_some (h : required d ms k = some x) :
    ∃ w, ms.filter (fun m => m.1 == k) = [(k, w)] ∧ d w = some x := by
  unfold required at h
  split at h
  · rename_i w hw
    unfold field at hw
    split at hw
    · cases hw
    · rename_i m hone
      have hkey : m.1 = k := by
        have hm : m ∈ ms.filter fun m => m.1 == k := by rw [hone]; exact List.mem_singleton.mpr rfl
        simpa using (List.mem_filter.mp hm).2
      cases hw
      exact ⟨m.2, by rw [hone, ← hkey], h⟩
    · cases hw
  · cases h

end

end Keplor.Lib.Json
