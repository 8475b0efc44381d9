import Mathlib.Data.List.Nodup
import Mathlib.Data.List.Perm.Basic
import Mathlib.Logic.Function.Basic
import Mathlib.Tactic.Common

/-!
# An index with aliases

Entries are put into an index one after the other. Each takes its own key, whatever stood there, and
each of its aliases that nothing has taken yet. What an alias leads to is then a matter of who came
first, unless some entry has it for its own key (`index_apply`).

The order does not matter where the entries that share an alias, one that is nobody's key, have the
same value (`index_perm_of_agree`). Anywhere else the entry in front decides (`index_cons_apply`).
Whatever the order, a key leads to its own entry (`index_key`) and every name to one of the entries that
asked for it (`exists_of_index`).
-/

set_option autoImplicit false

namespace Keplor.Lib

structure Aliased (κ ν : Type) where
  key : κ
  aliases : List κ
  value : ν
  deriving DecidableEq

variable {κ ν : Type} [DecidableEq κ]

/-- `or_insert`: a key that is taken keeps its value. -/
def orInsert (m : κ → Option ν) (k : κ) (v : ν) : κ → Option ν :=
  if (m k).isSome then m else Function.update m k (some v)

/-- Put an entry in: under its key, and under the aliases that are free. -/
def indexOne (m : κ → Option ν) (e : Aliased κ ν) : κ → Option ν :=
  e.aliases.foldl (fun m a => orInsert m a e.value) (Function.update m e.key (some e.value))

/-- The index of a list of entries, put in from left to right. -/
def index (es : List (Aliased κ ν)) : κ → Option ν := es.foldl indexOne fun _ => none

/-- Entries that share an alias have one value, unless the alias is somebody's key. -/
def AliasesAgree (es : List (Aliased κ ν)) : Prop :=
  ∀ k, (∀ e ∈ es, e.key ≠ k) →
    ∀ e ∈ es, ∀ e' ∈ es, k ∈ e.aliases → k ∈ e'.aliases → e.value = e'.value

theorem orInsert_apply (m : κ → Option ν) (a k : κ) (v : ν) :
    orInsert m a v k = (m k).or (if k = a then some v else none) := by
  unfold orInsert
  by_cases hk : k = a
  · subst hk
    cases hm : m k with
    | none => simp
    | some w => simp [hm]
  · split <;> simp [hk]

theorem foldl_orInsert_apply (aliases : List κ) (m : κ → Option ν) (v : ν) (k : κ) :
    aliases.foldl (fun m a => orInsert m a v) m k = (m k).or (if k ∈ aliases then some v else none) := by
  induction aliases generalizing m with
  | nil => simp
  | cons a aliases ih =>
    rw [List.foldl_cons, ih, orInsert_apply, Option.or_assoc]
    by_cases hk : k = a
    · simp [hk]
    · simp [hk]

theorem indexOne_apply (m : κ → Option ν) (e : Aliased κ ν) (k : κ) :
    indexOne m e k = if k = e.key then some e.value
      else (m k).or (if k ∈ e.aliases then some e.value else none) := by
  rw [indexOne, foldl_orInsert_apply]
  by_cases hk : k = e.key
  · simp [hk]
  · simp [hk]

/-- The value of the entry with this key. -/
def ownValue (es : List (Aliased κ ν)) (k : κ) : Option ν := (es.find? fun e => e.key = k).map Aliased.value

/-- The value of the first entry with this alias. -/
def firstValue (es : List (Aliased κ ν)) (k : κ) : Option ν :=
  (es.find? fun e => k ∈ e.aliases).map Aliased.value

variable {es : List (Aliased κ ν)} {k : κ}

theorem ownValue_eq_none : ownValue es k = none ↔ ∀ e ∈ es, e.key ≠ k := by
  simp [ownValue]

theorem foldl_indexOne_apply (hnodup : (es.map Aliased.key).Nodup) (m : κ → Option ν) (k : κ) :
    es.foldl indexOne m k = (ownValue es k).or ((m k).or (firstValue es k)) := by
  induction es generalizing m with
  | nil => simp [ownValue, firstValue]
  | cons e es ih =>
    rw [List.map_cons, List.nodup_cons] at hnodup
    rw [List.foldl_cons, ih hnodup.2, indexOne_apply]
    by_cases hk : k = e.key
    · -- nobody behind it has the key, so the entry keeps it
      subst hk
      have hnone : ownValue es e.key = none := by
        apply ownValue_eq_none.mpr
        intro e' he' heq
        exact hnodup.1 (heq ▸ List.mem_map_of_mem he')
      have hown : ownValue (e :: es) e.key = some e.value := by simp [ownValue]
      rw [hnone, hown, if_pos rfl]
      simp
    · have hown : ownValue (e :: es) k = ownValue es k := by
        simp [ownValue, Ne.symm hk]
      rw [if_neg hk, hown, Option.or_assoc]
      congr 2
      by_cases hmem : k ∈ e.aliases
      · simp [firstValue, hmem]
      · simp [firstValue, hmem]

/-- A key leads to its own entry, and any other name to the first entry with that alias. -/
theorem index_apply (hnodup : (es.map Aliased.key).Nodup) (k : κ) :
    index es k = (ownValue es k).or (firstValue es k) := by
  rw [index, foldl_indexOne_apply hnodup, Option.none_or]

/-- An entry in front decides what its free aliases lead to. -/
theorem index_cons_apply {e : Aliased κ ν} (hnodup : ((e :: es).map Aliased.key).Nodup)
    (hfree : ∀ e' ∈ e :: es, e'.key ≠ k) (hk : k ∈ e.aliases) : index (e :: es) k = some e.value := by
  rw [index_apply hnodup, ownValue_eq_none.mpr hfree, Option.none_or]
  simp [firstValue, hk]

theorem ownValue_eq_some (hnodup : (es.map Aliased.key).Nodup) {v : ν} :
    ownValue es k = some v ↔ ∃ e ∈ es, e.key = k ∧ e.value = v := by
  unfold ownValue
  constructor
  · intro h
    obtain ⟨e, hfind, hv⟩ := Option.map_eq_some_iff.mp h
    exact ⟨e, List.mem_of_find?_eq_some hfind, by simpa using List.find?_some hfind, hv⟩
  · rintro ⟨e, he, rfl, rfl⟩
    cases hfind : es.find? fun e' => e'.key = e.key with
    | none =>
      have hnone : ∀ e' ∈ es, e'.key ≠ e.key := by simpa using hfind
      exact absurd rfl (hnone e he)
    | some e' =>
      have hkey : e'.key = e.key := by simpa using List.find?_some hfind
      rw [List.inj_on_of_nodup_map hnodup (List.mem_of_find?_eq_some hfind) he hkey]
      rfl

theorem exists_of_firstValue {v : ν} (h : firstValue es k = some v) :
    ∃ e ∈ es, k ∈ e.aliases ∧ e.value = v := by
  obtain ⟨e, hfind, hv⟩ := Option.map_eq_some_iff.mp h
  exact ⟨e, List.mem_of_find?_eq_some hfind, by simpa using List.find?_some hfind, hv⟩

theorem exists_firstValue {e : Aliased κ ν} (he : e ∈ es) (hk : k ∈ e.aliases) :
    ∃ v, firstValue es k = some v := by
  cases hfind : es.find? fun e => k ∈ e.aliases with
  | none =>
    have hnone : ∀ e ∈ es, k ∉ e.aliases := by simpa using hfind
    exact absurd hk (hnone e he)
  | some e' => exact ⟨e'.value, by rw [firstValue, hfind, Option.map_some]⟩

theorem firstValue_eq_some (hagree : AliasesAgree es) (hfree : ∀ e ∈ es, e.key ≠ k) {v : ν} :
    firstValue es k = some v ↔ ∃ e ∈ es, k ∈ e.aliases ∧ e.value = v := by
  constructor
  · exact exists_of_firstValue
  · rintro ⟨e, he, hk, rfl⟩
    obtain ⟨v, hv⟩ := exists_firstValue he hk
    obtain ⟨e', he', hk', rfl⟩ := exists_of_firstValue hv
    rw [hv, hagree k hfree e' he' e he hk' hk]

/-! ## What the index holds -/

section Contents

variable (hnodup : (es.map Aliased.key).Nodup)

include hnodup

/-- A key leads to its own entry. -/
theorem index_key {e : Aliased κ ν} (he : e ∈ es) : index es e.key = some e.value := by
  rw [index_apply hnodup, (ownValue_eq_some hnodup).mpr ⟨e, he, rfl, rfl⟩, Option.some_or]

/-- A name that an entry asks for leads somewhere. -/
theorem exists_index {e : Aliased κ ν} (he : e ∈ es) (hk : k = e.key ∨ k ∈ e.aliases) :
    ∃ v, index es k = some v := by
  rcases hk with rfl | hk
  · exact ⟨e.value, index_key hnodup he⟩
  · obtain ⟨v, hv⟩ := exists_firstValue he hk
    rw [index_apply hnodup, hv]
    cases ownValue es k with
    | none => exact ⟨v, rfl⟩
    | some w => exact ⟨w, rfl⟩

/-- Everything in the index is the value of an entry, under its key or one of its aliases. -/
theorem exists_of_index {v : ν} (h : index es k = some v) :
    ∃ e ∈ es, e.value = v ∧ (k = e.key ∨ k ∈ e.aliases) := by
  rw [index_apply hnodup] at h
  cases hown : ownValue es k with
  | some w =>
    rw [hown, Option.some_or] at h
    obtain ⟨e, he, hkey, hv⟩ := (ownValue_eq_some hnodup).mp hown
    exact ⟨e, he, hv.trans (Option.some.inj h), .inl hkey.symm⟩
  | none =>
    rw [hown, Option.none_or] at h
    obtain ⟨e, he, hk, hv⟩ := exists_of_firstValue h
    exact ⟨e, he, hv, .inr hk⟩

end Contents

/-! ## The order of the entries -/

omit [DecidableEq κ] in
theorem AliasesAgree.perm {es' : List (Aliased κ ν)} (hagree : AliasesAgree es) (h : es'.Perm es) :
    AliasesAgree es' := by
  intro k hfree e he e' he'
  exact hagree k (fun e he => hfree e (h.mem_iff.mpr he)) e (h.mem_iff.mp he) e' (h.mem_iff.mp he')

/-- Where the aliases agree, the order of the entries does not matter. -/
theorem index_perm_of_agree {es' : List (Aliased κ ν)} (hnodup : (es.map Aliased.key).Nodup)
    (hagree : AliasesAgree es) (h : es'.Perm es) : index es' = index es := by
  have hnodup' : (es'.map Aliased.key).Nodup := (h.map _).nodup_iff.mpr hnodup
  have hown : ∀ k, ownValue es' k = ownValue es k := by
    intro k
    ext v
    rw [ownValue_eq_some hnodup', ownValue_eq_some hnodup]
    simp only [h.mem_iff]
  funext k
  rw [index_apply hnodup', index_apply hnodup, hown]
  cases hk : ownValue es k with
  | some v => rfl
  | none =>
    have hfree := ownValue_eq_none.mp hk
    have hfree' : ∀ e ∈ es', e.key ≠ k := fun e he => hfree e (h.mem_iff.mp he)
    rw [Option.none_or, Option.none_or]
    ext v
    rw [firstValue_eq_some (hagree.perm h) hfree', firstValue_eq_some hagree hfree]
    simp only [h.mem_iff]

end Keplor.Lib
