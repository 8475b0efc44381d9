import Keplor.Lib.Grouping
import Mathlib.Algebra.BigOperators.Group.List.Basic
import Mathlib.Algebra.Order.Ring.Nat
import Mathlib.Data.List.Dedup
import Mathlib.Data.List.Induction
import Mathlib.Data.List.Nodup
import Mathlib.Data.List.Perm.Lattice

/-!
# Folding rows into a hash map

`accumulate` is `entry(k).or_default()` followed by an update in place, and `aggregate` does it for
row after row. What a key holds in the end is the fold over its own rows (`lookup_aggregate`), so
where the order of two rows does not matter to the fold, the order of all rows does not matter to the
map (`aggregate_perm`).

Where the fold is a sum, the entries together come to what the rows come to (`sum_of_groups`).

What does vary is the order the entries come out in. It is whatever an `IterOrder` makes of it, and
two maps of the same content, or one map built twice, have nothing to do with each other there.
-/

set_option autoImplicit false

namespace Keplor.Lib

/-- An order a hash map is iterated in. -/
structure IterOrder (α : Type) where
  arrange : List α → List α
  perm : ∀ xs, (arrange xs).Perm xs

/-- The order of insertion, which is as good as any. -/
def IterOrder.asInserted (α : Type) : IterOrder α := ⟨id, fun _ => .refl _⟩

open Classical in
/-- Any arrangement of one content can come up. -/
noncomputable def IterOrder.showing {α : Type} {xs ys : List α} (h : ys.Perm xs) : IterOrder α where
  arrange := fun l => if l = xs then ys else l
  perm := fun l => by
    split
    · rename_i hl
      rwa [hl]
    · rfl

@[simp] theorem IterOrder.arrange_showing {α : Type} {xs ys : List α} (h : ys.Perm xs) :
    (IterOrder.showing h).arrange xs = ys := by
  simp [IterOrder.showing]

variable {κ ρ β : Type} [DecidableEq κ]

/-- Update the value of a key in place; a new key starts from the default. -/
def accumulate (d : β) (k : κ) (f : β → β) : List (κ × β) → List (κ × β)
  | [] => [(k, f d)]
  | (l, b) :: m => if l = k then (l, f b) :: m else (l, b) :: accumulate d k f m

/-- Row after row into an empty map. -/
def aggregate (key : ρ → κ) (add : β → ρ → β) (d : β) (rows : List ρ) : List (κ × β) :=
  rows.foldl (fun m r => accumulate d (key r) (fun b => add b r) m) []

section Accumulate

variable {d : β} {k : κ} {f : β → β}

theorem mem_keys_accumulate {m : List (κ × β)} {l : κ} :
    l ∈ (accumulate d k f m).map Prod.fst ↔ l = k ∨ l ∈ m.map Prod.fst := by
  induction m with
  | nil => simp [accumulate]
  | cons p m ih =>
    obtain ⟨k', b⟩ := p
    unfold accumulate
    split
    · rename_i hk
      simp [hk]
    · simp only [List.map_cons, List.mem_cons, ih]
      exact or_left_comm

theorem nodup_keys_accumulate {m : List (κ × β)} (h : (m.map Prod.fst).Nodup) :
    ((accumulate d k f m).map Prod.fst).Nodup := by
  induction m with
  | nil => simp [accumulate]
  | cons p m ih =>
    obtain ⟨k', b⟩ := p
    simp only [List.map_cons, List.nodup_cons] at h
    unfold accumulate
    split
    · simpa using h
    · rename_i hk
      rw [List.map_cons, List.nodup_cons, mem_keys_accumulate]
      refine ⟨?_, ih h.2⟩
      rintro (rfl | hm)
      · exact hk rfl
      · exact h.1 hm

theorem lookup_accumulate (m : List (κ × β)) (l : κ) :
    (accumulate d k f m).lookup l = if l = k then some (f ((m.lookup k).getD d)) else m.lookup l := by
  induction m with
  | nil =>
    by_cases hl : l = k
    · simp [accumulate, hl]
    · simp [accumulate, hl]
  | cons p m ih =>
    obtain ⟨k', b⟩ := p
    unfold accumulate
    by_cases hk : k' = k
    · subst hk
      by_cases hl : l = k'
      · subst hl
        simp
      · simp [hl, List.lookup_cons, beq_false_of_ne hl]
    · have hkk : (k == k') = false := beq_false_of_ne (Ne.symm hk)
      rw [if_neg hk, List.lookup_cons, List.lookup_cons, List.lookup_cons, ih, hkk]
      by_cases hl : l = k'
      · subst hl
        simp [hk]
      · simp [beq_false_of_ne hl]

end Accumulate

section Aggregate

variable {key : ρ → κ} {add : β → ρ → β} {d : β}

theorem aggregate_append (rows : List ρ) (r : ρ) :
    aggregate key add d (rows ++ [r]) =
      accumulate d (key r) (fun b => add b r) (aggregate key add d rows) := by
  unfold aggregate
  simp

theorem nodup_keys_aggregate (rows : List ρ) : ((aggregate key add d rows).map Prod.fst).Nodup := by
  induction rows using List.reverseRecOn with
  | nil => simp [aggregate]
  | append_singleton rows r ih =>
    rw [aggregate_append]
    exact nodup_keys_accumulate ih

theorem mem_keys_aggregate {rows : List ρ} {k : κ} :
    k ∈ (aggregate key add d rows).map Prod.fst ↔ k ∈ rows.map key := by
  induction rows using List.reverseRecOn with
  | nil => simp [aggregate]
  | append_singleton rows r ih =>
    rw [aggregate_append, mem_keys_accumulate, ih]
    simp [or_comm]

/-- The keys are those of the rows, each once. -/
theorem keys_aggregate_perm (rows : List ρ) :
    ((aggregate key add d rows).map Prod.fst).Perm (rows.map key).dedup := by
  apply (List.perm_ext_iff_of_nodup (nodup_keys_aggregate rows) (List.nodup_dedup _)).mpr
  intro k
  rw [mem_keys_aggregate, List.mem_dedup]

/-- What a key holds is the fold over its own rows. -/
theorem lookup_aggregate (rows : List ρ) (k : κ) :
    (aggregate key add d rows).lookup k = if k ∈ rows.map key
      then some ((rows.filter fun r => decide (key r = k)).foldl add d) else none := by
  induction rows using List.reverseRecOn with
  | nil => simp [aggregate]
  | append_singleton rows r ih =>
    have hsplit : k ∈ (rows ++ [r]).map key ↔ k ∈ rows.map key ∨ k = key r := by simp
    rw [aggregate_append, lookup_accumulate]
    by_cases hk : k = key r
    · subst hk
      rw [if_pos rfl, if_pos (hsplit.mpr (.inr rfl)), ih, List.filter_append, List.foldl_append]
      by_cases hmem : key r ∈ rows.map key
      · simp [hmem]
      · have hnone : (rows.filter fun r' => decide (key r' = key r)) = [] := by
          rw [List.filter_eq_nil_iff]
          intro r' hr'
          have hne : key r' ≠ key r := fun h => hmem (h ▸ List.mem_map_of_mem hr')
          simpa using hne
        simp [hmem, hnone]
    · have hne : key r ≠ k := Ne.symm hk
      rw [if_neg hk, ih, List.filter_append, List.filter_singleton]
      simp [hk, hne]

theorem mem_aggregate_iff {rows : List ρ} {k : κ} {b : β} :
    (k, b) ∈ aggregate key add d rows ↔
      k ∈ rows.map key ∧ b = (rows.filter fun r => decide (key r = k)).foldl add d := by
  have hlookup : (aggregate key add d rows).lookup k = _ := lookup_aggregate rows k
  constructor
  · intro h
    rw [lookup_of_mem (nodup_keys_aggregate rows) h] at hlookup
    split at hlookup
    · rename_i hk
      exact ⟨hk, Option.some.inj hlookup⟩
    · cases hlookup
  · rintro ⟨hk, rfl⟩
    rw [if_pos hk] at hlookup
    exact mem_of_lookup hlookup

theorem nodup_aggregate (rows : List ρ) : (aggregate key add d rows).Nodup :=
  (nodup_keys_aggregate rows).of_map

/-- Where any two rows can be exchanged, the map does not depend on the order of the rows. -/
theorem aggregate_perm {rows rows' : List ρ} (h : rows.Perm rows')
    (hcomm : ∀ x ∈ rows, ∀ y ∈ rows, ∀ b, add (add b x) y = add (add b y) x) :
    (aggregate key add d rows).Perm (aggregate key add d rows') := by
  apply (List.perm_ext_iff_of_nodup (nodup_aggregate rows) (nodup_aggregate rows')).mpr
  rintro ⟨k, b⟩
  have hfold : (rows.filter fun r => decide (key r = k)).foldl add d =
      (rows'.filter fun r => decide (key r = k)).foldl add d := by
    apply List.Perm.foldl_eq' (h.filter _)
    intro x hx y hy b
    exact hcomm x (List.mem_of_mem_filter hx) y (List.mem_of_mem_filter hy) b
  rw [mem_aggregate_iff, mem_aggregate_iff, (h.map key).mem_iff, hfold]

/-- Entries of some keys only are what the rows of these keys make. -/
theorem filter_aggregate (q : κ → Bool) (rows : List ρ) :
    ((aggregate key add d rows).filter fun p => q p.1).Perm
      (aggregate key add d (rows.filter fun r => q (key r))) := by
  apply (List.perm_ext_iff_of_nodup ((nodup_aggregate rows).filter _) (nodup_aggregate _)).mpr
  rintro ⟨k, b⟩
  rw [List.mem_filter, mem_aggregate_iff, mem_aggregate_iff]
  have hrows : q k = true → ((rows.filter fun r => q (key r)).filter fun r => decide (key r = k))
      = rows.filter fun r => decide (key r = k) := by
    intro hq
    rw [List.filter_filter]
    apply List.filter_congr
    intro r _
    by_cases hk : key r = k
    · simp [hk, hq]
    · simp [hk]
  constructor
  · rintro ⟨⟨hk, hb⟩, hq⟩
    obtain ⟨r, hr, rfl⟩ := List.mem_map.mp hk
    exact ⟨List.mem_map_of_mem (List.mem_filter.mpr ⟨hr, hq⟩), by rw [hrows hq]; exact hb⟩
  · rintro ⟨hk, hb⟩
    obtain ⟨r, hr, rfl⟩ := List.mem_map.mp hk
    obtain ⟨hr, hq⟩ := List.mem_filter.mp hr
    rw [hrows hq] at hb
    exact ⟨⟨List.mem_map_of_mem hr, hb⟩, hq⟩

end Aggregate

/-! ## Sums -/

section Sums

variable {M : Type} [AddCommMonoid M]

theorem sum_accumulate (k : κ) (x : M) (m : List (κ × M)) :
    ((accumulate 0 k (fun b => b + x) m).map Prod.snd).sum = (m.map Prod.snd).sum + x := by
  induction m with
  | nil => simp [accumulate]
  | cons p m ih =>
    obtain ⟨l, b⟩ := p
    unfold accumulate
    split
    · simp only [List.map_cons, List.sum_cons]
      exact add_right_comm _ _ _
    · simp only [List.map_cons, List.sum_cons, ih, add_assoc]

theorem sum_aggregate (key : ρ → κ) (w : ρ → M) (rows : List ρ) :
    ((aggregate key (fun b r => b + w r) 0 rows).map Prod.snd).sum = (rows.map w).sum := by
  induction rows using List.reverseRecOn with
  | nil => rfl
  | append_singleton rows r ih =>
    rw [aggregate_append, sum_accumulate, ih, List.map_append, List.sum_append, List.map_singleton,
      List.sum_singleton]

theorem foldl_add_eq_sum (w : ρ → M) (rows : List ρ) (x : M) :
    rows.foldl (fun b r => b + w r) x = x + (rows.map w).sum := by
  induction rows generalizing x with
  | nil => simp
  | cons r rows ih => rw [List.foldl_cons, ih, List.map_cons, List.sum_cons, add_assoc]

/-- What the rows of each key come to, over all keys, is what all rows come to. -/
theorem sum_of_groups (key : ρ → κ) (add : β → ρ → β) (d : β) (w : ρ → M) (rows : List ρ) :
    ((aggregate key add d rows).map fun p =>
      ((rows.filter fun r => decide (key r = p.1)).map w).sum).sum = (rows.map w).sum := by
  let ofKey (k : κ) : M := ((rows.filter fun r => decide (key r = k)).map w).sum
  have hkeys : ((aggregate key add d rows).map Prod.fst).Perm
      ((aggregate key (fun b r => b + w r) (0 : M) rows).map Prod.fst) :=
    (keys_aggregate_perm rows).trans (keys_aggregate_perm rows).symm
  calc ((aggregate key add d rows).map fun p => ofKey p.1).sum
      = (((aggregate key add d rows).map Prod.fst).map ofKey).sum := by rw [List.map_map]; rfl
    _ = (((aggregate key (fun b r => b + w r) 0 rows).map Prod.fst).map ofKey).sum :=
      (hkeys.map ofKey).sum_eq
    _ = ((aggregate key (fun b r => b + w r) 0 rows).map Prod.snd).sum := by
      rw [List.map_map]
      congr 1
      apply List.map_congr_left
      rintro ⟨k, x⟩ hp
      obtain ⟨-, rfl⟩ := mem_aggregate_iff.mp hp
      rw [foldl_add_eq_sum, zero_add]
      rfl
    _ = (rows.map w).sum := sum_aggregate key w rows

end Sums

/-! ## A map in the order of its keys -/

section Sorted

variable {κ β : Type} [DecidableEq κ] [LT κ] [DecidableLT κ]

/-- Update the value of a key in place; a new key starts from the default, at its place among the
keys. -/
def upsert (d : β) (k : κ) (f : β → β) : List (κ × β) → List (κ × β)
  | [] => [(k, f d)]
  | (l, b) :: m =>
      if k = l then (l, f b) :: m
      else if k < l then (k, f d) :: (l, b) :: m
      else (l, b) :: upsert d k f m

/-- An update that adds to one value adds to the sum, as long as it adds exactly while the sum stays
within a bound. -/
theorem sum_upsert (weight : β → Nat) (bound : Nat) {d : β} {k : κ} {f : β → β} {w : Nat}
    (hd : weight d = 0) (hf : ∀ b, weight b + w ≤ bound → weight (f b) = weight b + w)
    {m : List (κ × β)} (hm : (m.map fun p => weight p.2).sum + w ≤ bound) :
    ((upsert d k f m).map fun p => weight p.2).sum = (m.map fun p => weight p.2).sum + w := by
  have hnew : weight (f d) = w := by
    rw [hf d (by omega), hd, Nat.zero_add]
  induction m with
  | nil => simp [upsert, hnew]
  | cons p m ih =>
    obtain ⟨l, b⟩ := p
    simp only [List.map_cons, List.sum_cons] at hm ⊢
    rw [upsert]
    split
    · simp only [List.map_cons, List.sum_cons, hf b (by omega)]
      omega
    · split
      · simp only [List.map_cons, List.sum_cons, hnew]
        omega
      · simp only [List.map_cons, List.sum_cons, ih (by omega)]
        omega

end Sorted

end Keplor.Lib
