import Mathlib.Data.Finset.Card
import Mathlib.Data.List.Nodup
import Mathlib.Tactic.Common

/-!
# A least-recently-used cache

The entries stand most recent first, one for each key, and there are never more than the capacity. A
`get` moves the entry to the front, a `put` adds in front and drops what no longer fits at the back.

Which entries survive a `put` is the only hard question about such a cache. `HasRoom` answers it for
the `put`s that drop nothing. `UsedBefore` answers it for the others: it bounds the keys that stand
before an entry, and as long as they are fewer than the capacity the entry cannot be the one dropped.
-/

set_option autoImplicit false

namespace Keplor.Lib

structure Lru (κ ν : Type) where
  capacity : Nat
  pos : 0 < capacity
  entries : List (κ × ν)
  nodup : (entries.map Prod.fst).Nodup
  fits : entries.length ≤ capacity

namespace Lru

variable {κ ν : Type} [DecidableEq κ]

def new (capacity : Nat) (pos : 0 < capacity) : Lru κ ν :=
  ⟨capacity, pos, [], List.nodup_nil, Nat.zero_le _⟩

/-- The value of a key, leaving the order alone. -/
def peek (c : Lru κ ν) (k : κ) : Option ν := c.entries.lookup k

/-- The entries of the other keys. -/
def others (c : Lru κ ν) (k : κ) : List (κ × ν) := c.entries.filter fun p => p.1 ≠ k

theorem nodup_others (c : Lru κ ν) (k : κ) : ((c.others k).map Prod.fst).Nodup :=
  c.nodup.sublist (List.filter_sublist.map _)

theorem not_mem_others (c : Lru κ ν) (k : κ) : k ∉ (c.others k).map Prod.fst := by
  intro h
  obtain ⟨p, hp, rfl⟩ := List.mem_map.mp h
  simp [others] at hp

theorem nodup_cons_others (c : Lru κ ν) (k : κ) (v : ν) :
    (((k, v) :: c.others k).map Prod.fst).Nodup :=
  List.nodup_cons.mpr ⟨c.not_mem_others k, c.nodup_others k⟩

theorem length_others_lt {c : Lru κ ν} {k : κ} (h : (c.peek k).isSome) :
    (c.others k).length < c.entries.length := by
  apply List.length_filter_lt_length_iff_exists.mpr
  obtain ⟨v, hv⟩ := Option.isSome_iff_exists.mp h
  obtain ⟨l₁, l₂, hl, -⟩ := List.lookup_eq_some_iff.mp hv
  exact ⟨(k, v), by simp [hl], by simp⟩

/-- The key's entry in front, if there is one. -/
def get (c : Lru κ ν) (k : κ) : Option ν × Lru κ ν :=
  if h : (c.peek k).isSome then
    (c.peek k, { c with
      entries := (k, (c.peek k).get h) :: c.others k
      nodup := c.nodup_cons_others k _
      fits := Nat.le_trans (length_others_lt h) c.fits })
  else (none, c)

def put (c : Lru κ ν) (k : κ) (v : ν) : Lru κ ν where
  capacity := c.capacity
  pos := c.pos
  entries := ((k, v) :: c.others k).take c.capacity
  nodup := (c.nodup_cons_others k v).sublist ((List.take_sublist _ _).map _)
  fits := List.length_take_le _ _

def pop (c : Lru κ ν) (k : κ) : Lru κ ν where
  capacity := c.capacity
  pos := c.pos
  entries := c.others k
  nodup := c.nodup_others k
  fits := Nat.le_trans (List.length_filter_le _ _) c.fits

/-- A `put` of this key drops no entry. -/
def HasRoom (c : Lru κ ν) (k : κ) : Prop := c.entries.length < c.capacity ∨ (c.peek k).isSome

variable {c : Lru κ ν} {j k : κ} {v w : ν}

@[simp] theorem peek_new {n : Nat} (hn : 0 < n) (k : κ) : (new n hn : Lru κ ν).peek k = none := rfl

theorem lookup_others (c : Lru κ ν) (j k : κ) :
    (c.others k).lookup j = if j = k then none else c.peek j := by
  unfold others peek
  induction c.entries with
  | nil => simp
  | cons p l ih =>
    obtain ⟨i, u⟩ := p
    by_cases hi : i = k
    · subst hi
      rw [List.filter_cons_of_neg (by simp), ih, List.lookup_cons]
      split
      · rfl
      · rename_i hj
        rw [beq_false_of_ne hj]
    · rw [List.filter_cons_of_pos (by simpa using hi), List.lookup_cons, List.lookup_cons, ih]
      by_cases hj : j = i
      · subst hj
        simp [hi]
      · rw [beq_false_of_ne hj]

theorem lookup_cons_others (c : Lru κ ν) (j k : κ) (v : ν) :
    ((k, v) :: c.others k).lookup j = if j = k then some v else c.peek j := by
  rw [List.lookup_cons, lookup_others]
  by_cases hj : j = k
  · simp [hj]
  · rw [beq_false_of_ne hj, if_neg hj, if_neg hj]

@[simp] theorem peek_pop (c : Lru κ ν) (j k : κ) :
    (c.pop k).peek j = if j = k then none else c.peek j := c.lookup_others j k

theorem get_fst (c : Lru κ ν) (k : κ) : (c.get k).1 = c.peek k := by
  unfold get
  split
  · rfl
  · rename_i h
    rw [Option.not_isSome_iff_eq_none.mp h]

/-- A `get` changes the order only. -/
@[simp] theorem peek_get (c : Lru κ ν) (j k : κ) : (c.get k).2.peek j = c.peek j := by
  unfold get
  split
  · rename_i h
    apply (c.lookup_cons_others j k _).trans
    split
    · rename_i hj
      rw [hj, Option.some_get]
    · rfl
  · rfl

theorem HasRoom.put_entries (h : c.HasRoom k) (v : ν) :
    (c.put k v).entries = (k, v) :: c.others k := by
  apply List.take_of_length_le
  show (c.others k).length + 1 ≤ c.capacity
  rcases h with h | h
  · exact Nat.lt_of_le_of_lt (List.length_filter_le _ _) h
  · exact Nat.lt_of_lt_of_le (length_others_lt h) c.fits

theorem HasRoom.peek_put (h : c.HasRoom k) (j : κ) (v : ν) :
    (c.put k v).peek j = if j = k then some v else c.peek j := by
  unfold peek
  rw [h.put_entries]
  exact c.lookup_cons_others j k v

theorem peek_put_self (c : Lru κ ν) (k : κ) (v : ν) : (c.put k v).peek k = some v := by
  unfold peek put
  obtain ⟨n, hn⟩ := Nat.exists_eq_succ_of_ne_zero (Nat.ne_of_gt c.pos)
  simp [hn]

/-- Nothing is in the cache after a `put` but what was put and what was there. -/
theorem peek_put_cases (h : (c.put k v).peek j = some w) :
    (j = k ∧ w = v) ∨ (j ≠ k ∧ c.peek j = some w) := by
  have hall : ((k, v) :: c.others k).lookup j = some w := by
    obtain ⟨l₁, l₂, hl, hne⟩ := List.lookup_eq_some_iff.mp h
    have hsplit := List.take_append_drop c.capacity ((k, v) :: c.others k)
    rw [show ((k, v) :: c.others k).take c.capacity = l₁ ++ (j, w) :: l₂ from hl] at hsplit
    apply List.lookup_eq_some_iff.mpr
    exact ⟨l₁, l₂ ++ ((k, v) :: c.others k).drop c.capacity, hsplit.symm.trans (by simp), hne⟩
  rw [lookup_cons_others] at hall
  split at hall
  · rename_i hj
    exact .inl ⟨hj, (Option.some.inj hall).symm⟩
  · rename_i hj
    exact .inr ⟨hj, hall⟩

/-! ## What stands before an entry -/

omit [DecidableEq κ] in
theorem eq_of_entries {d : Lru κ ν} (hcap : c.capacity = d.capacity) (hent : c.entries = d.entries) :
    c = d := by
  obtain ⟨n, hn, l, hl, hfit⟩ := c
  obtain ⟨m, hm, k, hk, hfit'⟩ := d
  dsimp only at hcap hent
  subst hcap hent
  rfl

theorem pop_of_peek_none (h : c.peek k = none) : c.pop k = c := by
  refine eq_of_entries rfl ?_
  apply List.filter_eq_self.mpr
  intro p hp
  have hne := List.lookup_eq_none_iff.mp h p hp
  simpa using fun heq : p.1 = k => bne_iff_ne.mp hne heq.symm

theorem pop_get (c : Lru κ ν) (k : κ) : (c.get k).2.pop k = c.pop k := by
  unfold get
  split
  · refine eq_of_entries rfl ?_
    show List.filter (fun p => decide (p.1 ≠ k)) (_ :: c.others k) = c.others k
    rw [List.filter_cons_of_neg (by simp)]
    exact List.filter_eq_self.mpr fun p hp => (List.mem_filter.mp hp).2
  · rfl

theorem get_snd_of_peek_none (h : c.peek k = none) : (c.get k).2 = c := by
  unfold get
  rw [dif_neg (by simp [h])]

@[simp] theorem capacity_get (c : Lru κ ν) (k : κ) : (c.get k).2.capacity = c.capacity := by
  unfold get
  split
  · rfl
  · rfl

@[simp] theorem capacity_put (c : Lru κ ν) (k : κ) (v : ν) : (c.put k v).capacity = c.capacity := rfl

@[simp] theorem capacity_pop (c : Lru κ ν) (k : κ) : (c.pop k).capacity = c.capacity := rfl

theorem get_entries_of_peek (h : c.peek k = some v) :
    (c.get k).2.entries = (k, v) :: c.others k := by
  unfold get
  rw [dif_pos (by rw [h]; rfl)]
  simp [h]

/-- The entry is there and only keys of the set stand before it. -/
def UsedBefore (c : Lru κ ν) (k : κ) (v : ν) (S : Finset κ) : Prop :=
  ∃ l₁ l₂, c.entries = l₁ ++ (k, v) :: l₂ ∧ ∀ p ∈ l₁, p.1 ∈ S

section UsedBefore

variable {S : Finset κ}

theorem UsedBefore.peek_eq (h : c.UsedBefore k v S) : c.peek k = some v := by
  obtain ⟨l₁, l₂, hl, -⟩ := h
  apply List.lookup_eq_some_iff.mpr
  refine ⟨l₁, l₂, hl, ?_⟩
  -- one entry a key: what stands before this one has another key
  have hnodup := c.nodup
  rw [hl, List.map_append, List.map_cons, List.nodup_append] at hnodup
  intro p hp
  apply bne_iff_ne.mpr
  intro heq
  exact hnodup.2.2 p.1 (List.mem_map_of_mem hp) k List.mem_cons_self heq.symm

/-- Only a key of its own makes an entry of `others` go. -/
theorem UsedBefore.others_eq (h : c.UsedBefore k v S) (hne : j ≠ k) :
    ∃ l₁ l₂, c.others j = l₁ ++ (k, v) :: l₂ ∧ ∀ p ∈ l₁, p.1 ∈ S := by
  obtain ⟨l₁, l₂, hl, hS⟩ := h
  refine ⟨l₁.filter fun p => p.1 ≠ j, l₂.filter fun p => p.1 ≠ j, ?_, ?_⟩
  · unfold others
    rw [hl, List.filter_append, List.filter_cons_of_pos (by simpa using hne.symm)]
  · intro p hp
    exact hS p (List.mem_filter.mp hp).1

theorem usedBefore_get_self (h : c.peek k = some v) : (c.get k).2.UsedBefore k v ∅ :=
  ⟨[], c.others k, get_entries_of_peek h, by simp⟩

theorem usedBefore_put_self (c : Lru κ ν) (k : κ) (v : ν) : (c.put k v).UsedBefore k v ∅ := by
  obtain ⟨n, hn⟩ := Nat.exists_eq_succ_of_ne_zero (Nat.ne_of_gt c.pos)
  refine ⟨[], (c.others k).take n, ?_, by simp⟩
  show ((k, v) :: c.others k).take c.capacity = _
  rw [hn]
  rfl

theorem UsedBefore.pop (h : c.UsedBefore k v S) (hne : j ≠ k) : (c.pop j).UsedBefore k v S :=
  h.others_eq hne

theorem UsedBefore.get (h : c.UsedBefore k v S) (hne : j ≠ k) :
    (c.get j).2.UsedBefore k v (insert j S) := by
  cases hj : c.peek j with
  | none =>
    obtain ⟨l₁, l₂, hl, hS⟩ := h
    refine ⟨l₁, l₂, ?_, fun p hp => Finset.mem_insert_of_mem (hS p hp)⟩
    rw [get_snd_of_peek_none hj, hl]
  | some w =>
    obtain ⟨l₁, l₂, hl, hS⟩ := h.others_eq hne
    refine ⟨(j, w) :: l₁, l₂, ?_, ?_⟩
    · rw [get_entries_of_peek hj, hl, List.cons_append]
    · intro p hp
      rcases List.mem_cons.mp hp with rfl | hp
      · exact Finset.mem_insert_self _ _
      · exact Finset.mem_insert_of_mem (hS p hp)

/-- Different keys of a set are at most as many as the set has. -/
theorem length_le_card_of_keys {l : List (κ × ν)} (hnodup : (l.map Prod.fst).Nodup)
    (hS : ∀ p ∈ l, p.1 ∈ S) : l.length ≤ S.card := by
  rw [← List.length_map Prod.fst, ← List.toFinset_card_of_nodup hnodup]
  apply Finset.card_le_card
  intro x hx
  obtain ⟨p, hp, rfl⟩ := List.mem_map.mp (List.mem_toFinset.mp hx)
  exact hS p hp

/-- A `put` of another key drops an entry only when the keys before it fill the cache. -/
theorem UsedBefore.put (h : c.UsedBefore k v S) (hne : j ≠ k) (w : ν)
    (hroom : (insert j S).card < c.capacity) : (c.put j w).UsedBefore k v (insert j S) := by
  obtain ⟨l₁, l₂, hl, hS⟩ := h.others_eq hne
  have hkeys : ∀ p ∈ (j, w) :: l₁, p.1 ∈ insert j S := by
    intro p hp
    rcases List.mem_cons.mp hp with rfl | hp
    · exact Finset.mem_insert_self _ _
    · exact Finset.mem_insert_of_mem (hS p hp)
  have hall : (j, w) :: c.others j = ((j, w) :: l₁) ++ (k, v) :: l₂ := by
    rw [hl, List.cons_append]
  have hnodup : (((j, w) :: l₁).map Prod.fst).Nodup := by
    have hall' := c.nodup_cons_others j w
    rw [hall, List.map_append] at hall'
    exact (List.nodup_append.mp hall').1
  have hlen : ((j, w) :: l₁).length < c.capacity :=
    Nat.lt_of_le_of_lt (length_le_card_of_keys hnodup hkeys) hroom
  obtain ⟨n, hn⟩ := Nat.exists_eq_add_of_lt hlen
  refine ⟨(j, w) :: l₁, l₂.take n, ?_, hkeys⟩
  show ((j, w) :: c.others j).take c.capacity = _
  rw [hall, List.take_append, List.take_of_length_le (Nat.le_of_lt hlen), hn]
  congr 1
  rw [show ((j, w) :: l₁).length + n + 1 - ((j, w) :: l₁).length = n + 1 from by omega]
  rfl

end UsedBefore

end Lru

end Keplor.Lib
