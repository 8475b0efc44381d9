import Mathlib.Data.List.Perm.Basic
import Mathlib.Tactic.Common

/-!
# Grouping and cutting lists

Two ways of splitting a list that lose nothing: into groups by a key, kept in the order of the keys,
and into pieces of a fixed size. `perm_groupBy` and `flatten_chunks` say that nothing is lost or
doubled; `key_of_mem_groupBy` that nothing is misplaced.
-/

set_option autoImplicit false

namespace Keplor.Lib

/-! ## By key -/

section Group

variable {κ α : Type} [DecidableEq κ] [LT κ] [DecidableLT κ]

/-- Add an element to the group of its key; a new group goes to its place among the keys. -/
def insertGroup (k : κ) (x : α) : List (κ × List α) → List (κ × List α)
  | [] => [(k, [x])]
  | (l, xs) :: gs =>
      if k = l then (l, xs ++ [x]) :: gs
      else if k < l then (k, [x]) :: (l, xs) :: gs
      else (l, xs) :: insertGroup k x gs

/-- The groups of a list, each in the order of the list. -/
def groupBy (key : α → κ) (xs : List α) : List (κ × List α) :=
  xs.foldl (fun gs x => insertGroup (key x) x gs) []

theorem perm_insertGroup (k : κ) (x : α) (gs : List (κ × List α)) :
    ((insertGroup k x gs).flatMap Prod.snd).Perm (x :: gs.flatMap Prod.snd) := by
  induction gs with
  | nil => simp [insertGroup]
  | cons g gs ih =>
    obtain ⟨l, ys⟩ := g
    rw [insertGroup]
    split
    · simp only [List.flatMap_cons, List.append_assoc, List.singleton_append]
      exact List.perm_middle
    · split
      · simp
      · simp only [List.flatMap_cons]
        exact (ih.append_left ys).trans List.perm_middle

theorem perm_groupBy (key : α → κ) (xs : List α) :
    ((groupBy key xs).flatMap Prod.snd).Perm xs := by
  have h : ∀ (gs : List (κ × List α)),
      ((xs.foldl (fun gs x => insertGroup (key x) x gs) gs).flatMap Prod.snd).Perm
        (gs.flatMap Prod.snd ++ xs) := by
    induction xs with
    | nil => intro gs; simp
    | cons x xs ih =>
      intro gs
      rw [List.foldl_cons]
      refine (ih _).trans ?_
      exact ((perm_insertGroup (key x) x gs).append_right xs).trans List.perm_middle.symm
  simpa [groupBy] using h []

theorem key_of_mem_insertGroup {key : α → κ} {x : α} {gs : List (κ × List α)}
    (h : ∀ g ∈ gs, ∀ y ∈ g.2, key y = g.1) :
    ∀ g ∈ insertGroup (key x) x gs, ∀ y ∈ g.2, key y = g.1 := by
  induction gs with
  | nil => simp [insertGroup]
  | cons g gs ih =>
    obtain ⟨l, ys⟩ := g
    have hl := h (l, ys) (by simp)
    have hgs : ∀ g ∈ gs, ∀ y ∈ g.2, key y = g.1 := fun g hg => h g (List.mem_cons_of_mem _ hg)
    rw [insertGroup]
    split
    · rename_i hk
      intro g hg y hy
      rcases List.mem_cons.mp hg with rfl | hg
      · rcases List.mem_append.mp hy with hy | hy
        · exact hl y hy
        · rw [List.mem_singleton.mp hy]
          exact hk
      · exact hgs g hg y hy
    · split
      · intro g hg y hy
        rcases List.mem_cons.mp hg with rfl | hg
        · rw [List.mem_singleton.mp hy]
        · exact h g hg y hy
      · intro g hg y hy
        rcases List.mem_cons.mp hg with rfl | hg
        · exact hl y hy
        · exact ih hgs g hg y hy

theorem key_of_mem_groupBy (key : α → κ) (xs : List α) :
    ∀ g ∈ groupBy key xs, ∀ y ∈ g.2, key y = g.1 := by
  refine List.foldlRecOn
    (motive := fun gs : List (κ × List α) => ∀ g ∈ gs, ∀ y ∈ g.2, key y = g.1) xs _ ?_ ?_
  · exact fun g hg => absurd hg List.not_mem_nil
  · exact fun gs hgs x _ => key_of_mem_insertGroup hgs

end Group

/-! ## By key, in no particular order of the keys -/

section Collect

variable {κ α : Type} [DecidableEq κ]

/-- Add an element to the group of its key; a new group goes last. -/
def pushGroup (k : κ) (x : α) : List (κ × List α) → List (κ × List α)
  | [] => [(k, [x])]
  | (l, xs) :: gs => if k = l then (l, xs ++ [x]) :: gs else (l, xs) :: pushGroup k x gs

/-- The groups of a list in the order their keys first occur. -/
def collect (key : α → κ) (xs : List α) : List (κ × List α) :=
  xs.foldl (fun gs x => pushGroup (key x) x gs) []

theorem mem_keys_pushGroup {k : κ} {x : α} {gs : List (κ × List α)} {l : κ} :
    l ∈ (pushGroup k x gs).map Prod.fst ↔ l = k ∨ l ∈ gs.map Prod.fst := by
  induction gs with
  | nil => simp [pushGroup]
  | cons g gs ih =>
    obtain ⟨m, ys⟩ := g
    rw [pushGroup]
    split
    · rename_i hk
      simp [hk]
    · simp only [List.map_cons, List.mem_cons, ih]
      exact or_left_comm

theorem nodup_keys_pushGroup {k : κ} {x : α} {gs : List (κ × List α)}
    (h : (gs.map Prod.fst).Nodup) : ((pushGroup k x gs).map Prod.fst).Nodup := by
  induction gs with
  | nil => simp [pushGroup]
  | cons g gs ih =>
    obtain ⟨m, ys⟩ := g
    simp only [List.map_cons, List.nodup_cons] at h
    rw [pushGroup]
    split
    · simpa using h
    · rename_i hk
      rw [List.map_cons, List.nodup_cons, mem_keys_pushGroup]
      exact ⟨by rintro (rfl | hm); exacts [hk rfl, h.1 hm], ih h.2⟩

theorem ne_nil_of_mem_pushGroup {k : κ} {x : α} {gs : List (κ × List α)}
    (h : ∀ g ∈ gs, g.2 ≠ []) : ∀ g ∈ pushGroup k x gs, g.2 ≠ [] := by
  induction gs with
  | nil => simp [pushGroup]
  | cons g gs ih =>
    obtain ⟨m, ys⟩ := g
    simp only [List.mem_cons, forall_eq_or_imp] at h
    rw [pushGroup]
    split
    · simpa using h.2
    · rw [List.forall_mem_cons]
      exact ⟨h.1, ih h.2⟩

theorem nodup_keys_collect (key : α → κ) (xs : List α) : ((collect key xs).map Prod.fst).Nodup := by
  refine List.foldlRecOn (motive := fun gs : List (κ × List α) => (gs.map Prod.fst).Nodup) xs _
    List.nodup_nil ?_
  exact fun gs hgs x _ => nodup_keys_pushGroup hgs

theorem ne_nil_of_mem_collect {key : α → κ} {xs : List α} : ∀ g ∈ collect key xs, g.2 ≠ [] := by
  refine List.foldlRecOn (motive := fun gs : List (κ × List α) => ∀ g ∈ gs, g.2 ≠ []) xs _ ?_ ?_
  · exact fun g hg => absurd hg List.not_mem_nil
  · exact fun gs hgs x _ => ne_nil_of_mem_pushGroup hgs

theorem mem_pushGroup {k : κ} {x : α} {gs : List (κ × List α)} :
    ∀ g ∈ pushGroup k x gs, ∀ y ∈ g.2, (y = x ∧ g.1 = k) ∨ ∃ h ∈ gs, y ∈ h.2 ∧ h.1 = g.1 := by
  induction gs with
  | nil => simp [pushGroup]
  | cons h gs ih =>
    obtain ⟨m, ys⟩ := h
    rw [pushGroup]
    split
    · rename_i hk
      intro g hg y hy
      rcases List.mem_cons.mp hg with rfl | hg
      · rcases List.mem_append.mp hy with hy | hy
        · exact .inr ⟨(m, ys), by simp, hy, rfl⟩
        · exact .inl ⟨List.mem_singleton.mp hy, hk.symm⟩
      · exact .inr ⟨g, by simp [hg], hy, rfl⟩
    · intro g hg y hy
      rcases List.mem_cons.mp hg with rfl | hg
      · exact .inr ⟨(m, ys), by simp, hy, rfl⟩
      · rcases ih g hg y hy with h | ⟨h, hh, hy', hkey⟩
        · exact .inl h
        · exact .inr ⟨h, by simp [hh], hy', hkey⟩

/-- A group holds elements of the list, and only of its own key. -/
theorem mem_collect {key : α → κ} {xs : List α} :
    ∀ g ∈ collect key xs, ∀ y ∈ g.2, y ∈ xs ∧ key y = g.1 := by
  have h : ∀ (seen : List α) (gs : List (κ × List α)), (∀ g ∈ gs, ∀ y ∈ g.2, y ∈ seen ∧ key y = g.1) →
      ∀ g ∈ xs.foldl (fun gs x => pushGroup (key x) x gs) gs, ∀ y ∈ g.2,
        y ∈ seen ++ xs ∧ key y = g.1 := by
    induction xs with
    | nil => simp
    | cons x xs ih =>
      intro seen gs hgs
      have := ih (seen ++ [x]) (pushGroup (key x) x gs) fun g hg y hy => ?_
      · simpa using this
      rcases mem_pushGroup g hg y hy with ⟨rfl, hk⟩ | ⟨g', hg', hy', hk⟩
      · exact ⟨by simp, hk.symm⟩
      · exact ⟨by simp [(hgs g' hg' y hy').1], (hgs g' hg' y hy').2.trans hk⟩
  exact h [] [] (by simp)

/-- What is in a group stays there, and a pushed element is in the group of its key. -/
theorem exists_mem_pushGroup {k : κ} {x : α} {gs : List (κ × List α)} {l : κ} {y : α}
    (h : (y = x ∧ l = k) ∨ ∃ g ∈ gs, g.1 = l ∧ y ∈ g.2) :
    ∃ g ∈ pushGroup k x gs, g.1 = l ∧ y ∈ g.2 := by
  induction gs with
  | nil =>
    rcases h with ⟨rfl, rfl⟩ | ⟨g, hg, -⟩
    · exact ⟨(l, [y]), by simp [pushGroup]⟩
    · cases hg
  | cons g gs ih =>
    obtain ⟨m, ys⟩ := g
    rw [pushGroup]
    split
    · rename_i hk
      subst hk
      rcases h with ⟨rfl, rfl⟩ | ⟨g, hg, hl, hy⟩
      · exact ⟨(l, ys ++ [y]), by simp⟩
      · rcases List.mem_cons.mp hg with rfl | hg
        · exact ⟨(k, ys ++ [x]), List.mem_cons_self, hl, List.mem_append_left _ hy⟩
        · exact ⟨g, List.mem_cons_of_mem _ hg, hl, hy⟩
    · have htail : ((y = x ∧ l = k) ∨ ∃ g ∈ gs, g.1 = l ∧ y ∈ g.2) →
          ∃ g ∈ (m, ys) :: pushGroup k x gs, g.1 = l ∧ y ∈ g.2 := by
        intro h
        obtain ⟨g, hg, hgy⟩ := ih h
        exact ⟨g, List.mem_cons_of_mem _ hg, hgy⟩
      rcases h with h | ⟨g, hg, hl, hy⟩
      · exact htail (.inl h)
      · rcases List.mem_cons.mp hg with rfl | hg
        · exact ⟨(m, ys), List.mem_cons_self, hl, hy⟩
        · exact htail (.inr ⟨g, hg, hl, hy⟩)

/-- Every element is in the group of its key. -/
theorem exists_mem_collect {key : α → κ} {xs : List α} {x : α} (hx : x ∈ xs) :
    ∃ g ∈ collect key xs, g.1 = key x ∧ x ∈ g.2 := by
  have h : ∀ (xs : List α) (gs : List (κ × List α)), (x ∈ xs ∨ ∃ g ∈ gs, g.1 = key x ∧ x ∈ g.2) →
      ∃ g ∈ xs.foldl (fun gs y => pushGroup (key y) y gs) gs, g.1 = key x ∧ x ∈ g.2 := by
    intro xs
    induction xs with
    | nil => simp
    | cons y xs ih =>
      intro gs hgs
      rw [List.foldl_cons]
      apply ih
      rcases hgs with hx | hgs
      · rcases List.mem_cons.mp hx with rfl | hx
        · exact .inr (exists_mem_pushGroup (.inl ⟨rfl, rfl⟩))
        · exact .inl hx
      · exact .inr (exists_mem_pushGroup (.inr hgs))
  exact h xs [] (.inl hx)

end Collect

/-! ## Looking a key up -/

section Lookup

variable {κ β : Type} [DecidableEq κ] {l : List (κ × β)} {k : κ} {b : β}

theorem lookup_cons_eq_ite {m : κ} : ((m, b) :: l).lookup k = if k = m then some b else l.lookup k := by
  rw [List.lookup_cons]
  by_cases h : k = m
  · simp [h]
  · rw [if_neg h, beq_false_of_ne h]

theorem mem_of_lookup (h : l.lookup k = some b) : (k, b) ∈ l := by
  obtain ⟨l₁, l₂, rfl, -⟩ := List.lookup_eq_some_iff.mp h
  simp

/-- Where no key is there twice, every entry is found under its key. -/
theorem lookup_of_mem (hnd : (l.map Prod.fst).Nodup) (hmem : (k, b) ∈ l) : l.lookup k = some b := by
  obtain ⟨l₁, l₂, rfl⟩ := List.append_of_mem hmem
  refine List.lookup_eq_some_iff.mpr ⟨l₁, l₂, rfl, fun p hp => ?_⟩
  rw [List.map_append, List.map_cons, List.nodup_append] at hnd
  exact bne_iff_ne.mpr (hnd.2.2 p.1 (List.mem_map_of_mem hp) k (by simp)).symm

end Lookup

/-! ## What a group holds -/

section Groups

variable {κ α : Type} [DecidableEq κ] [LT κ] [DecidableLT κ] [IsStrictTotalOrder κ (· < ·)]

omit [IsStrictTotalOrder κ (· < ·)] in
theorem lt_keys_insertGroup {k l : κ} {x : α} {gs : List (κ × List α)} (hk : l < k)
    (h : ∀ g ∈ gs, l < g.1) : ∀ g ∈ insertGroup k x gs, l < g.1 := by
  induction gs with
  | nil => simpa [insertGroup] using hk
  | cons g gs ih =>
    obtain ⟨m, ys⟩ := g
    rw [List.forall_mem_cons] at h
    rw [insertGroup]
    split
    · simpa using h
    · split
      · simpa [hk] using h
      · simpa [h.1] using ih h.2

/-- The groups stay in the order of their keys, with no key twice. -/
theorem sorted_insertGroup {k : κ} {x : α} {gs : List (κ × List α)}
    (h : gs.Pairwise fun g g' => g.1 < g'.1) :
    (insertGroup k x gs).Pairwise fun g g' => g.1 < g'.1 := by
  induction gs with
  | nil => simp [insertGroup]
  | cons g gs ih =>
    obtain ⟨m, ys⟩ := g
    rw [List.pairwise_cons] at h
    rw [insertGroup]
    split
    · exact List.pairwise_cons.mpr h
    · rename_i hne
      split
      · rename_i hlt
        refine List.pairwise_cons.mpr ⟨fun g hg => ?_, List.pairwise_cons.mpr h⟩
        rcases List.mem_cons.mp hg with rfl | hg
        · exact hlt
        · exact trans_of (· < ·) hlt (h.1 g hg)
      · rename_i hnlt
        have hlt : m < k := by
          rcases trichotomous_of (· < ·) k m with hlt | heq | hlt
          exacts [absurd hlt hnlt, absurd heq hne, hlt]
        exact List.pairwise_cons.mpr ⟨lt_keys_insertGroup hlt h.1, ih h.2⟩

/-- A new element comes last in the group of its key, and changes no other group. -/
theorem lookup_insertGroup {k l : κ} {x : α} {gs : List (κ × List α)}
    (h : gs.Pairwise fun g g' => g.1 < g'.1) :
    (insertGroup k x gs).lookup l =
      if l = k then some ((gs.lookup k).getD [] ++ [x]) else gs.lookup l := by
  induction gs with
  | nil => simp [insertGroup, lookup_cons_eq_ite]
  | cons g gs ih =>
    obtain ⟨m, ys⟩ := g
    rw [List.pairwise_cons] at h
    rw [insertGroup]
    split
    · rename_i hkm
      subst hkm
      simp only [lookup_cons_eq_ite, if_true, Option.getD_some]
      split <;> rfl
    · rename_i hne
      split
      · rename_i hlt
        -- the key is smaller than all that follow, so it is not among them
        have hnone : gs.lookup k = none := by
          rw [List.lookup_eq_none_iff]
          intro g hg
          have hkg : k < g.1 := trans_of (· < ·) hlt (h.1 g hg)
          refine bne_iff_ne.mpr fun heq => ?_
          rw [← heq] at hkg
          exact irrefl_of (· < ·) _ hkg
        simp [lookup_cons_eq_ite, hne, hnone]
      · simp only [lookup_cons_eq_ite, ih h.2, hne, if_false]
        by_cases hlk : l = k
        · simp [hlk, hne]
        · simp [hlk]

theorem sorted_groupBy (key : α → κ) (xs : List α) :
    (groupBy key xs).Pairwise fun g g' => g.1 < g'.1 := by
  refine List.foldlRecOn
    (motive := fun gs : List (κ × List α) => gs.Pairwise fun g g' => g.1 < g'.1) xs _ .nil ?_
  exact fun gs hgs x _ => sorted_insertGroup hgs

theorem nodup_keys_groupBy (key : α → κ) (xs : List α) : ((groupBy key xs).map Prod.fst).Nodup := by
  rw [List.Nodup, List.pairwise_map]
  refine (sorted_groupBy key xs).imp ?_
  rintro g g' h heq
  rw [heq] at h
  exact irrefl_of (· < ·) _ h

/-- The group of a key: what the list has of that key, in the order of the list. -/
theorem lookup_groupBy (key : α → κ) (xs : List α) (k : κ) :
    ((groupBy key xs).lookup k).getD [] = xs.filter (fun x => key x = k) ∧
      ((groupBy key xs).lookup k).isSome = (xs.any fun x => key x = k) := by
  have h : ∀ gs : List (κ × List α), (gs.Pairwise fun g g' => g.1 < g'.1) →
      ((xs.foldl (fun gs x => insertGroup (key x) x gs) gs).lookup k).getD [] =
        (gs.lookup k).getD [] ++ xs.filter (fun x => key x = k) ∧
      ((xs.foldl (fun gs x => insertGroup (key x) x gs) gs).lookup k).isSome =
        ((gs.lookup k).isSome || xs.any fun x => key x = k) := by
    induction xs with
    | nil => intro gs _; simp
    | cons x xs ih =>
      intro gs hgs
      rw [List.foldl_cons, (ih _ (sorted_insertGroup hgs)).1, (ih _ (sorted_insertGroup hgs)).2,
        lookup_insertGroup hgs]
      by_cases hk : k = key x
      · simp [← hk]
      · simp [hk, Ne.symm hk]
  simpa [groupBy] using h [] List.Pairwise.nil

/-- The groups are the keys of the list, each with all there is of it in the order of the list. -/
theorem mem_groupBy_iff {key : α → κ} {xs : List α} {k : κ} {ys : List α} :
    (k, ys) ∈ groupBy key xs ↔ ys = xs.filter (fun x => key x = k) ∧ ∃ x ∈ xs, key x = k := by
  obtain ⟨hfilter, hsome⟩ := lookup_groupBy key xs k
  have hany : ((groupBy key xs).lookup k).isSome ↔ ∃ x ∈ xs, key x = k := by
    rw [hsome]
    simp
  constructor
  · intro hmem
    have hlook := lookup_of_mem (nodup_keys_groupBy key xs) hmem
    rw [hlook] at hfilter hany
    exact ⟨hfilter, hany.mp rfl⟩
  · rintro ⟨rfl, hex⟩
    obtain ⟨zs, hzs⟩ := Option.isSome_iff_exists.mp (hany.mpr hex)
    rw [hzs, Option.getD_some] at hfilter
    rw [← hfilter]
    exact mem_of_lookup hzs

end Groups

/-! ## By size -/

section Chunk

variable {α : Type}

/-- Pieces of `n` elements, the last one possibly shorter; `fuel` bounds their number. -/
def chunksAux (n : Nat) : Nat → List α → List (List α)
  | 0, _ => []
  | _ + 1, [] => []
  | fuel + 1, x :: xs => (x :: xs).take n :: chunksAux n fuel ((x :: xs).drop n)

/-- `slice::chunks` -/
def chunks (n : Nat) (xs : List α) : List (List α) := chunksAux n xs.length xs

theorem flatten_chunksAux {n : Nat} (hn : 0 < n) (fuel : Nat) :
    ∀ xs : List α, xs.length ≤ fuel → (chunksAux n fuel xs).flatten = xs := by
  induction fuel with
  | zero =>
    intro xs h
    rw [List.length_eq_zero_iff.mp (Nat.le_zero.mp h)]
    rfl
  | succ fuel ih =>
    intro xs h
    cases xs with
    | nil => rfl
    | cons x xs =>
      rw [chunksAux, List.flatten_cons, ih, List.take_append_drop]
      rw [List.length_drop]
      omega

theorem flatten_chunks {n : Nat} (hn : 0 < n) (xs : List α) : (chunks n xs).flatten = xs :=
  flatten_chunksAux hn _ xs (Nat.le_refl _)

theorem chunksAux_ne_nil {n : Nat} (hn : 0 < n) (fuel : Nat) :
    ∀ xs : List α, ∀ c ∈ chunksAux n fuel xs, c ≠ [] ∧ c.length ≤ n := by
  induction fuel with
  | zero => intro xs c hc; exact absurd hc (by simp [chunksAux])
  | succ fuel ih =>
    intro xs c hc
    cases xs with
    | nil => exact absurd hc (by simp [chunksAux])
    | cons x xs =>
      rw [chunksAux] at hc
      rcases List.mem_cons.mp hc with rfl | hc
      · refine ⟨?_, List.length_take_le n _⟩
        intro h
        have := congrArg List.length h
        rw [List.length_take] at this
        simp at this
        omega
      · exact ih _ c hc

theorem mem_of_mem_chunks {n : Nat} (hn : 0 < n) {xs c : List α} (hc : c ∈ chunks n xs) {x : α}
    (hx : x ∈ c) : x ∈ xs := by
  rw [← flatten_chunks hn xs]
  exact List.mem_flatten.mpr ⟨c, hc, hx⟩

end Chunk

end Keplor.Lib
