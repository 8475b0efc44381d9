import Keplor.Lib.Grouping
import Mathlib.Algebra.BigOperators.Intervals
import Mathlib.Algebra.Order.BigOperators.Group.List
import Mathlib.Algebra.Order.Ring.Nat
import Mathlib.Data.List.Perm.Subperm

/-!
# Quantities of a system of components

The components of a system are a list, and a quantity of the system is what its components come to.
A step replaces one component, or adds one; the quantity changes by what that component changes. This
is what an argument about conservation takes: what is in one place, and what is still on its way
there, comes to no more than what went in.
-/

set_option autoImplicit false

namespace Keplor.Lib

open Finset (range)

section Components

variable {α : Type} {l : List α} {n : Nat} {b : α}

/-- One component is replaced. -/
theorem sum_map_set (f : α → Nat) (h : l[n]? = some b) (a : α) :
    ((l.set n a).map f).sum + f b = (l.map f).sum + f a := by
  induction l generalizing n with
  | nil => cases h
  | cons c l ih =>
    cases n with
    | zero =>
      cases h
      simp only [List.set_cons_zero, List.map_cons, List.sum_cons]
      omega
    | succ n =>
      have hrest := ih h
      simp only [List.set_cons_succ, List.map_cons, List.sum_cons]
      omega

/-- One component is added. -/
theorem sum_map_concat (f : α → Nat) (l : List α) (a : α) :
    ((l ++ [a]).map f).sum = (l.map f).sum + f a := by
  rw [List.map_append, List.sum_append, List.map_singleton, List.sum_singleton]

/-- The same where a component's share also depends on its place. -/
theorem sum_range_at {i : Nat} (hi : i < n) {f g : Nat → Nat} (h : ∀ j, j ≠ i → g j = f j) :
    ∑ j ∈ range n, g j + f i = ∑ j ∈ range n, f j + g i := by
  have hmem : i ∈ range n := Finset.mem_range.mpr hi
  have hrest : ∑ j ∈ (range n).erase i, g j = ∑ j ∈ (range n).erase i, f j :=
    Finset.sum_congr rfl fun j hj => h j (Finset.ne_of_mem_erase hj)
  rw [← Finset.add_sum_erase _ g hmem, ← Finset.add_sum_erase _ f hmem, hrest]
  omega

theorem sum_range_le_sum_map {w : Nat → Nat} {f : α → Nat}
    (h : ∀ i a, l[i]? = some a → w i ≤ f a) : ∑ i ∈ range l.length, w i ≤ (l.map f).sum := by
  induction l generalizing w with
  | nil => exact Nat.le_refl 0
  | cons a l ih =>
    rw [List.length_cons, Finset.sum_range_succ', List.map_cons, List.sum_cons, Nat.add_comm]
    exact Nat.add_le_add (h 0 a rfl) (ih fun i b hi => h (i + 1) b hi)

/-- A list with no more elements of any kind is part of the other, up to order. -/
theorem subperm_of_countP_le {l' : List α} (h : ∀ f : α → Bool, l.countP f ≤ l'.countP f) :
    l.Subperm l' := by
  classical
  exact List.subperm_ext_iff.mpr fun a _ => h (· == a)

end Components

/-! ## Groups -/

section Groups

variable {α κ : Type} [DecidableEq κ]

theorem flatMap_filter_pushGroup (k l : κ) (x : α) (gs : List (κ × List α)) :
    (((pushGroup k x gs).filter fun g => g.1 = l).flatMap Prod.snd).Perm
      ((gs.filter fun g => g.1 = l).flatMap Prod.snd ++ if k = l then [x] else []) := by
  induction gs with
  | nil =>
    by_cases hkl : k = l
    · simp [pushGroup, hkl]
    · simp [pushGroup, hkl]
  | cons g gs ih =>
    obtain ⟨m, xs⟩ := g
    rw [pushGroup]
    split
    · rename_i hkm
      subst hkm
      by_cases hkl : k = l
      · simp only [hkl, List.filter_cons, decide_true, if_true, List.flatMap_cons, List.append_assoc]
        exact List.perm_append_comm.append_left xs
      · simp [hkl]
    · by_cases hml : m = l
      · simp only [hml, List.filter_cons, decide_true, if_true, List.flatMap_cons, List.append_assoc]
        exact ih.append_left xs
      · simpa [hml] using ih

/-- The groups of a key hold the elements of that key, each as often as it came. -/
theorem flatMap_filter_collect (key : α → κ) (k : κ) (xs : List α) :
    (((collect key xs).filter fun g => g.1 = k).flatMap Prod.snd).Perm
      (xs.filter fun x => key x = k) := by
  induction xs using List.reverseRecOn with
  | nil => exact List.Perm.refl _
  | append_singleton xs x ih =>
    rw [show collect key (xs ++ [x]) = pushGroup (key x) x (collect key xs) by
      rw [collect, List.foldl_append]; rfl]
    refine (flatMap_filter_pushGroup (key x) k x _).trans ?_
    rw [List.filter_append]
    refine ih.append ?_
    by_cases hk : key x = k
    · simp [hk]
    · simp [hk]

end Groups

end Keplor.Lib
