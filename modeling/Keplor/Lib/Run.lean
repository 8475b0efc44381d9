import Mathlib.Tactic.Common

/-!
# Runs of a step function

A system is a step function and a list of inputs, and a run is the list folded over the state. Every
safety result about a run is the same argument: an invariant that one step keeps. `run_invariant`
is that argument once. Where a step keeps the invariant only for inputs the environment may really
send at that state, `Allowed` says so of the whole run.
-/

set_option autoImplicit false

namespace Keplor.Lib

variable {σ ι : Type}

/-- The state after a list of inputs. -/
def run (step : σ → ι → σ) (s : σ) (xs : List ι) : σ := xs.foldl step s

/-- Every input of the run is allowed at the state it meets. -/
def Allowed (step : σ → ι → σ) (ok : σ → ι → Prop) : σ → List ι → Prop
  | _, [] => True
  | s, x :: xs => ok s x ∧ Allowed step ok (step s x) xs

variable {step : σ → ι → σ} {ok : σ → ι → Prop} {inv : σ → Prop} {s : σ}

@[simp] theorem run_nil : run step s [] = s := rfl

@[simp] theorem run_cons (x : ι) (xs : List ι) : run step s (x :: xs) = run step (step s x) xs := rfl

theorem run_append (xs ys : List ι) : run step s (xs ++ ys) = run step (run step s xs) ys := by
  rw [run, List.foldl_append]
  rfl

theorem allowed_append {xs ys : List ι} :
    Allowed step ok s (xs ++ ys) ↔ Allowed step ok s xs ∧ Allowed step ok (run step s xs) ys := by
  induction xs generalizing s with
  | nil => simp [Allowed]
  | cons x xs ih => simp [Allowed, ih, and_assoc]

theorem Allowed.mono {ok' : σ → ι → Prop} (himp : ∀ s x, ok s x → ok' s x) {xs : List ι}
    (h : Allowed step ok s xs) : Allowed step ok' s xs := by
  induction xs generalizing s with
  | nil => trivial
  | cons x xs ih => exact ⟨himp s x h.1, ih h.2⟩

theorem allowed_of_forall {xs : List ι} (h : ∀ s, ∀ x ∈ xs, ok s x) : Allowed step ok s xs := by
  induction xs generalizing s with
  | nil => trivial
  | cons x xs ih =>
    exact ⟨h s x List.mem_cons_self, ih fun s y hy => h s y (List.mem_cons_of_mem _ hy)⟩

theorem allowed_and {ok' : σ → ι → Prop} {xs : List ι} :
    Allowed step (fun s x => ok s x ∧ ok' s x) s xs ↔ Allowed step ok s xs ∧ Allowed step ok' s xs := by
  induction xs generalizing s with
  | nil => simp [Allowed]
  | cons x xs ih =>
    simp only [Allowed, ih]
    exact and_and_and_comm

instance decidableAllowed [∀ s x, Decidable (ok s x)] :
    (s : σ) → (xs : List ι) → Decidable (Allowed step ok s xs)
  | _, [] => isTrue trivial
  | s, x :: xs =>
    have := decidableAllowed (step s x) xs
    inferInstanceAs (Decidable (ok s x ∧ Allowed step ok (step s x) xs))

/-- What every allowed step keeps, every allowed run keeps. -/
theorem run_invariant (hstep : ∀ s x, inv s → ok s x → inv (step s x)) (hs : inv s) {xs : List ι}
    (hxs : Allowed step ok s xs) : inv (run step s xs) := by
  induction xs generalizing s with
  | nil => exact hs
  | cons x xs ih => exact ih (hstep s x hs hxs.1) hxs.2

/-- What every step keeps, every run keeps. -/
theorem run_invariant_of_step (hstep : ∀ s x, inv s → inv (step s x)) (hs : inv s) (xs : List ι) :
    inv (run step s xs) := by
  induction xs generalizing s with
  | nil => exact hs
  | cons x xs ih => exact ih (hstep s x hs)

/-- What no step changes, no run changes. -/
theorem run_unchanged {β : Type} {f : σ → β} (hstep : ∀ s x, f (step s x) = f s) (s : σ)
    (xs : List ι) : f (run step s xs) = f s := by
  induction xs generalizing s with
  | nil => rfl
  | cons x xs ih => exact (ih (step s x)).trans (hstep s x)

/-- Where every step of one kind comes closer to the end and the others do not lead away from it, a
run with enough steps of that kind has reached it. -/
theorem run_reaches (stop : σ → Prop) (own : ι → Bool) (distance : σ → Nat)
    (hstep : ∀ s x, inv s → ok s x → inv (step s x))
    (hstop : ∀ s x, stop s → stop (step s x))
    (hown : ∀ s x, inv s → ok s x → own x = true → ¬ stop s → distance (step s x) < distance s)
    (hother : ∀ s x, inv s → ok s x → own x = false → distance (step s x) ≤ distance s)
    (hzero : ∀ s, inv s → distance s = 0 → stop s) {xs : List ι} (hs : inv s)
    (hxs : Allowed step ok s xs) (henough : distance s ≤ xs.countP own) : stop (run step s xs) := by
  induction xs generalizing s with
  | nil => exact hzero s hs (Nat.le_zero.mp henough)
  | cons x xs ih =>
    obtain ⟨hx, hxs⟩ := hxs
    have hs' := hstep s x hs hx
    by_cases hend : stop s
    · exact run_invariant_of_step (fun s x => hstop s x) (hstop s x hend) xs
    · apply ih hs' hxs
      cases hkind : own x with
      | true =>
        have hlt := hown s x hs hx hkind hend
        rw [List.countP_cons_of_pos hkind] at henough
        omega
      | false =>
        have hle := hother s x hs hx hkind
        rw [List.countP_cons_of_neg (by simp [hkind])] at henough
        omega

/-! ## Systems of several components

The components' states are a list, and a component is known by its place in it. -/

section Components

variable {α : Type} {l : List α} {n m : Nat} {a b : α}

theorem getElem?_set_cases (h : (l.set n a)[m]? = some b) :
    (n = m ∧ b = a) ∨ (n ≠ m ∧ l[m]? = some b) := by
  by_cases hnm : n = m
  · subst hnm
    rw [List.getElem?_set_self'] at h
    cases hl : l[n]? with
    | none => rw [hl] at h; cases h
    | some x => rw [hl] at h; exact .inl ⟨rfl, (Option.some.inj h).symm⟩
  · rw [List.getElem?_set_ne hnm] at h
    exact .inr ⟨hnm, h⟩

theorem getElem?_set_of (h : l[m]? = some b) : (l.set n a)[m]? = some (if n = m then a else b) := by
  by_cases hnm : n = m
  · subst hnm
    have hlt := (List.getElem?_eq_some_iff.mp h).1
    simp [hlt]
  · rw [List.getElem?_set_ne hnm, h, if_neg hnm]

theorem getElem?_concat_cases (h : (l ++ [a])[n]? = some b) :
    l[n]? = some b ∨ (n = l.length ∧ b = a) := by
  rcases Nat.lt_trichotomy n l.length with hlt | rfl | hgt
  · rw [List.getElem?_append_left hlt] at h
    exact .inl h
  · rw [List.getElem?_concat_length] at h
    exact .inr ⟨rfl, (Option.some.inj h).symm⟩
  · rw [List.getElem?_eq_none (by rw [List.length_append]; exact hgt)] at h
    cases h

/-- A component replaced by one that looks the same does not change how the system looks. -/
theorem map_set_of_eq {β : Type} {f : α → β} (h : l[n]? = some b) (hf : f a = f b) :
    (l.set n a).map f = l.map f := by
  apply List.ext_getElem?
  intro m
  by_cases hnm : n = m
  · subst hnm
    rw [List.getElem?_map, List.getElem?_map, getElem?_set_of h, if_pos rfl, h]
    exact congrArg some hf
  · rw [List.getElem?_map, List.getElem?_map, List.getElem?_set_ne hnm]

theorem getElem?_append_of (h : l[n]? = some a) (l' : List α) : (l ++ l')[n]? = some a := by
  rw [List.getElem?_append_left (List.getElem?_eq_some_iff.mp h).1, h]

end Components

end Keplor.Lib
