import Mathlib.Data.List.Forall2
import Mathlib.Tactic.Common

/-!
# Code that can fail in two ways

A function may return an error to its caller, or abort the process. `Fallible ε α` keeps the two
apart: `ExceptT` carries the error, and the `Option` underneath is `none` for the abort. Every
operation that aborts on a bad argument enters through `ofPartial`, so that a proof that a function
does not abort is a proof about the partial operations it calls and nothing else.
-/

set_option autoImplicit false

namespace Keplor.Lib

/-! ## Lists, element by element -/

/-- A sequence of such computations returns only through the values of its parts. -/
structure Inverts (m : Type → Type) [Monad m] : Prop where
  bind : ∀ {α β : Type} {x : m α} {f : α → m β} {b : β}, x >>= f = pure b →
    ∃ a, x = pure a ∧ f a = pure b
  inj : ∀ {α : Type} {a b : α}, (pure a : m α) = pure b → a = b

/-- A mapped list returns exactly when its elements do, and with their values. -/
theorem Inverts.mapM_eq_pure_iff {m : Type → Type} [Monad m] [LawfulMonad m] (h : Inverts m)
    {α β : Type} {f : α → m β} {xs : List α} {ys : List β} :
    xs.mapM f = pure ys ↔ List.Forall₂ (fun x y => f x = pure y) xs ys := by
  induction xs generalizing ys with
  | nil =>
    rw [List.mapM_nil, List.forall₂_nil_left_iff]
    exact ⟨fun hys => (h.inj hys).symm, fun hys => by rw [hys]⟩
  | cons x xs ih =>
    rw [List.mapM_cons, List.forall₂_cons_left_iff]
    constructor
    · intro hys
      obtain ⟨y, hy, hys⟩ := h.bind hys
      obtain ⟨rest, hrest, hys⟩ := h.bind hys
      exact ⟨y, rest, hy, ih.mp hrest, (h.inj hys).symm⟩
    · rintro ⟨y, rest, hy, hrest, rfl⟩
      rw [hy, pure_bind, ih.mpr hrest, pure_bind]

section Forall₂

variable {α β : Type} {R : α → β → Prop} {xs : List α} {ys : List β}

theorem exists_left_of_forall₂ (h : List.Forall₂ R xs ys) {y : β} (hy : y ∈ ys) :
    ∃ x ∈ xs, R x y := by
  induction h with
  | nil => cases hy
  | cons hr _ ih =>
    rcases List.mem_cons.mp hy with rfl | hy
    · exact ⟨_, List.mem_cons_self, hr⟩
    · obtain ⟨x, hx, hrx⟩ := ih hy
      exact ⟨x, List.mem_cons_of_mem _ hx, hrx⟩

theorem exists_right_of_forall₂ (h : List.Forall₂ R xs ys) {x : α} (hx : x ∈ xs) :
    ∃ y ∈ ys, R x y :=
  exists_left_of_forall₂ (R := flip R) h.flip hx

end Forall₂

/-! ## Errors and aborts -/

/-- A computation that returns, returns an error, or aborts. -/
abbrev Fallible (ε α : Type) := ExceptT ε Option α

namespace Fallible

variable {ε ε' α β : Type}

/-- A partial operation; outside its domain it aborts. -/
def ofPartial (x : Option α) : Fallible ε α := ExceptT.mk (x.map .ok)

/-- A lookup whose absence is an error. -/
def orError (x : Option α) (e : ε) : Fallible ε α :=
  match x with
  | some a => pure a
  | none => throw e

/-- A computation that never aborts. -/
def ofExcept (x : Except ε α) : Fallible ε α :=
  match x with
  | .ok a => pure a
  | .error e => throw e

/-- The computation does not abort. -/
def Returns (x : Fallible ε α) : Prop := x.run.isSome

/-- The value the computation returns, if it does. -/
def value? (x : Fallible ε α) : Option α :=
  match x.run with
  | some (.ok a) => some a
  | _ => none

instance (x : Fallible ε α) : Decidable x.Returns := inferInstanceAs (Decidable (_ = true))

@[simp] theorem ofPartial_some (a : α) : (ofPartial (some a) : Fallible ε α) = pure a := rfl

@[simp] theorem orError_some (a : α) (e : ε) : orError (some a) e = pure a := rfl

@[simp] theorem ofExcept_ok (a : α) : ofExcept (.ok a : Except ε α) = pure a := rfl

@[simp] theorem value?_pure (a : α) : value? (pure a : Fallible ε α) = some a := rfl

@[simp] theorem value?_throw (e : ε) : value? (throw e : Fallible ε α) = none := rfl

@[simp] theorem returns_pure (a : α) : Returns (pure a : Fallible ε α) := rfl

@[simp] theorem returns_throw (e : ε) : Returns (throw e : Fallible ε α) := rfl

@[simp] theorem returns_ofPartial (x : Option α) :
    Returns (ofPartial x : Fallible ε α) ↔ x.isSome := by
  cases x <;> simp [Returns, ofPartial, ExceptT.run, ExceptT.mk]

theorem pure_inj {a b : α} (h : (pure a : Fallible ε α) = pure b) : a = b := by
  simpa using congrArg value? h

theorem exists_pure_of_value? {x : Fallible ε α} (h : x.value?.isSome) : ∃ a, x = pure a := by
  unfold value? at h
  split at h
  · rename_i a hx
    exact ⟨a, hx⟩
  · cases h

theorem run_bind (x : Fallible ε α) (f : α → Fallible ε β) :
    (x >>= f).run = x.run.bind (ExceptT.bindCont f) := rfl

/-- A sequence returns a value only through the values of its parts. -/
theorem bind_eq_pure {x : Fallible ε α} {f : α → Fallible ε β} {b : β} (h : x >>= f = pure b) :
    ∃ a, x = pure a ∧ f a = pure b := by
  have hrun := run_bind x f
  rw [h] at hrun
  match hx : x.run with
  | none =>
    rw [hx] at hrun
    cases hrun
  | some (.error e) =>
    rw [hx] at hrun
    cases hrun
  | some (.ok a) =>
    rw [hx] at hrun
    exact ⟨a, hx, hrun.symm⟩

/-- A sequence fails with an error of its first part, or of its second on the value it got. -/
theorem bind_eq_throw {x : Fallible ε α} {f : α → Fallible ε β} {e : ε} (h : x >>= f = throw e) :
    x = throw e ∨ ∃ a, x = pure a ∧ f a = throw e := by
  have hrun := run_bind x f
  rw [h] at hrun
  match hx : x.run with
  | none =>
    rw [hx] at hrun
    cases hrun
  | some (.error e') =>
    rw [hx] at hrun
    cases hrun
    exact .inl hx
  | some (.ok a) =>
    rw [hx] at hrun
    exact .inr ⟨a, hx, hrun.symm⟩

theorem orError_eq_pure {x : Option α} {e : ε} {a : α} (h : orError x e = pure a) : x = some a := by
  cases x with
  | none => cases h
  | some b => rw [pure_inj h]

theorem inverts : Inverts (Fallible ε) := ⟨bind_eq_pure, pure_inj⟩

theorem mapM_eq_pure {f : α → Fallible ε β} {g : α → β} {xs : List α}
    (h : ∀ x ∈ xs, f x = pure (g x)) : xs.mapM f = pure (xs.map g) := by
  rw [inverts.mapM_eq_pure_iff, List.forall₂_map_right_iff]
  exact List.forall₂_same.mpr h

theorem ofExcept_eq_pure {x : Except ε α} {a : α} (h : ofExcept x = pure a) : x = .ok a := by
  cases x with
  | error e => cases h
  | ok b => rw [pure_inj h]

theorem ofExcept_eq_throw {x : Except ε α} {e : ε} (h : ofExcept x = throw e) : x = .error e := by
  cases x with
  | ok a => cases h
  | error e' =>
    cases h
    rfl

theorem ofPartial_ne_throw {x : Option α} {e : ε} : (ofPartial x : Fallible ε α) ≠ throw e := by
  intro h
  cases x with
  | none => cases h
  | some a => cases h

theorem ofPartial_eq_pure {x : Option α} {a : α} (h : (ofPartial x : Fallible ε α) = pure a) :
    x = some a := by
  cases x with
  | none => cases h
  | some b => rw [pure_inj h]

theorem returns_ofExcept (x : Except ε α) : Returns (ofExcept x) := by
  cases x <;> exact rfl

/-- A sequence returns when its first part does, and after it the second on the value it got. -/
theorem returns_bind {x : Fallible ε α} {f : α → Fallible ε β} :
    Returns (x >>= f) ↔ Returns x ∧ ∀ a, x = pure a → Returns (f a) := by
  have hrun := run_bind x f
  match hx : x.run with
  | none =>
    rw [hx] at hrun
    simp [Returns, hrun, hx]
  | some (.error e) =>
    have hthrow : x = throw e := hx
    subst hthrow
    refine iff_of_true rfl ⟨rfl, fun a ha => ?_⟩
    cases ha
  | some (.ok a) =>
    have hpure : x = pure a := hx
    subst hpure
    rw [pure_bind]
    constructor
    · intro h
      exact ⟨rfl, fun b hb => pure_inj hb ▸ h⟩
    · intro h
      exact h.2 a rfl

end Fallible

section Option

variable {α β : Type} {f : α → Option β}

theorem mapM_eq_some_iff {xs : List α} {ys : List β} :
    xs.mapM f = some ys ↔ List.Forall₂ (fun x y => f x = some y) xs ys :=
  Inverts.mapM_eq_pure_iff ⟨Option.bind_eq_some_iff.mp, Option.some.inj⟩

theorem mapM_isSome {xs : List α} : (xs.mapM f).isSome ↔ ∀ x ∈ xs, (f x).isSome := by
  induction xs with
  | nil => simp
  | cons x xs ih =>
    rw [List.mapM_cons, List.forall_mem_cons, ← ih]
    cases f x with
    | none => simp
    | some y =>
      cases xs.mapM f with
      | none => simp
      | some ys => simp

theorem mapM_concat (f : α → Option β) (xs : List α) (x : α) :
    (xs ++ [x]).mapM f = (xs.mapM f).bind fun ys => (f x).map fun y => ys ++ [y] := by
  rw [List.mapM_append, List.mapM_cons, List.mapM_nil]
  cases xs.mapM f with
  | none => rfl
  | some ys =>
    cases f x with
    | none => rfl
    | some y => rfl

end Option

/-- A sequence that can only return an error returns a value through the values of its parts. -/
theorem bind_eq_ok {ε α β : Type} {x : Except ε α} {f : α → Except ε β} {b : β}
    (h : x >>= f = .ok b) : ∃ a, x = .ok a ∧ f a = .ok b := by
  cases x with
  | error e => cases h
  | ok a => exact ⟨a, rfl, h⟩

theorem mapM_eq_ok {ε α β : Type} {f : α → Except ε β} {xs : List α} {ys : List β} :
    xs.mapM f = .ok ys ↔ List.Forall₂ (fun x y => f x = .ok y) xs ys :=
  Inverts.mapM_eq_pure_iff ⟨bind_eq_ok, Except.ok.inj⟩

/-- A loop of checks that ends has passed every one of them. -/
theorem forM_eq_ok {ε α : Type} {xs : List α} {f : α → Except ε Unit} (h : xs.forM f = .ok ()) :
    ∀ x ∈ xs, f x = .ok () := by
  induction xs with
  | nil => exact fun x hx => by cases hx
  | cons x xs ih =>
    obtain ⟨u, hfirst, hrest⟩ := bind_eq_ok (x := f x) h
    exact List.forall_mem_cons.mpr ⟨hfirst, ih hrest⟩

end Keplor.Lib
