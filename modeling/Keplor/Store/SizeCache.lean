import Keplor.Lib.Int64
import Keplor.Lib.Run
import Mathlib.Logic.Function.Basic

/-!
# `KdbStore::db_size_bytes`, statement by statement

The size of the store is kept in two atomics, the size itself and the moment it was measured at. A
caller that finds the moment too long ago tries the refresh lock, and with it looks at the moment
again, walks the engines, and stores the size and then the moment. A caller that does not get the
lock takes whatever size is there. Every load, store and lock is a step of its own, the walk is one
step, and between any two of them the engines may grow or shrink. A walk may also panic, which leaves
the lock poisoned: `try_lock` then fails for good.

Both looks at the moment tell a size that was measured from the zero the store was opened with; the
caller that lost the lock does not look. So a size that is returned was measured, provided no caller
takes that way before the first size is stored (`returns_measured`).
-/

set_option autoImplicit false

namespace Keplor.Store

open Keplor.Lib

/-- `u64::saturating_add` -/
def saturatingAdd64 (a b : UInt64) : UInt64 :=
  if a.toNat + b.toNat < 2 ^ 64 then a + b else 18446744073709551615

/-- `compute_db_size`, over the `total_bytes` of the engines. -/
def computeDbSize (engineBytes : List UInt64) : UInt64 := engineBytes.foldl saturatingAdd64 0

/-- The statement of `db_size_bytes` a caller comes to next, with what it holds there. -/
inductive SizePlace where
  | idle
  /-- the walk of a store that does not cache -/
  | walkingUncached
  /-- the first look at `cached_db_size_at_ns` -/
  | loading (now : Int64)
  /-- `cached_db_size.load`, the moment being fresh -/
  | hit
  /-- `try_lock` -/
  | locking (now : Int64)
  /-- the second look, under the lock -/
  | rechecking (now : Int64)
  /-- `cached_db_size.load`, the moment being fresh by now -/
  | hitLocked
  /-- `compute_db_size` -/
  | walking (now : Int64)
  /-- `cached_db_size.store` -/
  | storing (now : Int64) (total : UInt64)
  /-- `cached_db_size_at_ns.store` -/
  | stamping (now : Int64) (total : UInt64)
  /-- the end of the function, where the guard is dropped -/
  | leaving (size : UInt64)
  /-- `cached_db_size.load`, the lock being taken -/
  | lost
  /-- a panic, on its way through the guard -/
  | unwinding
  | returned (size : UInt64)
  | dead
  deriving DecidableEq

/-- The store as its callers see it, with what was measured and returned, and whether a size was
ever stored. -/
structure SizeCache (θ : Type) where
  sizeCheckIntervalMs : UInt64
  engineBytes : List UInt64
  cachedDbSize : UInt64
  cachedDbSizeAtNs : Int64
  holder : Option θ
  poisoned : Bool
  place : θ → SizePlace
  measured : List UInt64
  returns : List UInt64
  stored : Bool

/-- A caller begins at a moment of the clock, or takes its next step, which may panic in the walk; or
appends and collections change what the engines hold. -/
inductive SizeMove (θ : Type) where
  | call (t : θ) (now : Int64)
  | go (t : θ) (panics : Bool)
  | resize (engineBytes : List UInt64)

/-- The reading of the clock that a move brings. -/
def SizeMove.reading {θ : Type} : SizeMove θ → Option Int64
  | .call _ now => some now
  | .go _ _ | .resize _ => none

namespace SizeCache

variable {θ : Type} [DecidableEq θ]

/-- The part of `KdbStore::open` that is about the size. -/
def opened (sizeCheckIntervalMs : UInt64) (engineBytes : List UInt64) : SizeCache θ where
  sizeCheckIntervalMs := sizeCheckIntervalMs
  engineBytes := engineBytes
  cachedDbSize := 0
  cachedDbSizeAtNs := 0
  holder := none
  poisoned := false
  place := fun _ => .idle
  measured := []
  returns := []
  stored := false

def goto (s : SizeCache θ) (t : θ) (p : SizePlace) : SizeCache θ :=
  { s with place := Function.update s.place t p }

def finish (s : SizeCache θ) (t : θ) (size : UInt64) : SizeCache θ :=
  { s.goto t (.returned size) with returns := s.returns ++ [size] }

/-- `interval_ns` -/
def intervalNs (s : SizeCache θ) : Int64 := saturatingMul s.sizeCheckIntervalMs.toInt64 1000000

/-- The condition of both looks at `cached_db_size_at_ns`. -/
def isFresh (s : SizeCache θ) (now : Int64) : Bool :=
  saturatingSub now s.cachedDbSizeAtNs < s.intervalNs && s.cachedDbSizeAtNs != 0

/-- A new call, by a thread that is not in one. -/
def call (s : SizeCache θ) (t : θ) (now : Int64) : SizeCache θ :=
  match s.place t with
  | .idle | .returned _ =>
    if s.sizeCheckIntervalMs = 0 then s.goto t .walkingUncached else s.goto t (.loading now)
  | _ => s

/-- The next statement of `db_size_bytes`. -/
def go (s : SizeCache θ) (t : θ) (panics : Bool) : SizeCache θ :=
  match s.place t with
  | .walkingUncached =>
    if panics then s.goto t .dead
    else
      let total := computeDbSize s.engineBytes
      { s.finish t total with measured := s.measured ++ [total] }
  | .loading now => if s.isFresh now then s.goto t .hit else s.goto t (.locking now)
  | .hit => s.finish t s.cachedDbSize
  | .locking now =>
    if s.holder.isSome || s.poisoned then s.goto t .lost
    else { s.goto t (.rechecking now) with holder := some t }
  | .rechecking now => if s.isFresh now then s.goto t .hitLocked else s.goto t (.walking now)
  | .hitLocked => s.goto t (.leaving s.cachedDbSize)
  | .walking now =>
    if panics then s.goto t .unwinding
    else
      let total := computeDbSize s.engineBytes
      { s.goto t (.storing now total) with measured := s.measured ++ [total] }
  | .storing now total =>
    { s.goto t (.stamping now total) with cachedDbSize := total, stored := true }
  | .stamping now total => { s.goto t (.leaving total) with cachedDbSizeAtNs := now }
  | .leaving size => { s.finish t size with holder := none }
  | .lost => s.finish t s.cachedDbSize
  | .unwinding => { s.goto t .dead with holder := none, poisoned := true }
  | .idle | .returned _ | .dead => s

def step (s : SizeCache θ) : SizeMove θ → SizeCache θ
  | .call t now => s.call t now
  | .go t panics => s.go t panics
  | .resize engineBytes => { s with engineBytes := engineBytes }

/-- A caller that lost the lock takes the size only after one was stored. -/
def LostAfterStore (s : SizeCache θ) : SizeMove θ → Prop
  | .go t _ => s.place t = .lost → s.stored = true
  | _ => True

instance (s : SizeCache θ) (x : SizeMove θ) : Decidable (s.LostAfterStore x) :=
  match x with
  | .go t _ => inferInstanceAs (Decidable (s.place t = .lost → s.stored = true))
  | .call _ _ | .resize _ => isTrue trivial

/-! ## The invariant -/

/-- What a caller may rely on where it is. -/
def PlaceOk (s : SizeCache θ) : SizePlace → Prop
  | .hit | .hitLocked => s.stored = true
  | .storing _ total => total ∈ s.measured
  | .stamping _ total => total ∈ s.measured ∧ s.stored = true
  | .leaving size => size ∈ s.measured
  | _ => True

structure Inv (s : SizeCache θ) : Prop where
  place : ∀ t, s.PlaceOk (s.place t)
  cached : s.stored = true → s.cachedDbSize ∈ s.measured
  stamped : s.cachedDbSizeAtNs ≠ 0 → s.stored = true
  returns : ∀ size ∈ s.returns, size ∈ s.measured

omit [DecidableEq θ] in
theorem inv_opened (sizeCheckIntervalMs : UInt64) (engineBytes : List UInt64) :
    (opened sizeCheckIntervalMs engineBytes : SizeCache θ).Inv := by
  refine ⟨fun _ => trivial, ?_, ?_, ?_⟩
  · intro h
    cases h
  · intro h
    exact absurd rfl h
  · intro size h
    cases h

section Step

variable {s : SizeCache θ} {t : θ} {p : SizePlace}

theorem place_goto (s : SizeCache θ) (t u : θ) (p : SizePlace) :
    (s.goto t p).place u = if u = t then p else s.place u := by
  unfold goto
  simp only [Function.update_apply]

omit [DecidableEq θ] in
/-- What a caller relies on stays true: nothing is forgotten that was measured or stored. -/
theorem PlaceOk.mono {s' : SizeCache θ} (hmeasured : s.measured ⊆ s'.measured)
    (hstored : s.stored = true → s'.stored = true) (h : s.PlaceOk p) : s'.PlaceOk p := by
  cases p with
  | hit => exact hstored h
  | hitLocked => exact hstored h
  | storing now total => exact hmeasured h
  | stamping now total => exact ⟨hmeasured h.1, hstored h.2⟩
  | leaving size => exact hmeasured h
  | _ => trivial

/-- A caller moves on. -/
theorem Inv.goto (h : s.Inv) (hok : s.PlaceOk p) : (s.goto t p).Inv := by
  refine ⟨fun u => ?_, h.cached, h.stamped, h.returns⟩
  show s.PlaceOk ((s.goto t p).place u)
  rw [place_goto]
  split
  · exact hok
  · exact h.place u

/-- A size that was measured may be returned. -/
theorem Inv.finish (h : s.Inv) {size : UInt64} (hsize : size ∈ s.measured) : (s.finish t size).Inv := by
  have hmoved : (s.goto t (.returned size)).Inv := h.goto trivial
  refine ⟨hmoved.place, h.cached, h.stamped, ?_⟩
  intro x hx
  rcases List.mem_append.mp hx with hx | hx
  · exact h.returns x hx
  · rwa [List.mem_singleton.mp hx]

omit [DecidableEq θ] in
theorem Inv.measure (h : s.Inv) (total : UInt64) :
    ({ s with measured := s.measured ++ [total] } : SizeCache θ).Inv := by
  have hmore : s.measured ⊆ s.measured ++ [total] := List.subset_append_left _ _
  exact ⟨fun u => (h.place u).mono hmore id, fun hs => hmore (h.cached hs), h.stamped,
    fun size hsize => hmore (h.returns size hsize)⟩

omit [DecidableEq θ] in
/-- What was measured may be stored. -/
theorem Inv.store (h : s.Inv) {total : UInt64} (htotal : total ∈ s.measured) :
    ({ s with cachedDbSize := total, stored := true } : SizeCache θ).Inv := by
  refine ⟨fun u => ?_, fun _ => htotal, fun _ => rfl, h.returns⟩
  exact PlaceOk.mono (s := s) (List.Subset.refl _) (fun _ => rfl) (h.place u)

omit [DecidableEq θ] in
theorem Inv.stamp (h : s.Inv) (hstored : s.stored = true) (now : Int64) :
    ({ s with cachedDbSizeAtNs := now } : SizeCache θ).Inv :=
  ⟨h.place, h.cached, fun _ => hstored, h.returns⟩

omit [DecidableEq θ] in
theorem Inv.lock (h : s.Inv) (holder : Option θ) (poisoned : Bool) :
    ({ s with holder := holder, poisoned := poisoned } : SizeCache θ).Inv :=
  ⟨h.place, h.cached, h.stamped, h.returns⟩

omit [DecidableEq θ] in
/-- A moment other than zero was stored after a size. -/
theorem Inv.stored_of_isFresh (h : s.Inv) {now : Int64} (hfresh : s.isFresh now = true) :
    s.stored = true := by
  unfold isFresh at hfresh
  rw [Bool.and_eq_true, bne_iff_ne] at hfresh
  exact h.stamped hfresh.2

theorem Inv.call (h : s.Inv) (t : θ) (now : Int64) : (s.call t now).Inv := by
  unfold SizeCache.call
  split
  · split
    · exact h.goto trivial
    · exact h.goto trivial
  · split
    · exact h.goto trivial
    · exact h.goto trivial
  · exact h

theorem Inv.go (h : s.Inv) {panics : Bool} (hlost : s.place t = .lost → s.stored = true) :
    (s.go t panics).Inv := by
  have hplace := h.place t
  unfold SizeCache.go
  cases hp : s.place t with
  | idle => exact h
  | returned size => exact h
  | dead => exact h
  | walkingUncached =>
    dsimp only
    split
    · exact h.goto trivial
    · exact (h.measure _).finish (List.mem_append_right _ (List.mem_singleton.mpr rfl))
  | loading now =>
    dsimp only
    split
    · rename_i hfresh
      exact h.goto (h.stored_of_isFresh hfresh)
    · exact h.goto trivial
  | hit =>
    rw [hp] at hplace
    exact h.finish (h.cached hplace)
  | locking now =>
    dsimp only
    split
    · exact h.goto trivial
    · exact (h.goto (p := .rechecking now) trivial).lock (some t) s.poisoned
  | rechecking now =>
    dsimp only
    split
    · rename_i hfresh
      exact h.goto (h.stored_of_isFresh hfresh)
    · exact h.goto trivial
  | hitLocked =>
    rw [hp] at hplace
    exact h.goto (h.cached hplace)
  | walking now =>
    dsimp only
    split
    · exact h.goto trivial
    · exact (h.measure _).goto (List.mem_append_right _ (List.mem_singleton.mpr rfl))
  | storing now total =>
    rw [hp] at hplace
    exact (h.store hplace).goto ⟨hplace, rfl⟩
  | stamping now total =>
    rw [hp] at hplace
    exact (h.stamp hplace.2 now).goto hplace.1
  | leaving size =>
    rw [hp] at hplace
    exact (h.finish hplace).lock none s.poisoned
  | lost => exact h.finish (h.cached (hlost hp))
  | unwinding => exact (h.goto (p := .dead) trivial).lock none true

theorem Inv.step (h : s.Inv) {x : SizeMove θ} (hx : s.LostAfterStore x) : (s.step x).Inv := by
  cases x with
  | call t now => exact h.call t now
  | go t panics => exact h.go hx
  | resize engineBytes => exact ⟨h.place, h.cached, h.stamped, h.returns⟩

end Step

/-- Every size returned was measured, whatever the order of the steps and whatever the clock says. -/
theorem returns_measured {sizeCheckIntervalMs : UInt64} {engineBytes : List UInt64}
    {moves : List (SizeMove θ)}
    (h : Allowed step LostAfterStore (opened sizeCheckIntervalMs engineBytes) moves) :
    ∀ size ∈ (run step (opened sizeCheckIntervalMs engineBytes) moves).returns,
      size ∈ (run step (opened sizeCheckIntervalMs engineBytes) moves).measured :=
  (run_invariant (fun _ _ hs hx => hs.step hx) (inv_opened _ _) h).returns

end SizeCache

end Keplor.Store
