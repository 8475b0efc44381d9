import Keplor.Lib.Run
import Keplor.Store.Kdb
import Mathlib.Logic.Function.Basic

/-!
# `KdbStore::engine_for`, statement by statement

Any number of threads ask for engines. A thread looks into the published map without a lock; if the
tier is not there it takes the lock, looks again, opens the engine, clones the map, inserts, and
publishes the clone. Every one of these is a step of its own here, and the threads take their steps
in any order. What `Engine::open` answers is part of the input, so that opens fail in any pattern; it
may also panic, and then the lock is left poisoned.

Only the thread that holds the lock ever publishes, and what it publishes is the map it cloned with
one more tier (`Inv.place`). So nothing that was published is lost, and a tier is opened once at
most. Done without a pause, the steps are `KdbStore.engineFor` (`engineFor_alone`).
-/

set_option autoImplicit false

namespace Keplor.Store

open Keplor.Lib

/-! ## The threads -/

/-- What `Engine::open` does when it is called. -/
inductive OpenAnswer (E : Type) where
  | opened (eng : E)
  | failed (message : String)
  | panicked

/-- Where a thread is in `engine_for`: the statement it comes to next, with what it holds there. -/
inductive Place (E : Type) where
  | idle
  /-- the first look at the map -/
  | loading (tier : String)
  /-- `insert_lock.lock()` -/
  | locking (tier : String)
  /-- the second look, under the lock -/
  | rechecking (tier : String)
  /-- `open_engine` -/
  | opening (tier : String)
  /-- clone and insert -/
  | inserting (tier : String) (eng : E)
  /-- `engines.store` -/
  | storing (tier : String) (eng : E) (newMap : String → Option E)
  /-- the end of the function, where the guard is dropped -/
  | leaving (tier : String) (result : Except StoreError E)
  /-- a panic, on its way through the guard -/
  | unwinding
  | returned (tier : String) (result : Except StoreError E)
  | dead

/-- The places under the lock. -/
def Place.Holds {E : Type} : Place E → Prop
  | rechecking _ | opening _ | inserting _ _ | storing _ _ _ | leaving _ _ | unwinding => True
  | _ => False

/-- The thread has an engine that is not published yet. -/
def Place.Carries {E : Type} (tier : String) (eng : E) : Place E → Prop
  | inserting t e => t = tier ∧ e = eng
  | storing t e _ => t = tier ∧ e = eng
  | _ => False

theorem Place.Carries.holds {E : Type} {tier : String} {eng : E} {p : Place E}
    (h : p.Carries tier eng) : p.Holds := by
  cases p <;> trivial

/-- The store as its threads see it, and the history of what was opened and returned. -/
structure EngineMap (θ E : Type) where
  published : String → Option E
  holder : Option θ
  poisoned : Bool
  place : θ → Place E
  opens : List (String × E)
  returns : List (String × Except StoreError E)

/-- What a thread can do: begin a call, or take the next step of the one it is in. The answer of
`Engine::open` matters only to a thread that comes to it. -/
inductive Move (E : Type) where
  | call (tier : String)
  | go (answer : OpenAnswer E)

/-- The text of a `PoisonError`. -/
def poisonText : String := "poisoned lock: another task failed inside"

namespace EngineMap

variable {θ E : Type} [DecidableEq θ]

/-- A store that was just opened. -/
def start (m : String → Option E) : EngineMap θ E where
  published := m
  holder := none
  poisoned := false
  place := fun _ => .idle
  opens := []
  returns := []

def goto (s : EngineMap θ E) (t : θ) (p : Place E) : EngineMap θ E :=
  { s with place := Function.update s.place t p }

def finish (s : EngineMap θ E) (t : θ) (tier : String) (result : Except StoreError E) :
    EngineMap θ E :=
  { s.goto t (.returned tier result) with returns := s.returns ++ [(tier, result)] }

def opened (s : EngineMap θ E) (tier : String) (eng : E) : EngineMap θ E :=
  { s with opens := s.opens ++ [(tier, eng)] }

/-- A new call, by a thread that is not in one. -/
def call (s : EngineMap θ E) (t : θ) (tier : String) : EngineMap θ E :=
  match s.place t with
  | .idle | .returned _ _ => s.goto t (.loading tier)
  | _ => s

/-- The next statement of `engine_for`. -/
def go (s : EngineMap θ E) (t : θ) (answer : OpenAnswer E) : EngineMap θ E :=
  match s.place t with
  | .loading tier =>
    match s.published tier with
    | some eng => s.finish t tier (.ok eng)
    | none => s.goto t (.locking tier)
  | .locking tier =>
    if s.holder.isSome then s
    else if s.poisoned then s.finish t tier (.error (.other poisonText))
    else { s.goto t (.rechecking tier) with holder := some t }
  | .rechecking tier =>
    match s.published tier with
    | some eng => s.goto t (.leaving tier (.ok eng))
    | none => s.goto t (.opening tier)
  | .opening tier =>
    match answer with
    | .opened eng => (s.opened tier eng).goto t (.inserting tier eng)
    | .failed m => s.goto t (.leaving tier (.error (.other m)))
    | .panicked => s.goto t .unwinding
  | .inserting tier eng => s.goto t (.storing tier eng (Function.update s.published tier (some eng)))
  | .storing tier eng newMap => { s.goto t (.leaving tier (.ok eng)) with published := newMap }
  | .leaving tier result => { s.finish t tier result with holder := none }
  | .unwinding => { s.goto t .dead with holder := none, poisoned := true }
  | .idle | .returned _ _ | .dead => s

def step (s : EngineMap θ E) (x : θ × Move E) : EngineMap θ E :=
  match x.2 with
  | .call tier => s.call x.1 tier
  | .go answer => s.go x.1 answer

/-! ## The invariant -/

/-- What a thread may rely on where it is. -/
def PlaceOk (s : EngineMap θ E) : Place E → Prop
  | .opening tier => s.published tier = none
  | .inserting tier eng => s.published tier = none ∧ (tier, eng) ∈ s.opens
  | .storing tier eng newMap => s.published tier = none ∧ (tier, eng) ∈ s.opens ∧
      newMap = Function.update s.published tier (some eng)
  | .leaving tier result => ∀ eng, result = .ok eng → s.published tier = some eng
  | _ => True

/-- What is true of the store in every state, counted from the map it was opened with. -/
structure Inv (m : String → Option E) (s : EngineMap θ E) : Prop where
  lock : ∀ t, s.holder = some t ↔ (s.place t).Holds
  place : ∀ t, s.PlaceOk (s.place t)
  grown : ∀ tier eng, m tier = some eng → s.published tier = some eng
  origin : ∀ tier eng, s.published tier = some eng → m tier = some eng ∨ (tier, eng) ∈ s.opens
  fresh : ∀ p ∈ s.opens, m p.1 = none
  once : (s.opens.map Prod.fst).Nodup
  known : ∀ p ∈ s.opens, s.published p.1 = some p.2 ∨ ∃ t, (s.place t).Carries p.1 p.2
  answers : ∀ tier eng, (tier, .ok eng) ∈ s.returns → s.published tier = some eng

omit [DecidableEq θ] in
theorem inv_start (m : String → Option E) : (start m : EngineMap θ E).Inv m := by
  refine ⟨?_, fun _ => trivial, fun _ _ h => h, fun _ _ h => .inl h, ?_, ?_, ?_, ?_⟩ <;>
    simp [start, Place.Holds]

section Step

variable {m : String → Option E} {s : EngineMap θ E} {t u : θ} {p : Place E}

theorem place_goto (s : EngineMap θ E) (t u : θ) (p : Place E) :
    (s.goto t p).place u = if u = t then p else s.place u := by
  unfold goto
  simp only [Function.update_apply]

omit [DecidableEq θ] in
/-- Nobody else is under the lock. -/
theorem Inv.eq_of_holds (h : s.Inv m) (ht : (s.place t).Holds) (hu : (s.place u).Holds) : u = t := by
  have hholder := (h.lock t).mpr ht
  rw [(h.lock u).mpr hu] at hholder
  exact Option.some.inj hholder

omit [DecidableEq θ] in
/-- A thread that is not under the lock relies on nothing. -/
theorem placeOk_of_not_holds (s : EngineMap θ E) (hp : ¬ p.Holds) : s.PlaceOk p := by
  cases p <;> first | trivial | exact absurd trivial hp

/-- A thread moves on, on the same side of the lock, and does not drop an engine. -/
theorem Inv.goto (h : s.Inv m) (hside : p.Holds ↔ (s.place t).Holds) (hok : s.PlaceOk p)
    (hcarry : ∀ tier eng, (s.place t).Carries tier eng → p.Carries tier eng) :
    (s.goto t p).Inv m := by
  refine ⟨fun u => ?_, fun u => ?_, h.grown, h.origin, h.fresh, h.once, fun q hq => ?_, h.answers⟩
  · rw [place_goto]
    split
    · rename_i hu
      rw [hu, hside]
      exact h.lock t
    · exact h.lock u
  · rw [place_goto]
    split
    · exact hok
    · exact h.place u
  · rcases h.known q hq with hpub | ⟨u, hu⟩
    · exact .inl hpub
    · refine .inr ⟨u, ?_⟩
      rw [place_goto]
      split
      · rename_i hut
        exact hcarry _ _ (hut ▸ hu)
      · exact hu

omit [DecidableEq θ] in
/-- A result that is a published engine, or none at all, may be returned. -/
theorem Inv.answer (h : s.Inv m) {tier : String} {result : Except StoreError E}
    (hr : ∀ eng, result = .ok eng → s.published tier = some eng) :
    ({ s with returns := s.returns ++ [(tier, result)] } : EngineMap θ E).Inv m := by
  refine ⟨h.lock, h.place, h.grown, h.origin, h.fresh, h.once, h.known, fun t e he => ?_⟩
  rcases List.mem_append.mp he with he | he
  · exact h.answers t e he
  · obtain ⟨rfl, rfl⟩ := Prod.mk.inj (List.mem_singleton.mp he)
    exact hr e rfl

theorem Inv.finish (h : s.Inv m) {tier : String} {result : Except StoreError E}
    (hout : ¬ (s.place t).Holds) (hr : ∀ eng, result = .ok eng → s.published tier = some eng) :
    (s.finish t tier result).Inv m := by
  have hmoved : (s.goto t (.returned tier result)).Inv m := by
    apply h.goto
    · exact ⟨fun h => h.elim, fun h => absurd h hout⟩
    · trivial
    · exact fun tier eng hc => absurd hc.holds hout
  exact hmoved.answer hr

/-- Taking the lock. -/
theorem Inv.acquire (h : s.Inv m) {tier : String} (hfree : s.holder = none) :
    ({ s.goto t (.rechecking tier) with holder := some t } : EngineMap θ E).Inv m := by
  have hnobody : ∀ u, ¬ (s.place u).Holds := fun u hu => by
    rw [← h.lock u, hfree] at hu
    cases hu
  refine ⟨fun u => ?_, fun u => ?_, h.grown, h.origin, h.fresh, h.once, fun q hq => ?_, h.answers⟩
  · change some t = some u ↔ ((s.goto t (.rechecking tier)).place u).Holds
    rw [place_goto]
    split
    · rename_i hu
      simp [hu, Place.Holds]
    · rename_i hu
      simp [Ne.symm hu, hnobody u]
  · change PlaceOk _ ((s.goto t (.rechecking tier)).place u)
    rw [place_goto]
    split
    · trivial
    · exact h.place u
  · rcases h.known q hq with hpub | ⟨u, hu⟩
    · exact .inl hpub
    · exact absurd hu.holds (hnobody u)

/-- Dropping the guard. -/
theorem Inv.release (h : s.Inv m) {poisoned : Bool} (hheld : (s.place t).Holds)
    (hempty : ∀ tier eng, ¬ (s.place t).Carries tier eng) (hp : ¬ p.Holds) :
    ({ s.goto t p with holder := none, poisoned := poisoned } : EngineMap θ E).Inv m := by
  refine ⟨fun u => ?_, fun u => ?_, h.grown, h.origin, h.fresh, h.once, fun q hq => ?_, h.answers⟩
  · change none = some u ↔ ((s.goto t p).place u).Holds
    rw [place_goto]
    split
    · simp [hp]
    · rename_i hu
      simp only [reduceCtorEq, false_iff]
      exact fun hholds => hu (h.eq_of_holds hheld hholds)
  · change PlaceOk _ ((s.goto t p).place u)
    rw [place_goto]
    split
    · exact placeOk_of_not_holds _ hp
    · exact h.place u
  · rcases h.known q hq with hpub | ⟨u, hu⟩
    · exact .inl hpub
    · have hut := h.eq_of_holds hheld hu.holds
      exact absurd (hut ▸ hu) (hempty _ _)

/-- Opening a tier that is not published: it was not opened before. -/
theorem Inv.opening (h : s.Inv m) {tier : String} {eng : E} (hplace : s.place t = .opening tier) :
    ((s.opened tier eng).goto t (.inserting tier eng)).Inv m := by
  have hheld : (s.place t).Holds := by rw [hplace]; trivial
  have hnone : s.published tier = none := by
    have hok := h.place t
    rwa [hplace] at hok
  have hnew : tier ∉ s.opens.map Prod.fst := by
    intro hmem
    obtain ⟨q, hq, rfl⟩ := List.mem_map.mp hmem
    rcases h.known q hq with hpub | ⟨u, hu⟩
    · rw [hnone] at hpub
      cases hpub
    · -- whoever carries it holds the lock, and so does `t`, which carries nothing
      have hut := h.eq_of_holds hheld hu.holds
      rw [hut, hplace] at hu
      exact hu
  have hothers : ∀ u, u ≠ t → ¬ (s.place u).Holds := fun u hu hholds =>
    hu (h.eq_of_holds hheld hholds)
  refine ⟨fun u => ?_, fun u => ?_, h.grown, fun t' e he => ?_, ?_, ?_, fun q hq => ?_, h.answers⟩
  · rw [place_goto]
    split
    · rename_i hu
      rw [hu]
      exact ⟨fun _ => trivial, fun _ => (h.lock t).mpr hheld⟩
    · exact h.lock u
  · rw [place_goto]
    split
    · exact ⟨hnone, List.mem_append_right _ (List.mem_singleton.mpr rfl)⟩
    · rename_i hu
      exact placeOk_of_not_holds _ (hothers u hu)
  · rcases h.origin t' e he with h₀ | hopens
    · exact .inl h₀
    · exact .inr (List.mem_append_left _ hopens)
  · intro q hq
    rcases List.mem_append.mp hq with hq | hq
    · exact h.fresh q hq
    · rw [List.mem_singleton.mp hq]
      -- the map the store was opened with is still published, and the tier is not
      cases hm : m tier with
      | none => rfl
      | some e =>
        rw [h.grown tier e hm] at hnone
        cases hnone
  · change ((s.opens ++ [(tier, eng)]).map Prod.fst).Nodup
    rw [List.map_append, List.nodup_append]
    refine ⟨h.once, by simp, ?_⟩
    intro a ha b hb hab
    have hb : b = tier := by simpa using hb
    exact hnew (hb ▸ hab ▸ ha)
  · rcases List.mem_append.mp hq with hq | hq
    · rcases h.known q hq with hpub | ⟨u, hu⟩
      · exact .inl hpub
      · have hut := h.eq_of_holds hheld hu.holds
        rw [hut, hplace] at hu
        exact hu.elim
    · rw [List.mem_singleton.mp hq]
      refine .inr ⟨t, ?_⟩
      rw [place_goto, if_pos rfl]
      exact ⟨rfl, rfl⟩

/-- Publishing the clone: one tier more, and nothing less. -/
theorem Inv.publish (h : s.Inv m) {tier : String} {eng : E} {newMap : String → Option E}
    (hplace : s.place t = .storing tier eng newMap) :
    ({ s.goto t (.leaving tier (.ok eng)) with published := newMap } : EngineMap θ E).Inv m := by
  have hheld : (s.place t).Holds := by rw [hplace]; trivial
  have hok := h.place t
  rw [hplace] at hok
  obtain ⟨hnone, hopened, rfl⟩ := hok
  -- the clone was made under this same lock, so it lacks nothing that is published now
  have hkeep : ∀ t' e, s.published t' = some e →
      Function.update s.published tier (some eng) t' = some e := by
    intro t' e he
    rw [Function.update_of_ne, he]
    rintro rfl
    rw [hnone] at he
    cases he
  have hothers : ∀ u, u ≠ t → ¬ (s.place u).Holds := fun u hu hholds =>
    hu (h.eq_of_holds hheld hholds)
  refine ⟨fun u => ?_, fun u => ?_, fun t' e he => hkeep t' e (h.grown t' e he), fun t' e he => ?_,
    h.fresh, h.once, fun q hq => ?_, fun t' e he => hkeep t' e (h.answers t' e he)⟩
  · change s.holder = some u ↔ ((s.goto t _).place u).Holds
    rw [place_goto]
    split
    · rename_i hu
      rw [hu]
      exact ⟨fun _ => trivial, fun _ => (h.lock t).mpr hheld⟩
    · exact h.lock u
  · change PlaceOk _ ((s.goto t _).place u)
    rw [place_goto]
    split
    · intro e he
      rw [← Except.ok.inj he]
      exact Function.update_self ..
    · rename_i hu
      exact placeOk_of_not_holds _ (hothers u hu)
  · -- the one new entry is the engine this thread opened
    by_cases ht : t' = tier
    · subst ht
      have hsame : some eng = some e := by rwa [← Function.update_self t' (some eng) s.published]
      rw [← Option.some.inj hsame]
      exact .inr hopened
    · have he : Function.update s.published tier (some eng) t' = some e := he
      rw [Function.update_of_ne ht] at he
      exact h.origin t' e he
  · rcases h.known q hq with hpub | ⟨u, hu⟩
    · exact .inl (hkeep _ _ hpub)
    · have hut := h.eq_of_holds hheld hu.holds
      rw [hut, hplace] at hu
      obtain ⟨rfl, rfl⟩ := hu
      exact .inl (Function.update_self ..)

/-- What a step of a thread does to the store. -/
inductive Effect (s : EngineMap θ E) (t : θ) : EngineMap θ E → Prop where
  | nothing : Effect s t s
  | outside {p : Place E} (hout : ¬ (s.place t).Holds) (hp : ¬ p.Holds) : Effect s t (s.goto t p)
  | answered {tier : String} {result : Except StoreError E} (hout : ¬ (s.place t).Holds)
      (hr : ∀ eng, result = .ok eng → s.published tier = some eng) :
      Effect s t (s.finish t tier result)
  | acquired {tier : String} (hfree : s.holder = none) :
      Effect s t { s.goto t (.rechecking tier) with holder := some t }
  | inside {p : Place E} (hheld : (s.place t).Holds) (hp : p.Holds) (hok : s.PlaceOk p)
      (hcarry : ∀ tier eng, (s.place t).Carries tier eng → p.Carries tier eng) :
      Effect s t (s.goto t p)
  | opened {tier : String} {eng : E} (hplace : s.place t = .opening tier) :
      Effect s t ((s.opened tier eng).goto t (.inserting tier eng))
  | published {tier : String} {eng : E} {newMap : String → Option E}
      (hplace : s.place t = .storing tier eng newMap) :
      Effect s t { s.goto t (.leaving tier (.ok eng)) with published := newMap }
  | released {tier : String} {result : Except StoreError E}
      (hplace : s.place t = .leaving tier result) :
      Effect s t { s.finish t tier result with holder := none }
  | poisoned (hplace : s.place t = .unwinding) :
      Effect s t { s.goto t .dead with holder := none, poisoned := true }

theorem effect_call (s : EngineMap θ E) (t : θ) (tier : String) : Effect s t (s.call t tier) := by
  unfold call
  cases hplace : s.place t with
  | idle | returned _ _ =>
    have hout : ¬ (s.place t).Holds := by rw [hplace]; exact id
    exact .outside hout id
  | _ => exact .nothing

theorem effect_go (hok : s.PlaceOk (s.place t)) (answer : OpenAnswer E) :
    Effect s t (s.go t answer) := by
  unfold go
  cases hplace : s.place t with
  | idle | returned _ _ | dead => exact .nothing
  | loading tier =>
    have hout : ¬ (s.place t).Holds := by rw [hplace]; exact id
    dsimp only
    cases hpub : s.published tier with
    | none => exact .outside hout id
    | some eng => exact .answered hout fun e he => by rw [hpub, ← Except.ok.inj he]
  | locking tier =>
    have hout : ¬ (s.place t).Holds := by rw [hplace]; exact id
    dsimp only
    split
    · exact .nothing
    · rename_i hfree
      split
      · exact .answered hout fun e he => by cases he
      · exact .acquired (Option.not_isSome_iff_eq_none.mp hfree)
  | rechecking tier =>
    have hheld : (s.place t).Holds := by rw [hplace]; trivial
    have hempty : ∀ p : Place E, ∀ tier eng, (s.place t).Carries tier eng → p.Carries tier eng := by
      rw [hplace]
      exact fun _ _ _ hc => hc.elim
    dsimp only
    cases hpub : s.published tier with
    | none => exact .inside hheld trivial hpub (hempty _)
    | some eng =>
      exact .inside hheld trivial (fun e he => by rw [hpub, ← Except.ok.inj he]) (hempty _)
  | opening tier =>
    have hheld : (s.place t).Holds := by rw [hplace]; trivial
    have hempty : ∀ p : Place E, ∀ tier eng, (s.place t).Carries tier eng → p.Carries tier eng := by
      rw [hplace]
      exact fun _ _ _ hc => hc.elim
    cases answer with
    | opened eng => exact .opened hplace
    | failed message => exact .inside hheld trivial (fun e he => by cases he) (hempty _)
    | panicked => exact .inside hheld trivial trivial (hempty _)
  | inserting tier eng =>
    have hheld : (s.place t).Holds := by rw [hplace]; trivial
    rw [hplace] at hok
    refine .inside hheld trivial ⟨hok.1, hok.2, rfl⟩ ?_
    rw [hplace]
    exact fun _ _ hc => hc
  | storing tier eng newMap => exact .published hplace
  | leaving tier result => exact .released hplace
  | unwinding => exact .poisoned hplace

theorem effect_step (h : s.Inv m) (x : θ × Move E) : Effect s x.1 (s.step x) := by
  unfold step
  cases x.2 with
  | call tier => exact effect_call s x.1 tier
  | go answer => exact effect_go (h.place x.1) answer

theorem Inv.effect (h : s.Inv m) {s' : EngineMap θ E} (heff : Effect s t s') : s'.Inv m := by
  cases heff with
  | nothing => exact h
  | outside hout hp =>
    apply h.goto
    · exact ⟨fun h => absurd h hp, fun h => absurd h hout⟩
    · exact placeOk_of_not_holds s hp
    · exact fun _ _ hc => absurd hc.holds hout
  | answered hout hr => exact h.finish hout hr
  | acquired hfree => exact h.acquire hfree
  | inside hheld hp hok hcarry => exact h.goto ⟨fun _ => hheld, fun _ => hp⟩ hok hcarry
  | opened hplace => exact h.opening hplace
  | published hplace => exact h.publish hplace
  | @released tier result hplace =>
    have hok := h.place t
    rw [hplace] at hok
    have hheld : (s.place t).Holds := by rw [hplace]; trivial
    have hreleased : ({ s.goto t (.returned tier result) with holder := none } : EngineMap θ E).Inv m :=
      h.release hheld (by rw [hplace]; exact fun _ _ hc => hc) id
    exact hreleased.answer hok
  | poisoned hplace =>
    have hheld : (s.place t).Holds := by rw [hplace]; trivial
    exact h.release hheld (by rw [hplace]; exact fun _ _ hc => hc) id

theorem inv_step (h : s.Inv m) (x : θ × Move E) : (s.step x).Inv m := h.effect (effect_step h x)

theorem inv_run (h : s.Inv m) (xs : List (θ × Move E)) : (run EngineMap.step s xs).Inv m := by
  have hstep : ∀ (s : EngineMap θ E) (x : θ × Move E), s.Inv m → (s.step x).Inv m :=
    fun _ x hs => inv_step hs x
  exact run_invariant_of_step hstep h xs

/-- A published tier stays published, with its engine. -/
theorem Inv.published_step (h : s.Inv m) (x : θ × Move E) {tier : String} {eng : E}
    (hpub : s.published tier = some eng) : (s.step x).published tier = some eng := by
  have heff := effect_step h x
  generalize s.step x = s' at heff
  cases heff with
  | @published t' e newMap hplace =>
    have hok := h.place x.1
    rw [hplace] at hok
    obtain ⟨hnone, -, rfl⟩ := hok
    change Function.update s.published t' (some e) tier = some eng
    rw [Function.update_of_ne, hpub]
    rintro rfl
    rw [hnone] at hpub
    cases hpub
  | _ => exact hpub

theorem Inv.published_run (h : s.Inv m) {tier : String} {eng : E}
    (hpub : s.published tier = some eng) (xs : List (θ × Move E)) :
    (run EngineMap.step s xs).published tier = some eng := by
  induction xs generalizing s with
  | nil => exact hpub
  | cons x xs ih => exact ih (inv_step h x) (h.published_step x hpub)

/-- While one thread holds the lock, the others change neither the map nor the lock. -/
theorem Inv.step_other (h : s.Inv m) (hheld : (s.place t).Holds) {x : θ × Move E} (hx : x.1 ≠ t) :
    (s.step x).published = s.published ∧ (s.step x).holder = s.holder ∧
      (s.step x).place t = s.place t := by
  -- a thread outside the lock can look, wait or return; it cannot take the lock, which is taken
  have hout : ¬ (s.place x.1).Holds := fun hholds => hx (h.eq_of_holds hheld hholds)
  have hframe : ∀ p, (s.goto x.1 p).place t = s.place t := fun p => by
    rw [place_goto, if_neg (Ne.symm hx)]
  have heff := effect_step h x
  generalize s.step x = s' at heff
  cases heff with
  | nothing => exact ⟨rfl, rfl, rfl⟩
  | outside _ _ => exact ⟨rfl, rfl, hframe _⟩
  | answered _ _ => exact ⟨rfl, rfl, hframe _⟩
  | acquired hfree =>
    rw [(h.lock t).mpr hheld] at hfree
    cases hfree
  | inside hheld' _ _ _ => exact absurd hheld' hout
  | opened hplace | published hplace | released hplace | poisoned hplace =>
    rw [hplace] at hout
    exact absurd trivial hout

end Step

/-! ## One engine to a tier -/

/-- A failed open, from the state it happens in on: whatever the other threads do meanwhile, the map
stays as it is, and when the thread has dropped its guard the lock is free. -/
theorem Inv.failed_open {m : String → Option E} {s : EngineMap θ E} (h : s.Inv m) {t : θ}
    {tier message : String} (hplace : s.place t = .opening tier) {xs : List (θ × Move E)}
    (hxs : ∀ x ∈ xs, x.1 ≠ t) (answer : OpenAnswer E) :
    let failed := EngineMap.step s (t, .go (.failed message))
    let later := Keplor.Lib.run EngineMap.step failed xs
    let left := EngineMap.step later (t, .go answer)
    later.published = s.published ∧ left.published = s.published ∧ left.holder = none ∧
      left.place t = .returned tier (.error (.other message)) := by
  intro failed later left
  have hfailed : failed = s.goto t (.leaving tier (.error (.other message))) := by
    change s.go t (.failed message) = _
    unfold EngineMap.go
    rw [hplace]
  -- the thread stays where it is, under the lock, and the map with it
  have hkeep : later.Inv m ∧ later.place t = .leaving tier (.error (.other message)) ∧
      later.published = s.published := by
    have hrun : ∀ (ys : List (θ × Move E)) (s' : EngineMap θ E), (∀ x ∈ ys, x.1 ≠ t) → s'.Inv m →
        s'.place t = .leaving tier (.error (.other message)) →
        (Keplor.Lib.run EngineMap.step s' ys).Inv m ∧
          (Keplor.Lib.run EngineMap.step s' ys).place t = .leaving tier (.error (.other message)) ∧
          (Keplor.Lib.run EngineMap.step s' ys).published = s'.published := by
      intro ys
      induction ys with
      | nil => exact fun s' _ hs' hp => ⟨hs', hp, rfl⟩
      | cons y ys ih =>
        intro s' hys hs' hp
        have hheld : (s'.place t).Holds := by rw [hp]; trivial
        obtain ⟨hpub, -, hpl⟩ := hs'.step_other hheld (hys y List.mem_cons_self)
        obtain ⟨hinv, hplace', hpub'⟩ := ih (s'.step y)
          (fun x hx => hys x (List.mem_cons_of_mem y hx)) (inv_step hs' y) (hpl.trans hp)
        exact ⟨hinv, hplace', hpub'.trans hpub⟩
    have hp : failed.place t = .leaving tier (.error (.other message)) := by
      rw [hfailed, place_goto, if_pos rfl]
    obtain ⟨hinv, hpl, hpub⟩ := hrun xs failed hxs (inv_step h _) hp
    refine ⟨hinv, hpl, hpub.trans ?_⟩
    rw [hfailed]
    rfl
  have hleft : left = { later.finish t tier (.error (.other message)) with holder := none } := by
    change later.go t answer = _
    unfold EngineMap.go
    rw [hkeep.2.1]
  refine ⟨hkeep.2.2, ?_, ?_, ?_⟩
  · rw [hleft]
    exact hkeep.2.2
  · rw [hleft]
  · rw [hleft]
    exact (place_goto later t t _).trans (if_pos rfl)

/-! ## A call by itself -/

/-- An answer of `Engine::open` that is a result. -/
def ofExcept : Except String E → OpenAnswer E
  | .ok eng => .opened eng
  | .error message => .failed message

/-- A call that no other thread comes between is `KdbStore.engineFor`. -/
theorem engineFor_alone {db : Keplordb} (s : KdbStore db) (t : θ) (tier : String) :
    let answer := ofExcept (db.openEngine tier)
    let after := run step (start s.get) ((t, .call tier) :: List.replicate 7 (t, .go answer))
    after.returns = [(tier, (s.engineFor tier).1)] ∧ after.published = (s.engineFor tier).2.get := by
  intro answer after
  cases hget : s.get tier with
  | some eng =>
    have hfor : s.engineFor tier = (.ok eng, s) := by simp [KdbStore.engineFor, hget]
    rw [hfor]
    simp [after, step, call, go, goto, finish, start, hget]
  | none =>
    cases hopen : db.openEngine tier with
    | error message =>
      have hfor : s.engineFor tier = (.error (.other message), s) := by
        simp [KdbStore.engineFor, hget, hopen]
      rw [hfor]
      simp [after, answer, ofExcept, hopen, step, call, go, goto, finish, start, hget]
    | ok eng =>
      have hfor : s.engineFor tier = (.ok eng, s.put tier eng) := by
        simp [KdbStore.engineFor, hget, hopen]
      have hpub : after.published = Function.update s.get tier (some eng) := by
        simp [after, answer, ofExcept, hopen, step, call, go, goto, finish, opened, start, hget]
      rw [hfor, hpub]
      refine ⟨?_, ?_⟩
      · simp [after, answer, ofExcept, hopen, step, call, go, goto, finish, opened, start, hget]
      · funext tier'
        rw [KdbStore.get_put, Function.update_apply]

end EngineMap

/-- For any number of threads, any map the store was opened with, and any interleaving of their steps
with opens that answer in any way: the open of a tier succeeds at most once, and never for a tier the
store was opened with; calls for a tier that return an engine return the same one, and it is the one
that was opened; a published tier stays published, with its engine, through every continuation; and
an open that fails leaves the map as it is and, once its call returns, the lock free, whatever the
other threads do in between. -/
theorem one_engine_per_tier (θ E : Type) [DecidableEq θ] (m : String → Option E)
    (xs : List (θ × Move E)) :
    let s := run EngineMap.step (EngineMap.start m : EngineMap θ E) xs
    (∀ tier, (s.opens.filter fun p => decide (p.1 = tier)).length ≤ 1 ∧
      ((m tier).isSome → (s.opens.filter fun p => decide (p.1 = tier)) = [])) ∧
    (∀ tier eng eng', (tier, .ok eng) ∈ s.returns → (tier, .ok eng') ∈ s.returns →
      eng = eng' ∧ (m tier = some eng ∨ (tier, eng) ∈ s.opens)) ∧
    (∀ ys tier eng, s.published tier = some eng →
      (run EngineMap.step s ys).published tier = some eng) ∧
    ∀ t tier message ys answer, s.place t = .opening tier → (∀ y ∈ ys, y.1 ≠ t) →
      let later := run EngineMap.step (EngineMap.step s (t, .go (.failed message))) ys
      let left := EngineMap.step later (t, .go answer)
      later.published = s.published ∧ left.published = s.published ∧ left.holder = none ∧
        left.place t = .returned tier (.error (.other message)) := by
  intro s
  have hinv : s.Inv m := EngineMap.inv_run (EngineMap.inv_start m) xs
  refine ⟨fun tier => ⟨?_, fun hm => ?_⟩, fun tier eng eng' h h' => ?_,
    fun ys tier eng hpub => hinv.published_run hpub ys,
    fun t tier message ys answer hplace hys => hinv.failed_open hplace hys answer⟩
  · -- entries of one tier have one first component, and these are distinct
    have hsub : ((s.opens.filter fun p => decide (p.1 = tier)).map Prod.fst).Nodup :=
      hinv.once.sublist (List.filter_sublist.map Prod.fst)
    have hconst : (s.opens.filter fun p => decide (p.1 = tier)).map Prod.fst =
        List.replicate (s.opens.filter fun p => decide (p.1 = tier)).length tier := by
      refine List.eq_replicate_iff.mpr ⟨List.length_map _, fun t ht => ?_⟩
      obtain ⟨p, hp, rfl⟩ := List.mem_map.mp ht
      exact of_decide_eq_true (List.mem_filter.mp hp).2
    rw [hconst] at hsub
    exact List.nodup_replicate.mp hsub
  · rw [List.filter_eq_nil_iff]
    intro p hp htier
    have hfresh := hinv.fresh p hp
    rw [of_decide_eq_true htier] at hfresh
    rw [hfresh] at hm
    cases hm
  · have hpub := hinv.answers tier eng h
    have hpub' := hinv.answers tier eng' h'
    rw [hpub] at hpub'
    exact ⟨Option.some.inj hpub', hinv.origin tier eng hpub⟩

end Keplor.Store
