import Keplor.Lib.Grouping
import Keplor.Store.Error
import Keplor.Store.Mapping

/-!
# `keplor-store/src/kdb_store.rs` — one engine per tier

The engine itself is another crate. `Keplordb` is that crate as the store sees it: a type of engines,
what can be observed of one, the operations the store calls, and for each operation what its
documentation promises. An operation that fails may still have had part of its effect, so each one
returns an engine together with its result, and the promises say which part.

A `KdbStore` is the published map from tier names to engines, as a list in the order it is iterated.
Everything the store does to its engines goes through `put`, so a property of every engine is kept
when each operation keeps it (`Drops` is the first such property: segments go, but only old ones).
-/

set_option autoImplicit false

namespace Keplor.Store

open Keplor.Lib Keplor.Core

/-! ## The engine -/

/-- `keplordb::QueryFilter<D>` -/
structure QueryFilter where
  dims : Fin D → Option String
  fromTsNs : Option Int64
  toTsNs : Option Int64
  statusMin : Option UInt16
  statusMax : Option UInt16
  cursor : Option Int64

/-- `QueryFilter::default` -/
def QueryFilter.empty : QueryFilter := ⟨fun _ => none, none, none, none, none, none⟩

/-- A cursor restricts to older rows. -/
def QueryFilter.beforeCursor (qf : QueryFilter) (r : LogEvent) : Bool :=
  match qf.cursor with
  | none => true
  | some c => decide (r.tsNs < c)

/-- `keplordb`, as far as the store uses it. -/
structure Keplordb where
  Engine : Type
  /-- `Engine::open` on a tier's directory -/
  openEngine : String → Except String Engine
  /-- the rows an engine keeps -/
  stored : Engine → List LogEvent
  /-- the rows a query can see -/
  visible : Engine → List LogEvent
  /-- the rows by segment -/
  segments : Engine → List (List LogEvent)
  appendBatchDurable : Engine → List LogEvent → Except String Unit × Engine
  /-- all rows of a call are stored -/
  append_ok : ∀ {e e' rows}, appendBatchDurable e rows = (.ok (), e') →
    (stored e').Perm (stored e ++ rows)
  /-- or none -/
  append_error : ∀ {e e' rows m}, appendBatchDurable e rows = (.error m, e') → stored e' = stored e
  gc : Engine → Int64 → Except String Nat × Engine
  /-- only segments with no row at or above the cutoff are dropped -/
  gc_drops : ∀ e c, ∃ dropped, (segments e).Perm (segments (gc e c).2 ++ dropped) ∧
    ∀ seg ∈ dropped, ∀ r ∈ seg, r.tsNs < c
  deleteEvents : Engine → List String → Except String Unit × Engine
  /-- nothing but the given ids is hidden -/
  delete_hides : ∀ {e ids r}, r ∈ visible e → r ∈ visible (deleteEvents e ids).2 ∨ r.id ∈ ids
  /-- nothing is shown that was not visible -/
  delete_shows : ∀ {e ids r}, r ∈ visible (deleteEvents e ids).2 → r ∈ visible e
  /-- and all of them are, once the call returns -/
  delete_ok : ∀ {e e' ids}, deleteEvents e ids = (.ok (), e') →
    ∀ r, r ∈ visible e' ↔ r ∈ visible e ∧ r.id ∉ ids
  /-- whether a row satisfies a filter, its cursor aside -/
  admits : QueryFilter → LogEvent → Bool
  admits_cursor : ∀ qf c r, admits { qf with cursor := c } r = admits qf r
  queryRecent : Engine → QueryFilter → Nat → Except String (List LogEvent)
  /-- the newest matching rows, newest first, up to the limit -/
  query_newest : ∀ {e qf n rows}, queryRecent e qf n = .ok rows →
    ∃ rest, ((visible e).filter fun r => admits qf r && qf.beforeCursor r).Perm (rows ++ rest) ∧
      rows.Pairwise (fun a b => b.tsNs ≤ a.tsNs) ∧ (∀ a ∈ rows, ∀ b ∈ rest, b.tsNs ≤ a.tsNs) ∧
      rows.length ≤ n ∧ (rows.length < n → rest = [])

/-! ## The map of engines -/

/-- `KdbStore`: the published engine map, one engine to a tier. -/
structure KdbStore (db : Keplordb) where
  engines : List (String × db.Engine)
  nodup : (engines.map Prod.fst).Nodup := by simp

/-- `kdb_err` -/
def kdbErr {α : Type} (x : Except String α) : Except StoreError α := x.mapError .other

theorem kdbErr_eq_ok {α : Type} {x : Except String α} {a : α} : kdbErr x = .ok a ↔ x = .ok a := by
  cases x with
  | error m => exact iff_of_false (fun h => by cases h) fun h => by cases h
  | ok b => exact ⟨fun h => congrArg _ (Except.ok.inj h), fun h => congrArg _ (Except.ok.inj h)⟩

namespace KdbStore

variable {db : Keplordb}

/-- The engine of a tier. -/
def get (s : KdbStore db) (tier : String) : Option db.Engine := s.engines.lookup tier

/-- The engine list with the engine of a tier replaced, or a new one at the end. -/
def putEngine (l : List (String × db.Engine)) (tier : String) (e : db.Engine) :
    List (String × db.Engine) :=
  if (l.lookup tier).isSome then l.map fun p => if p.1 = tier then (tier, e) else p
  else l ++ [(tier, e)]

theorem nodup_putEngine {l : List (String × db.Engine)} (h : (l.map Prod.fst).Nodup) (tier : String)
    (e : db.Engine) : ((putEngine l tier e).map Prod.fst).Nodup := by
  rw [putEngine]
  split
  · have hkeys : (l.map fun p => if p.1 = tier then (tier, e) else p).map Prod.fst = l.map Prod.fst := by
      rw [List.map_map]
      refine List.map_congr_left fun p _ => ?_
      by_cases hp : p.1 = tier <;> simp [hp]
    rwa [hkeys]
  · rename_i hnone
    rw [List.map_append, List.nodup_append]
    refine ⟨h, by simp, ?_⟩
    intro t ht t' ht' heq
    simp only [List.map_cons, List.map_nil, List.mem_singleton] at ht'
    obtain ⟨p, hp, rfl⟩ := List.mem_map.mp ht
    refine hnone ?_
    rw [List.lookup_isSome_iff]
    exact ⟨p, hp, by simp [← ht', heq]⟩

/-- Replace the engine of a tier, or publish a new one. -/
def put (s : KdbStore db) (tier : String) (e : db.Engine) : KdbStore db :=
  ⟨putEngine s.engines tier e, nodup_putEngine s.nodup tier e⟩

/-- `KdbStore::engine_for`: opened on first use. -/
def engineFor (s : KdbStore db) (tier : String) : Except StoreError db.Engine × KdbStore db :=
  match s.get tier with
  | some e => (.ok e, s)
  | none =>
    match db.openEngine tier with
    | .error m => (.error (.other m), s)
    | .ok e => (.ok e, s.put tier e)

theorem lookup_map_replace {β : Type} (l : List (String × β)) (tier : String) (b : β) (t : String) :
    (l.map fun p => if p.1 = tier then (tier, b) else p).lookup t =
      if t = tier ∧ (l.lookup tier).isSome then some b else l.lookup t := by
  induction l with
  | nil => simp
  | cons p l ih =>
    obtain ⟨k, v⟩ := p
    rw [List.map_cons]
    by_cases hk : k = tier
    · subst hk
      by_cases ht : t = k
      · subst ht
        simp
      · have hbeq : (t == k) = false := beq_false_of_ne ht
        simp only [if_true, List.lookup_cons, hbeq, ih]
        simp [ht]
    · by_cases ht : t = k
      · subst ht
        simp [hk]
      · have hbeq : (t == k) = false := beq_false_of_ne ht
        have hbeq' : (tier == k) = false := beq_false_of_ne (Ne.symm hk)
        simp only [hk, if_false, List.lookup_cons, hbeq, hbeq', ih]

/-- A published engine is found under its tier, and no other tier is affected. -/
@[simp] theorem get_put (s : KdbStore db) (tier : String) (e : db.Engine) (t : String) :
    (s.put tier e).get t = if t = tier then some e else s.get t := by
  change (putEngine s.engines tier e).lookup t = _
  rw [putEngine]
  split
  · rename_i hs
    rw [lookup_map_replace, hs]
    simp [get]
  · rename_i hs
    have hnone : s.engines.lookup tier = none := Option.not_isSome_iff_eq_none.mp hs
    simp only [get, List.lookup_append]
    by_cases ht : t = tier
    · subst ht
      simp [hnone]
    · have hbeq : (t == tier) = false := beq_false_of_ne ht
      simp only [List.lookup_cons, hbeq, List.lookup_nil, Option.or_none, if_neg ht]

/-- Some engine of the store shows the row. -/
def Sees (s : KdbStore db) (r : LogEvent) : Prop := ∃ p ∈ s.engines, r ∈ db.visible p.2

theorem sees_iff {s : KdbStore db} {r : LogEvent} :
    s.Sees r ↔ ∃ t e, s.get t = some e ∧ r ∈ db.visible e := by
  constructor
  · rintro ⟨⟨t, e⟩, hmem, hr⟩
    exact ⟨t, e, lookup_of_mem s.nodup hmem, hr⟩
  · rintro ⟨t, e, hget, hr⟩
    exact ⟨(t, e), mem_of_lookup hget, hr⟩

/-- Opening a tier leaves the published engines alone. -/
theorem get_engineFor {s : KdbStore db} {t : String} {e : db.Engine} (h : s.get t = some e)
    (tier : String) : (s.engineFor tier).2.get t = some e := by
  rw [engineFor]
  cases hs : s.get tier with
  | some _ => exact h
  | none =>
    have hne : t ≠ tier := by
      rintro rfl
      rw [h] at hs
      cases hs
    cases db.openEngine tier with
    | error m => exact h
    | ok e' => simp [hne, h]

/-- An engine that was handed out is the published one. -/
theorem get_of_engineFor {s s' : KdbStore db} {tier : String} {e : db.Engine}
    (h : s.engineFor tier = (.ok e, s')) : s'.get tier = some e := by
  rw [engineFor] at h
  cases hs : s.get tier with
  | some _ =>
    rw [hs] at h
    cases h
    exact hs
  | none =>
    rw [hs] at h
    cases ho : db.openEngine tier with
    | error m => rw [ho] at h; cases h
    | ok e' =>
      rw [ho] at h
      cases h
      simp

/-! ## Garbage collection -/

/-- `KdbStore::gc_tier`; the count is of segments. -/
def gcTier (s : KdbStore db) (tier : String) (olderThanNs : Int64) :
    Except StoreError Nat × KdbStore db :=
  match s.engineFor tier with
  | (.error e, s) => (.error e, s)
  | (.ok eng, s) =>
    let r := db.gc eng olderThanNs
    (kdbErr r.1, s.put tier r.2)

/-- `KdbStore::gc_expired` over the engines still to come; the first failure ends it. -/
def gcEngines (olderThanNs : Int64) :
    List (String × db.Engine) → Except StoreError Nat × List (String × db.Engine)
  | [] => (.ok 0, [])
  | (tier, eng) :: rest =>
    match db.gc eng olderThanNs with
    | (.error m, eng') => (.error (.other m), (tier, eng') :: rest)
    | (.ok n, eng') =>
      let r := gcEngines olderThanNs rest
      (r.1.map (n + ·), (tier, eng') :: r.2)

theorem keys_gcEngines (olderThanNs : Int64) (l : List (String × db.Engine)) :
    (gcEngines olderThanNs l).2.map Prod.fst = l.map Prod.fst := by
  induction l with
  | nil => rfl
  | cons p rest ih =>
    obtain ⟨tier, eng⟩ := p
    rw [gcEngines]
    match db.gc eng olderThanNs with
    | (.error m, eng') => rfl
    | (.ok n, eng') => simp only [List.map_cons, ih]

/-- `KdbStore::gc_expired` -/
def gcExpired (s : KdbStore db) (olderThanNs : Int64) : Except StoreError Nat × KdbStore db :=
  let r := gcEngines olderThanNs s.engines
  (r.1, ⟨r.2, (keys_gcEngines olderThanNs s.engines).symm ▸ s.nodup⟩)

/-- One engine became another by losing segments, all of whose rows are `old`. -/
def EngineDrops (old : LogEvent → Prop) (e e' : db.Engine) : Prop :=
  ∃ dropped, (db.segments e).Perm (db.segments e' ++ dropped) ∧ ∀ seg ∈ dropped, ∀ r ∈ seg, old r

/-- Every published engine stays published and loses nothing but `old` segments. -/
def Drops (old : String → LogEvent → Prop) (s s' : KdbStore db) : Prop :=
  ∀ tier e, s.get tier = some e → ∃ e', s'.get tier = some e' ∧ EngineDrops (old tier) e e'

theorem EngineDrops.refl (old : LogEvent → Prop) (e : db.Engine) : EngineDrops old e e :=
  ⟨[], by simp, by simp⟩

theorem Drops.refl (old : String → LogEvent → Prop) (s : KdbStore db) : Drops old s s :=
  fun tier e h => ⟨e, h, EngineDrops.refl (old tier) e⟩

theorem Drops.trans {old : String → LogEvent → Prop} {s₁ s₂ s₃ : KdbStore db} (h₁ : Drops old s₁ s₂)
    (h₂ : Drops old s₂ s₃) : Drops old s₁ s₃ := by
  intro tier e he
  obtain ⟨e₂, he₂, d₁, hp₁, ho₁⟩ := h₁ tier e he
  obtain ⟨e₃, he₃, d₂, hp₂, ho₂⟩ := h₂ tier e₂ he₂
  refine ⟨e₃, he₃, d₂ ++ d₁, ?_, ?_⟩
  · rw [← List.append_assoc]
    exact hp₁.trans (hp₂.append_right d₁)
  · intro seg hseg
    rcases List.mem_append.mp hseg with h | h
    · exact ho₂ seg h
    · exact ho₁ seg h

theorem Drops.mono {old old' : String → LogEvent → Prop} {s s' : KdbStore db} (h : Drops old s s')
    (himp : ∀ tier r, old tier r → old' tier r) : Drops old' s s' := by
  intro tier e he
  obtain ⟨e', he', d, hp, ho⟩ := h tier e he
  exact ⟨e', he', d, hp, fun seg hseg r hr => himp tier r (ho seg hseg r hr)⟩

/-- A collected tier loses only segments below the cutoff; the others lose nothing. -/
theorem gcTier_drops (s : KdbStore db) (tier : String) (c : Int64) :
    Drops (fun t r => t = tier ∧ r.tsNs < c) s (s.gcTier tier c).2 := by
  intro t e he
  have hkeep := get_engineFor he tier
  rw [gcTier]
  match hf : s.engineFor tier with
  | (.error m, s') =>
    rw [hf] at hkeep
    exact ⟨e, hkeep, EngineDrops.refl _ e⟩
  | (.ok eng, s') =>
    rw [hf] at hkeep
    by_cases ht : t = tier
    · subst ht
      have heng := get_of_engineFor hf
      rw [hkeep] at heng
      cases heng
      obtain ⟨d, hp, ho⟩ := db.gc_drops e c
      exact ⟨(db.gc e c).2, by simp, d, hp, fun seg hseg r hr => ⟨rfl, ho seg hseg r hr⟩⟩
    · exact ⟨e, by simpa [ht] using hkeep, EngineDrops.refl _ e⟩

theorem gcEngines_drops (c : Int64) (l : List (String × db.Engine)) {tier : String} {e : db.Engine}
    (h : l.lookup tier = some e) : ∃ e', (gcEngines c l).2.lookup tier = some e' ∧
      EngineDrops (fun r => r.tsNs < c) e e' := by
  induction l with
  | nil => cases h
  | cons p l ih =>
    obtain ⟨k, eng⟩ := p
    have hgc : EngineDrops (fun r => r.tsNs < c) eng (db.gc eng c).2 := db.gc_drops eng c
    rw [gcEngines]
    by_cases ht : tier = k
    · subst ht
      simp only [List.lookup_cons, beq_self_eq_true, Option.some.injEq] at h
      subst h
      match hg : db.gc eng c with
      | (.error m, eng') => exact ⟨eng', by simp, by rwa [hg] at hgc⟩
      | (.ok n, eng') => exact ⟨eng', by simp, by rwa [hg] at hgc⟩
    · have hbeq : (tier == k) = false := beq_false_of_ne ht
      rw [List.lookup_cons, hbeq] at h
      match hg : db.gc eng c with
      | (.error m, eng') => exact ⟨e, by simpa [List.lookup_cons, hbeq] using h, EngineDrops.refl _ e⟩
      | (.ok n, eng') =>
        obtain ⟨e', he', hd⟩ := ih h
        exact ⟨e', by simpa [List.lookup_cons, hbeq] using he', hd⟩

/-- A global collection loses only segments below the cutoff. -/
theorem gcExpired_drops (s : KdbStore db) (c : Int64) :
    Drops (fun _ r => r.tsNs < c) s (s.gcExpired c).2 :=
  fun _ _ he => gcEngines_drops c s.engines he

end KdbStore

end Keplor.Store
