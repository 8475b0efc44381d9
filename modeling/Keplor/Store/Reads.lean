import Keplor.Store.ArchiveCycle
import Mathlib.Tactic.FinCases

/-!
# A query, engine by engine

`KdbStore::query` lists the engines once and then asks one after the other, and the store does not
stand still meanwhile. Here a query is taken apart at that seam: `readTier` is what one turn of its
loop gets, and `readTier_spec` says what that tells about the engine at the moment it was asked.
Done without a pause, the turns are the query (`readTiers_engines`).
-/

set_option autoImplicit false

namespace Keplor.Store

open Keplor.Lib Keplor.Core

namespace KdbStore

variable {db : Keplordb}

/-- One turn of the loop of `query`. -/
def readTier (s : KdbStore db) (tf : TextFormats) (qf : QueryFilter) (limit : Nat) (tier : String) :
    Fallible StoreError (List LlmEvent) :=
  match s.get tier with
  | none => pure []
  | some eng => do
    let rows ← Fallible.ofExcept (kdbErr (db.queryRecent eng qf limit))
    rows.mapM (readRow tf)

/-- The turns for the tiers that are left. -/
def readTiers (s : KdbStore db) (tf : TextFormats) (qf : QueryFilter) (limit : Nat) :
    List String → Fallible StoreError (List LlmEvent)
  | [] => pure []
  | tier :: tiers => do
    let events ← s.readTier tf qf limit tier
    let more ← readTiers s tf qf limit tiers
    return events ++ more

variable {s : KdbStore db} {tf : TextFormats} {qf : QueryFilter} {limit : Nat}

/-- The turns together collect what `query` sorts. -/
theorem readTiers_engines (s : KdbStore db) (tf : TextFormats) (qf : QueryFilter) (limit : Nat) :
    s.readTiers tf qf limit (s.engines.map Prod.fst) = collectRecent tf qf limit s.engines := by
  have hget : ∀ p ∈ s.engines, s.get p.1 = some p.2 := fun p hp => lookup_of_mem s.nodup hp
  revert hget
  generalize s.engines = engines
  intro hget
  induction engines with
  | nil => rfl
  | cons p rest ih =>
    obtain ⟨tier, eng⟩ := p
    rw [List.map_cons, readTiers, ih fun p hp => hget p (List.mem_cons_of_mem _ hp), readTier,
      hget (tier, eng) List.mem_cons_self, collectRecent, bind_assoc]

/-- What one turn says about its engine: the events are read from rows, the rows are the newest
visible ones that the filter admits, and if there are fewer than asked for there are no others. -/
structure ReadOf (tf : TextFormats) (qf : QueryFilter) (limit : Nat) (eng : db.Engine)
    (rows rest : List LogEvent) (events : List LlmEvent) : Prop where
  perm : ((db.visible eng).filter fun r => db.admits qf r && qf.beforeCursor r).Perm (rows ++ rest)
  newest : ∀ r ∈ rows, ∀ r' ∈ rest, r'.tsNs ≤ r.tsNs
  few : rows.length ≤ limit
  all : rows.length < limit → rest = []
  read : List.Forall₂ (fun r e => fromEventRef tf r = pure e) rows events

theorem forall₂_of_mapM {rows : List LogEvent} {events : List LlmEvent}
    (h : rows.mapM (readRow tf) = pure events) :
    List.Forall₂ (fun r e => fromEventRef tf r = pure e) rows events := by
  exact (Fallible.inverts.mapM_eq_pure_iff.mp h).imp fun _ _ => fromEventRef_of_readRow

theorem readTier_spec {tier : String} {eng : db.Engine} {events : List LlmEvent}
    (hget : s.get tier = some eng) (h : s.readTier tf qf limit tier = pure events) :
    ∃ rows rest, ReadOf tf qf limit eng rows rest events := by
  rw [readTier, hget] at h
  obtain ⟨rows, hrows, hread⟩ := Fallible.bind_eq_pure h
  have hok : db.queryRecent eng qf limit = .ok rows := by
    have hkdb := Fallible.ofExcept_eq_pure hrows
    cases hq : db.queryRecent eng qf limit with
    | error m => rw [hq] at hkdb; cases hkdb
    | ok rows' => rw [hq] at hkdb; cases hkdb; rfl
  obtain ⟨rest, hperm, -, hnewest, hfew, hall⟩ := db.query_newest hok
  exact ⟨rows, rest, hperm, hnewest, hfew, hall, forall₂_of_mapM hread⟩

namespace ReadOf

variable {eng : db.Engine} {rows rest : List LogEvent} {events : List LlmEvent}

theorem length_eq (h : ReadOf tf qf limit eng rows rest events) : events.length = rows.length :=
  h.read.length_eq.symm

/-- An event that was read comes from a visible row. -/
theorem exists_row (h : ReadOf tf qf limit eng rows rest events) {e : LlmEvent} (he : e ∈ events) :
    ∃ r ∈ db.visible eng, db.admits qf r = true ∧ fromEventRef tf r = pure e := by
  obtain ⟨r, hr, hre⟩ := exists_left_of_forall₂ h.read he
  have hmem := List.mem_filter.mp (h.perm.mem_iff.mpr (List.mem_append_left rest hr))
  exact ⟨r, hmem.1, (Bool.and_eq_true _ _ ▸ hmem.2).1, hre⟩

/-- Short of the limit, every visible row that the filter admits was read. -/
theorem exists_event (h : ReadOf tf qf limit eng rows rest events) (hcursor : qf.cursor = none)
    (hshort : events.length < limit) {r : LogEvent} (hr : r ∈ db.visible eng)
    (hadmits : db.admits qf r = true) : ∃ e ∈ events, fromEventRef tf r = pure e := by
  have hrest : rest = [] := h.all (h.length_eq ▸ hshort)
  have hbefore : qf.beforeCursor r = true := by
    rw [QueryFilter.beforeCursor, hcursor]
  have hmem : r ∈ rows := by
    have := h.perm.mem_iff.mp (List.mem_filter.mpr ⟨hr, by simp [hadmits, hbefore]⟩)
    simpa [hrest] using this
  exact exists_right_of_forall₂ h.read hmem

end ReadOf

theorem mem_matchingRows {f : EventFilter} {r : LogEvent} :
    r ∈ s.matchingRows f ↔ s.Sees r ∧ db.admits (toQueryFilter f) r = true := by
  rw [matchingRows, List.mem_flatMap]
  constructor
  · rintro ⟨p, hp, hr⟩
    obtain ⟨hr, hadmits⟩ := List.mem_filter.mp hr
    exact ⟨⟨p, hp, hr⟩, hadmits⟩
  · rintro ⟨⟨p, hp, hr⟩, hadmits⟩
    exact ⟨p, hp, List.mem_filter.mpr ⟨hr, hadmits⟩⟩

/-! ## A deletion, tier by tier -/

variable {s' : KdbStore db} {ids : List String} {tier : String}

/-- An engine that shows no more than the one it replaces adds nothing to what any tier shows. -/
theorem visible_of_put {t : String} {e eng eng' : db.Engine} {r : LogEvent}
    (heng : s.get tier = some eng) (hshows : r ∈ db.visible eng' → r ∈ db.visible eng)
    (hget : (s.put tier eng').get t = some e) (hr : r ∈ db.visible e) :
    ∃ e₀, s.get t = some e₀ ∧ r ∈ db.visible e₀ := by
  rw [get_put] at hget
  split at hget
  · rename_i ht
    cases hget
    exact ⟨eng, ht ▸ heng, hshows hr⟩
  · exact ⟨e, hget, hr⟩

/-- What one turn of a deletion shows in a tier, the tier showed before. -/
theorem visible_of_deleteFrom {t : String} {e : db.Engine} {r : LogEvent}
    (hget : (s.deleteFrom ids tier).2.get t = some e) (hr : r ∈ db.visible e) :
    ∃ e₀, s.get t = some e₀ ∧ r ∈ db.visible e₀ := by
  rw [deleteFrom] at hget
  cases heng : s.get tier with
  | none =>
    rw [heng] at hget
    exact ⟨e, hget, hr⟩
  | some eng =>
    rw [heng] at hget
    exact visible_of_put heng db.delete_shows hget hr

/-- A turn that succeeds leaves none of the ids in its tier. -/
theorem id_notMem_of_deleteFrom {e : db.Engine} {r : LogEvent}
    (h : s.deleteFrom ids tier = (.ok (), s')) (hget : s'.get tier = some e)
    (hr : r ∈ db.visible e) : r.id ∉ ids := by
  rw [deleteFrom] at h
  cases heng : s.get tier with
  | none =>
    rw [heng] at h
    cases h
    rw [heng] at hget
    cases hget
  | some eng =>
    rw [heng] at h
    rcases hdel : db.deleteEvents eng ids with ⟨m | _, eng'⟩
    · simp only [hdel] at h
      cases h
    · simp only [hdel] at h
      cases h
      rw [get_put, if_pos rfl] at hget
      cases hget
      exact ((db.delete_ok hdel r).mp hr).2

/-- A turn hides nothing but the ids, and in its own tier only. -/
theorem visible_deleteFrom {t : String} {e : db.Engine} {r : LogEvent} (hget : s.get t = some e)
    (hr : r ∈ db.visible e) :
    ∃ e', (s.deleteFrom ids tier).2.get t = some e' ∧ (r ∈ db.visible e' ∨ r.id ∈ ids) := by
  rw [deleteFrom]
  cases heng : s.get tier with
  | none => exact ⟨e, hget, .inl hr⟩
  | some eng =>
    simp only [get_put]
    by_cases ht : t = tier
    · subst ht
      rw [hget] at heng
      cases heng
      exact ⟨_, if_pos rfl, db.delete_hides hr⟩
    · exact ⟨e, by rw [if_neg ht, hget], .inl hr⟩

theorem mem_tiers_of_get {t : String} {e : db.Engine} (h : s.get t = some e) :
    t ∈ s.engines.map Prod.fst :=
  List.mem_map_of_mem (mem_of_lookup h)

end KdbStore

/-! ## Rows and events -/

/-- The row was written for an event, the one with its id. -/
def WrittenRow (tf : TextFormats) (eventOf : EventId → LlmEvent) (r : LogEvent) : Prop :=
  ∃ id, (eventOf id).id = id ∧ r = toLogEvent tf (eventOf id)

section WrittenRow

variable {tf : TextFormats} {eventOf : EventId → LlmEvent} {r r' : LogEvent}

theorem print_injective {id id' : EventId} (h : tf.ulid.print id = tf.ulid.print id') : id = id' := by
  have hparse := congrArg tf.ulid.parse h
  rw [tf.ulid.parse_print, tf.ulid.parse_print] at hparse
  exact Option.some.inj hparse

theorem WrittenRow.id_eq {id : EventId} (hid : (eventOf id).id = id) :
    (toLogEvent tf (eventOf id)).id = tf.ulid.print id := by
  show tf.ulid.print (eventOf id).id = tf.ulid.print id
  rw [hid]

/-- There is one row to an id. -/
theorem WrittenRow.eq_of_id (h : WrittenRow tf eventOf r) (h' : WrittenRow tf eventOf r')
    (hid : r.id = r'.id) : r = r' := by
  obtain ⟨id, hown, rfl⟩ := h
  obtain ⟨id', hown', rfl⟩ := h'
  rw [WrittenRow.id_eq hown, WrittenRow.id_eq hown'] at hid
  rw [print_injective hid]

/-- The event read from a written row has the row's id. -/
theorem WrittenRow.print_id (h : WrittenRow tf eventOf r) {e : LlmEvent}
    (he : fromEventRef tf r = pure e) : tf.ulid.print e.id = r.id := by
  obtain ⟨id, hown, rfl⟩ := h
  have hparse := (fields_of_fromEventRef he).1
  rw [WrittenRow.id_eq hown, tf.ulid.parse_print] at hparse
  rw [WrittenRow.id_eq hown, Option.some.inj hparse]

end WrittenRow

/-- The column of an event's user. -/
theorem dims_user_toLogEvent (tf : TextFormats) (e : LlmEvent) :
    (toLogEvent tf e).dims DIM_USER_ID = e.userId.getD "" := rfl

/-- A filter for a user admits the rows of that user and no others. -/
theorem admits_user_iff {db : Keplordb} (hdoc : db.FiltersAsDocumented) (user : String)
    (r : LogEvent) : db.admits (buildQueryFilter { userId := some user } none) r = true ↔
      r.dims DIM_USER_ID = user := by
  have hdims : ∀ i, i ≠ DIM_USER_ID →
      (buildQueryFilter { userId := some user } none).dims i = none := by
    intro i hi
    fin_cases i
    · exact absurd rfl hi
    all_goals rfl
  rw [hdoc, MemoryEngine.admits]
  simp only [Bool.and_eq_true, List.all_eq_true, List.mem_finRange, forall_const]
  constructor
  · intro h
    have hall := h.1.1.1.1 DIM_USER_ID
    exact (beq_iff_eq.mp hall).symm
  · intro h
    refine ⟨⟨⟨⟨fun i => ?_, rfl⟩, rfl⟩, rfl⟩, rfl⟩
    by_cases hi : i = DIM_USER_ID
    · subst hi
      exact beq_iff_eq.mpr h.symm
    · rw [hdims i hi]
      rfl

end Keplor.Store
