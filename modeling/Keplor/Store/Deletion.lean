import Keplor.Store.Reads
import Mathlib.Logic.Function.Iterate

/-!
# `KdbStore::get_event` and the deletions

`get_event` asks the engines for an id, one after the other. `delete_event` does the same and leaves
a tombstone wherever it finds the event; `delete_events_by_ids` hands every engine the whole list
and does not ask. Both list the engines once and go through them while the store is in use, so a call
is taken apart where it lets go of the store: `DeleteRun.advance` is what it does between two such
points. Done without a pause, these are the source's functions (`iterate_deleteEvent`,
`iterate_deleteEventsByIds`).
-/

set_option autoImplicit false

namespace Keplor.Store

open Keplor.Lib Keplor.Core

/-- `Engine::get_event` and `Engine::delete_event`. Like a query, they see rotated segments only. -/
structure PointAccess (db : Keplordb) where
  getEvent : db.Engine → String → Except String (Option LogEvent)
  /-- what is found is visible and has the id -/
  get_some : ∀ {e id r}, getEvent e id = .ok (some r) → r ∈ db.visible e ∧ r.id = id
  deleteEvent : db.Engine → String → Except String Unit × db.Engine
  /-- nothing is shown that was not visible -/
  delete_shows : ∀ {e id r}, r ∈ db.visible (deleteEvent e id).2 → r ∈ db.visible e
  /-- and the id is hidden once the call returns -/
  delete_ok : ∀ {e e' id}, deleteEvent e id = (.ok (), e') → ∀ r ∈ db.visible e', r.id ≠ id

namespace KdbStore

variable {db : Keplordb}

/-- The loop of `get_event`. -/
def getEventFrom (pt : PointAccess db) (tf : TextFormats) (id : String) :
    List (String × db.Engine) → Fallible StoreError (Option LlmEvent)
  | [] => pure none
  | (_, eng) :: rest => do
    let found ← Fallible.ofExcept (kdbErr (pt.getEvent eng id))
    match found with
    | some r => do
      let e ← readRow tf r
      return some e
    | none => getEventFrom pt tf id rest

/-- `KdbStore::get_event` -/
def getEvent (s : KdbStore db) (pt : PointAccess db) (tf : TextFormats) (id : EventId) :
    Fallible StoreError (Option LlmEvent) :=
  getEventFrom pt tf (tf.ulid.print id) s.engines

/-- The first half of a turn of `delete_event`: is the event there? -/
def lookIn (s : KdbStore db) (pt : PointAccess db) (id tier : String) :
    Except StoreError (Option LogEvent) :=
  match s.get tier with
  | none => .ok none
  | some eng => kdbErr (pt.getEvent eng id)

/-- The second half: the tombstone. -/
def deleteIn (s : KdbStore db) (pt : PointAccess db) (id tier : String) :
    Except StoreError Unit × KdbStore db :=
  match s.get tier with
  | none => (.ok (), s)
  | some eng =>
    let r := pt.deleteEvent eng id
    (kdbErr r.1, s.put tier r.2)

/-- The loop of `delete_event`. -/
def deleteEventIn (pt : PointAccess db) (id : String) :
    List String → Bool → KdbStore db → Except StoreError Bool × KdbStore db
  | [], existed, s => (.ok existed, s)
  | tier :: tiers, existed, s =>
    match s.lookIn pt id tier with
    | .error e => (.error e, s)
    | .ok none => deleteEventIn pt id tiers existed s
    | .ok (some _) =>
      match s.deleteIn pt id tier with
      | (.error e, s) => (.error e, s)
      | (.ok (), s) => deleteEventIn pt id tiers true s

/-- `KdbStore::delete_event` -/
def deleteEvent (s : KdbStore db) (pt : PointAccess db) (tf : TextFormats) (id : EventId) :
    Except StoreError Bool × KdbStore db :=
  deleteEventIn pt (tf.ulid.print id) (s.engines.map Prod.fst) false s

variable {s s' : KdbStore db} {pt : PointAccess db} {tf : TextFormats} {id tier : String}

/-- An event that is returned comes from a visible row with the id. -/
theorem exists_row_of_getEventFrom {engines : List (String × db.Engine)} {e : LlmEvent}
    (h : getEventFrom pt tf id engines = pure (some e)) :
    ∃ p ∈ engines, ∃ r ∈ db.visible p.2, r.id = id := by
  induction engines with
  | nil =>
    rw [getEventFrom] at h
    cases Fallible.pure_inj h
  | cons p rest ih =>
    obtain ⟨t, eng⟩ := p
    rw [getEventFrom] at h
    obtain ⟨found, hfound, h⟩ := Fallible.bind_eq_pure h
    cases found with
    | none =>
      obtain ⟨p, hp, hr⟩ := ih h
      exact ⟨p, List.mem_cons_of_mem _ hp, hr⟩
    | some r =>
      have hkdb := Fallible.ofExcept_eq_pure hfound
      cases hget : pt.getEvent eng id with
      | error m => rw [hget] at hkdb; cases hkdb
      | ok found' =>
        rw [hget] at hkdb
        cases hkdb
        exact ⟨(t, eng), List.mem_cons_self, r, pt.get_some hget⟩

theorem exists_row_of_getEvent {id : EventId} {e : LlmEvent}
    (h : s.getEvent pt tf id = pure (some e)) : ∃ r, s.Sees r ∧ r.id = tf.ulid.print id := by
  obtain ⟨p, hp, r, hr, hid⟩ := exists_row_of_getEventFrom h
  exact ⟨r, ⟨p, hp, hr⟩, hid⟩

/-- What the first half finds is there. -/
theorem visible_of_lookIn {r : LogEvent} (h : s.lookIn pt id tier = .ok (some r)) :
    ∃ e, s.get tier = some e ∧ r ∈ db.visible e ∧ r.id = id := by
  rw [lookIn] at h
  cases heng : s.get tier with
  | none => rw [heng] at h; cases h
  | some eng =>
    rw [heng] at h
    cases hget : pt.getEvent eng id with
    | error m => simp only [hget] at h; cases h
    | ok found =>
      simp only [hget] at h
      cases h
      exact ⟨eng, rfl, pt.get_some hget⟩

/-- What the second half shows in a tier, the tier showed before. -/
theorem visible_of_deleteIn {t : String} {e : db.Engine} {r : LogEvent}
    (hget : (s.deleteIn pt id tier).2.get t = some e) (hr : r ∈ db.visible e) :
    ∃ e₀, s.get t = some e₀ ∧ r ∈ db.visible e₀ := by
  rw [deleteIn] at hget
  cases heng : s.get tier with
  | none =>
    rw [heng] at hget
    exact ⟨e, hget, hr⟩
  | some eng =>
    rw [heng] at hget
    exact visible_of_put heng pt.delete_shows hget hr

/-- Where it succeeds, the id is not shown any more. -/
theorem id_ne_of_deleteIn {e : db.Engine} {r : LogEvent} (h : s.deleteIn pt id tier = (.ok (), s'))
    (hget : s'.get tier = some e) (hr : r ∈ db.visible e) : r.id ≠ id := by
  rw [deleteIn] at h
  cases heng : s.get tier with
  | none =>
    rw [heng] at h
    cases h
    rw [heng] at hget
    cases hget
  | some eng =>
    rw [heng] at h
    rcases hdel : pt.deleteEvent eng id with ⟨m | _, eng'⟩
    · simp only [hdel] at h
      cases h
    · simp only [hdel] at h
      cases h
      rw [get_put, if_pos rfl] at hget
      cases hget
      exact pt.delete_ok hdel r hr

end KdbStore

/-! ## A call, point by point -/

/-- The two deletions. -/
inductive DeleteCall where
  | event (id : EventId)
  | byIds (ids : List EventId)

/-- What they return. -/
inductive DeleteAnswer where
  | existed (b : Bool)
  | count (n : Nat)

/-- Where a call is. -/
inductive DeleteStage where
  /-- about to turn to the next of the engines that are left -/
  | turns (tiers : List String) (existed : Bool)
  /-- `delete_event`, about to delete what it found -/
  | found (tier : String) (tiers : List String)
  | done (result : Except StoreError DeleteAnswer)

/-- A call. Next to what the code keeps, the ids that the store had shown when the call began. -/
structure DeleteRun where
  call : DeleteCall
  shown : List String
  stage : DeleteStage

namespace DeleteRun

variable {db : Keplordb}

/-- A call begins by listing the engines. -/
def begin (call : DeleteCall) (shown : List String) (s : KdbStore db) : DeleteRun where
  call := call
  shown := shown
  stage :=
    match call with
    | .event _ => .turns (s.engines.map Prod.fst) false
    | .byIds ids => .turns (s.deleteScope ids) false

/-- The next stage of a call, and the store. -/
def advance (pt : PointAccess db) (tf : TextFormats) (c : DeleteRun) (s : KdbStore db) :
    DeleteStage × KdbStore db :=
  match c.call, c.stage with
  | .event _, .turns [] existed => (.done (.ok (.existed existed)), s)
  | .event id, .turns (tier :: tiers) existed =>
    match s.lookIn pt (tf.ulid.print id) tier with
    | .error e => (.done (.error e), s)
    | .ok none => (.turns tiers existed, s)
    | .ok (some _) => (.found tier tiers, s)
  | .event id, .found tier tiers =>
    match s.deleteIn pt (tf.ulid.print id) tier with
    | (.error e, s) => (.done (.error e), s)
    | (.ok (), s) => (.turns tiers true, s)
  | .byIds ids, .turns [] _ => (.done (.ok (.count ids.length)), s)
  | .byIds ids, .turns (tier :: tiers) existed =>
    match s.deleteFrom (ids.map tf.ulid.print) tier with
    | (.error e, s) => (.done (.error e), s)
    | (.ok (), s) => (.turns tiers existed, s)
  | _, stage => (stage, s)

/-- The call and the store after that. -/
def move (pt : PointAccess db) (tf : TextFormats) (p : DeleteRun × KdbStore db) :
    DeleteRun × KdbStore db :=
  let r := p.1.advance pt tf p.2
  ({ p.1 with stage := r.1 }, r.2)

section Source

variable (pt : PointAccess db) (tf : TextFormats) (shown : List String)

/-- The loop of `delete_event`, from any point of it. -/
theorem iterate_deleteEventIn (id : EventId) (tiers : List String) :
    ∀ (existed : Bool) (s : KdbStore db), ∃ n,
      let r := KdbStore.deleteEventIn pt (tf.ulid.print id) tiers existed s
      (move pt tf)^[n] (⟨.event id, shown, .turns tiers existed⟩, s)
        = (⟨.event id, shown, .done (r.1.map .existed)⟩, r.2) := by
  induction tiers with
  | nil => exact fun existed s => ⟨1, rfl⟩
  | cons tier tiers ih =>
    intro existed s
    rw [KdbStore.deleteEventIn]
    rcases hlook : s.lookIn pt (tf.ulid.print id) tier with e | _ | r
    · refine ⟨1, ?_⟩
      simp only [Function.iterate_one, move, advance, hlook]
      rfl
    · obtain ⟨n, hn⟩ := ih existed s
      refine ⟨n + 1, ?_⟩
      rw [Function.iterate_succ_apply]
      simp only [move, advance, hlook]
      exact hn
    · have hfound : move pt tf (⟨.event id, shown, .turns (tier :: tiers) existed⟩, s)
          = (⟨.event id, shown, .found tier tiers⟩, s) := by
        simp only [move, advance, hlook]
      rcases hdel : s.deleteIn pt (tf.ulid.print id) tier with ⟨e | _, s'⟩
      · refine ⟨2, ?_⟩
        rw [Function.iterate_succ_apply, hfound]
        simp only [Function.iterate_one, move, advance, hdel]
        rfl
      · obtain ⟨n, hn⟩ := ih true s'
        refine ⟨n + 2, ?_⟩
        rw [Function.iterate_succ_apply, hfound, Function.iterate_succ_apply]
        simp only [move, advance, hdel]
        exact hn

/-- Without a pause, a call is `delete_event`. -/
theorem iterate_deleteEvent (id : EventId) (s : KdbStore db) : ∃ n,
    let r := s.deleteEvent pt tf id
    (move pt tf)^[n] (begin (.event id) shown s, s)
      = (⟨.event id, shown, .done (r.1.map .existed)⟩, r.2) :=
  iterate_deleteEventIn pt tf shown id _ false s

theorem iterate_deleteTiers (ids : List EventId) (tiers : List String) (existed : Bool) :
    ∀ s : KdbStore db, ∃ n,
      let r := KdbStore.deleteTiers (ids.map tf.ulid.print) tiers s
      (move pt tf)^[n] (⟨.byIds ids, shown, .turns tiers existed⟩, s)
        = (⟨.byIds ids, shown, .done (r.1.map fun _ => .count ids.length)⟩, r.2) := by
  induction tiers with
  | nil => exact fun s => ⟨1, rfl⟩
  | cons tier tiers ih =>
    intro s
    rw [KdbStore.deleteTiers]
    rcases hdel : s.deleteFrom (ids.map tf.ulid.print) tier with ⟨e | _, s'⟩
    · refine ⟨1, ?_⟩
      simp only [Function.iterate_one, move, advance, hdel]
      rfl
    · obtain ⟨n, hn⟩ := ih s'
      refine ⟨n + 1, ?_⟩
      rw [Function.iterate_succ_apply]
      simp only [move, advance, hdel]
      exact hn

/-- Or `delete_events_by_ids`. -/
theorem iterate_deleteEventsByIds (ids : List EventId) (s : KdbStore db) : ∃ n,
    let r := s.deleteEventsByIds tf ids
    (move pt tf)^[n] (begin (.byIds ids) shown s, s)
      = (⟨.byIds ids, shown, .done (r.1.map .count)⟩, r.2) := by
  obtain ⟨n, hn⟩ := iterate_deleteTiers pt tf shown ids (s.deleteScope ids) false s
  refine ⟨n, hn.trans ?_⟩
  simp only [KdbStore.deleteEventsByIds]
  cases (KdbStore.deleteTiers (ids.map tf.ulid.print) (s.deleteScope ids) s).1 <;> rfl

end Source

end DeleteRun

/-- Point access to engines in memory. -/
def memoryPoints : PointAccess memoryDb where
  getEvent := fun e id => .ok (e.visible.find? fun r => r.id == id)
  get_some := by
    intro e id r h
    have hfind := Except.ok.inj h
    have hid : r.id = id := by simpa using List.find?_some hfind
    exact ⟨List.mem_of_find?_eq_some hfind, hid⟩
  deleteEvent := fun e id => memoryDb.deleteEvents e [id]
  delete_shows := memoryDb.delete_shows
  delete_ok := by
    intro e e' id h r hr
    have hid := ((memoryDb.delete_ok h r).mp hr).2
    exact fun heq => hid (heq ▸ List.mem_cons_self)

end Keplor.Store
