import Keplor.Lib.Run
import Keplor.Store.Append
import Keplor.Store.ArchiveCycle

/-!
# `wal_checkpoint` — from the log to the segments

What `append_batch_durable` writes goes to an engine's write-ahead log, and no query sees it until a
rotation has made a segment of it. `wal_checkpoint` lists the engines once and rotates them one after
the other; the rotator calls it at every flush interval, each append loop once more when it ends, and
the server at shutdown. Meanwhile the store is in use: sub-batches are written, ids deleted, tiers
collected and opened between any two engines.

`Rotation` is what the documentation quoted in `kdb_store.rs` promises of a log. All its promises have
one shape (`Carries`): what an engine stores, shows and hides goes through the operation, but for the
rows that the operation is there to remove.
-/

set_option autoImplicit false

namespace Keplor.Store

open Keplor.Lib Keplor.Core

/-! ## 1. The log of an engine -/

/-- An engine became another: what it stores is still stored and what it shows is still shown, but for
the rows it `loses`, and only those are newly hidden. -/
structure Keplordb.Carries (db : Keplordb) (buried : db.Engine → LogEvent → Prop)
    (loses : LogEvent → Prop) (e e' : db.Engine) : Prop where
  stored : ∀ r ∈ db.stored e, r ∈ db.stored e' ∨ loses r
  visible : ∀ r ∈ db.visible e, r ∈ db.visible e' ∨ loses r
  buried : ∀ r, buried e' r → buried e r ∨ loses r

/-- `Engine::flush`, and what becomes of rows on their way from the log to a segment. -/
structure Rotation (db : Keplordb) where
  flush : db.Engine → Except String Unit × db.Engine
  /-- the row is hidden by a tombstone -/
  buried : db.Engine → LogEvent → Prop
  /-- a rotation that succeeds leaves nothing in the log -/
  flush_ok : ∀ {e e'}, flush e = (.ok (), e') → ∀ r ∈ db.stored e, r ∈ db.visible e' ∨ buried e' r
  flush_carries : ∀ e, db.Carries buried (fun _ => False) e (flush e).2
  append_carries : ∀ e rows, db.Carries buried (fun _ => False) e (db.appendBatchDurable e rows).2
  delete_carries : ∀ e ids, db.Carries buried (fun r => r.id ∈ ids) e (db.deleteEvents e ids).2
  gc_carries : ∀ e c, db.Carries buried (fun r => r.tsNs < c) e (db.gc e c).2

variable {db : Keplordb}

namespace Keplordb.Carries

variable {buried : db.Engine → LogEvent → Prop} {loses loses' : LogEvent → Prop} {e e' e'' : db.Engine}

theorem refl (loses : LogEvent → Prop) (e : db.Engine) : db.Carries buried loses e e :=
  ⟨fun _ h => .inl h, fun _ h => .inl h, fun _ h => .inl h⟩

theorem mono (h : db.Carries buried loses e e') (himp : ∀ r, loses r → loses' r) :
    db.Carries buried loses' e e' :=
  ⟨fun r hr => (h.stored r hr).imp_right (himp r), fun r hr => (h.visible r hr).imp_right (himp r),
    fun r hr => (h.buried r hr).imp_right (himp r)⟩

end Keplordb.Carries

/-! ## 2. The log of a store -/

namespace KdbStore

/-- The engine of a tier: the published one, or the one opening it would give. -/
def held (s : KdbStore db) (tier : String) : Option db.Engine :=
  match s.get tier with
  | some e => some e
  | none =>
    match db.openEngine tier with
    | .ok e => some e
    | .error _ => none

theorem held_of_get {s : KdbStore db} {tier : String} {e : db.Engine} (h : s.get tier = some e) :
    s.held tier = some e := by
  rw [held, h]

@[simp] theorem held_put (s : KdbStore db) (tier : String) (e : db.Engine) (t : String) :
    (s.put tier e).held t = if t = tier then some e else s.held t := by
  by_cases ht : t = tier
  · rw [if_pos ht, held, get_put, if_pos ht]
  · rw [if_neg ht, held, get_put, if_neg ht, held]

/-- Opening a tier publishes what it held. -/
theorem held_engineFor (s : KdbStore db) (tier t : String) :
    (s.engineFor tier).2.held t = s.held t := by
  rw [engineFor]
  cases hs : s.get tier with
  | some e => rfl
  | none =>
    cases ho : db.openEngine tier with
    | error m => rfl
    | ok e =>
      rw [held_put]
      split
      · rename_i ht
        rw [ht, held, hs, ho]
      · rfl

/-- A store became another, and every tier was carried through. -/
structure Carries (ro : Rotation db) (loses : String → LogEvent → Prop) (s s' : KdbStore db) : Prop where
  published : ∀ tier, (s.get tier).isSome → (s'.get tier).isSome
  engines : ∀ tier e', s'.held tier = some e' →
    ∃ e, s.held tier = some e ∧ db.Carries ro.buried (loses tier) e e'
  kept : ∀ tier e, s.held tier = some e → ∃ e', s'.held tier = some e'

variable {ro : Rotation db} {s s' : KdbStore db} {loses : String → LogEvent → Prop} {tier : String}

theorem Carries.refl (ro : Rotation db) (loses : String → LogEvent → Prop) (s : KdbStore db) :
    Carries ro loses s s :=
  ⟨fun _ h => h, fun tier e h => ⟨e, h, .refl (loses tier) e⟩, fun _ e h => ⟨e, h⟩⟩

/-- The engine of one tier was replaced by what an operation made of it. -/
theorem carries_put {e e' : db.Engine} (hheld : s.held tier = some e)
    (hpublished : ∀ t, (s.get t).isSome → ((s'.put tier e').get t).isSome)
    (hs' : ∀ t, s'.held t = s.held t) (h : db.Carries ro.buried (loses tier) e e') :
    Carries ro loses s (s'.put tier e') := by
  refine ⟨hpublished, fun t eng heng => ?_, fun t eng heng => ?_⟩
  · rw [held_put, hs'] at heng
    split at heng
    · rename_i ht
      cases heng
      rw [ht]
      exact ⟨e, hheld, h⟩
    · exact ⟨eng, heng, .refl _ eng⟩
  · rw [held_put, hs']
    split
    · exact ⟨e', rfl⟩
    · exact ⟨eng, heng⟩

theorem isSome_put {t : String} {e : db.Engine} (h : (s.get t).isSome) : ((s.put tier e).get t).isSome := by
  rw [get_put]
  split
  · rfl
  · exact h

theorem carries_engineFor (ro : Rotation db) (loses : String → LogEvent → Prop) (s : KdbStore db)
    (tier : String) :
    Carries ro loses s (s.engineFor tier).2 := by
  refine ⟨fun t ht => ?_, fun t e he => ?_, fun t e he => ?_⟩
  · obtain ⟨e, he⟩ := Option.isSome_iff_exists.mp ht
    rw [get_engineFor he]
    rfl
  · rw [held_engineFor] at he
    exact ⟨e, he, .refl _ e⟩
  · exact ⟨e, by rw [held_engineFor, he]⟩

/-- What an operation on the engine of a tier, opened if need be, does to the store. -/
theorem carries_of_engineFor {eng e' : db.Engine} (h : s.engineFor tier = (.ok eng, s'))
    (hop : db.Carries ro.buried (loses tier) eng e') : Carries ro loses s (s'.put tier e') := by
  have hsnd : (s.engineFor tier).2 = s' := by rw [h]
  have hheld : ∀ t, s'.held t = s.held t := fun t => by rw [← hsnd, held_engineFor]
  refine carries_put ?_ (fun t ht => isSome_put ?_) hheld hop
  · rw [← hheld]
    exact held_of_get (get_of_engineFor h)
  · rw [← hsnd]
    exact (carries_engineFor ro loses s tier).published t ht

theorem carries_appendTier (ro : Rotation db) (s : KdbStore db) (p : String × List LogEvent) :
    Carries ro (fun _ _ => False) s (s.appendTier p).2 := by
  match hf : s.engineFor p.1 with
  | (.error m, s') =>
    rw [appendTier, hf]
    have hopen := carries_engineFor ro (fun _ _ => False) s p.1
    rwa [hf] at hopen
  | (.ok eng, s') =>
    rw [appendTier, hf]
    exact carries_of_engineFor hf (ro.append_carries eng p.2)

theorem carries_gcTier (ro : Rotation db) (s : KdbStore db) (tier : String) (c : Int64) :
    Carries ro (fun t r => t = tier ∧ r.tsNs < c) s (s.gcTier tier c).2 := by
  match hf : s.engineFor tier with
  | (.error m, s') =>
    rw [gcTier, hf]
    have hopen := carries_engineFor ro (fun t r => t = tier ∧ r.tsNs < c) s tier
    rwa [hf] at hopen
  | (.ok eng, s') =>
    rw [gcTier, hf]
    exact carries_of_engineFor hf ((ro.gc_carries eng c).mono fun r hr => ⟨rfl, hr⟩)

theorem carries_deleteFrom (ro : Rotation db) (s : KdbStore db) (ids : List String) (tier : String) :
    Carries ro (fun _ r => r.id ∈ ids) s (s.deleteFrom ids tier).2 := by
  rw [deleteFrom]
  cases hget : s.get tier with
  | none => exact Carries.refl ro _ s
  | some eng =>
    exact carries_put (held_of_get hget) (fun _ ht => isSome_put ht) (fun _ => rfl)
      (ro.delete_carries eng ids)

/-- One turn of `wal_checkpoint`. -/
def flushTier (ro : Rotation db) (s : KdbStore db) (tier : String) :
    Except StoreError Unit × KdbStore db :=
  match s.get tier with
  | none => (.ok (), s)
  | some eng =>
    let r := ro.flush eng
    (kdbErr r.1, s.put tier r.2)

/-- The loop of `wal_checkpoint`: the first failure ends it. -/
def flushTiers (ro : Rotation db) : List String → KdbStore db → Except StoreError Unit × KdbStore db
  | [], s => (.ok (), s)
  | tier :: rest, s =>
    match s.flushTier ro tier with
    | (.error e, s) => (.error e, s)
    | (.ok (), s) => flushTiers ro rest s

/-- `KdbStore::wal_checkpoint` -/
def walCheckpoint (ro : Rotation db) (s : KdbStore db) : Except StoreError Unit × KdbStore db :=
  flushTiers ro (s.engines.map Prod.fst) s

theorem carries_flushTier (ro : Rotation db) (s : KdbStore db) (tier : String) :
    Carries ro (fun _ _ => False) s (s.flushTier ro tier).2 := by
  rw [flushTier]
  cases hget : s.get tier with
  | none => exact Carries.refl ro _ s
  | some eng =>
    exact carries_put (held_of_get hget) (fun _ ht => isSome_put ht) (fun _ => rfl)
      (ro.flush_carries eng)

/-- A turn that succeeds shows what the tier stores. -/
theorem visible_of_flushTier {e : db.Engine} {r : LogEvent} (h : s.flushTier ro tier = (.ok (), s'))
    (hget : s.get tier = some e) (hr : r ∈ db.stored e) :
    ∃ e', s'.get tier = some e' ∧ (r ∈ db.visible e' ∨ ro.buried e' r) := by
  rw [flushTier, hget] at h
  rcases hflush : ro.flush e with ⟨m | _, e'⟩
  · simp only [hflush] at h
    cases h
  · simp only [hflush] at h
    cases h
    exact ⟨e', by simp, ro.flush_ok hflush r hr⟩

end KdbStore

/-! ## 3. Writers, checkpoints and whoever removes rows -/

/-- A call of `append_batch_durable`, with the sub-batches that are left. -/
structure AppendCall where
  events : List LlmEvent
  left : List (String × List LogEvent)
  outcome : Option (Except StoreError Unit)

/-- A call of `wal_checkpoint`, with the engines that are left. -/
structure Checkpoint where
  left : List String
  outcome : Option (Except StoreError Unit)

/-- A store in use. `deleted` and `cutoffs` record what was asked to be removed, and where. -/
structure BusyStore (db : Keplordb) where
  store : KdbStore db
  appends : List AppendCall
  checkpoints : List Checkpoint
  deleted : List String
  cutoffs : List (String × Int64)

namespace BusyStore

/-- A store nobody uses yet. -/
def idle (store : KdbStore db) : BusyStore db := ⟨store, [], [], [], []⟩

/-- The events of the writes that have returned `Ok`. -/
def acked (s : BusyStore db) : List LlmEvent :=
  s.appends.flatMap fun a =>
    match a.outcome with
    | some (.ok ()) => a.events
    | _ => []

variable (tf : TextFormats)

inductive Input where
  /-- a flush of a shard begins; `visit` is the order the hash map yields its tiers in -/
  | append (events : List LlmEvent) (visit : List (String × List LogEvent))
      (hvisit : visit.Perm (byTier tf events))
  | appendTurn (n : Nat)
  | checkpoint
  | checkpointTurn (n : Nat)
  /-- one engine's turn of a deletion -/
  | delete (ids : List String) (tier : String)
  | collect (tier : String) (cutoff : Int64)
  | openTier (tier : String)

variable (ro : Rotation db)

/-- The next sub-batch of a write. -/
def appendNext (s : BusyStore db) (n : Nat) (a : AppendCall) : BusyStore db :=
  match a.outcome, a.left with
  | some _, _ => s
  | none, [] => { s with appends := s.appends.set n { a with outcome := some (.ok ()) } }
  | none, p :: rest =>
    match s.store.appendTier p with
    | (.error e, store) =>
      { s with store := store, appends := s.appends.set n { a with outcome := some (.error e) } }
    | (.ok (), store) =>
      { s with store := store, appends := s.appends.set n { a with left := rest } }

/-- The next engine of a checkpoint. -/
def checkpointNext (s : BusyStore db) (n : Nat) (c : Checkpoint) : BusyStore db :=
  match c.outcome, c.left with
  | some _, _ => s
  | none, [] => { s with checkpoints := s.checkpoints.set n { c with outcome := some (.ok ()) } }
  | none, tier :: rest =>
    match s.store.flushTier ro tier with
    | (.error e, store) =>
      { s with
        store := store
        checkpoints := s.checkpoints.set n { c with outcome := some (.error e) } }
    | (.ok (), store) =>
      { s with store := store, checkpoints := s.checkpoints.set n { c with left := rest } }

def step (s : BusyStore db) : Input tf → BusyStore db
  | .append events visit _ => { s with appends := s.appends ++ [⟨events, visit, none⟩] }
  | .appendTurn n =>
    match s.appends[n]? with
    | none => s
    | some a => s.appendNext n a
  | .checkpoint =>
    { s with checkpoints := s.checkpoints ++ [⟨s.store.engines.map Prod.fst, none⟩] }
  | .checkpointTurn n =>
    match s.checkpoints[n]? with
    | none => s
    | some c => s.checkpointNext ro n c
  | .delete ids tier =>
    { s with store := (s.store.deleteFrom ids tier).2, deleted := ids ++ s.deleted }
  | .collect tier cutoff =>
    { s with store := (s.store.gcTier tier cutoff).2, cutoffs := (tier, cutoff) :: s.cutoffs }
  | .openTier tier => { s with store := (s.store.engineFor tier).2 }

/-! ## 4. What a row can count on -/

variable {tf} {ro}

/-- Somebody asked for the row to be removed. -/
def Dismissed (s : BusyStore db) (tier : String) (r : LogEvent) : Prop :=
  r.id ∈ s.deleted ∨ ∃ c, (tier, c) ∈ s.cutoffs ∧ r.tsNs < c

/-- The row is stored, in a tier that is open. -/
def Holds (s : BusyStore db) (tier : String) (r : LogEvent) : Prop :=
  (s.store.get tier).isSome ∧
    ((∃ e, s.store.held tier = some e ∧ r ∈ db.stored e) ∨ s.Dismissed tier r)

/-- The row is visible to queries of its tier. -/
def Shows (s : BusyStore db) (tier : String) (r : LogEvent) : Prop :=
  (∃ e, s.store.held tier = some e ∧ r ∈ db.visible e) ∨ s.Dismissed tier r

/-- A tombstone from before hides the row. -/
def BuriedIn (ro : Rotation db) (store : KdbStore db) (tier : String) (r : LogEvent) : Prop :=
  ∃ e, store.held tier = some e ∧ ro.buried e r

/-- A store became another while the calls stayed as they are, and what it lost was dismissed. -/
structure Follows (ro : Rotation db) (s s' : BusyStore db) : Prop where
  carries : KdbStore.Carries ro s'.Dismissed s.store s'.store
  dismissed : ∀ tier r, s.Dismissed tier r → s'.Dismissed tier r

theorem Follows.holds {s s' : BusyStore db} (h : Follows ro s s') {tier : String} {r : LogEvent}
    (hr : s.Holds tier r) : s'.Holds tier r := by
  refine ⟨h.carries.published tier hr.1, ?_⟩
  rcases hr.2 with ⟨e, he, hstored⟩ | hgone
  · obtain ⟨e', he'⟩ := h.carries.kept tier e he
    obtain ⟨e₀, he₀, hc⟩ := h.carries.engines tier e' he'
    rw [he] at he₀
    cases he₀
    exact (hc.stored r hstored).imp_left fun hr' => ⟨e', he', hr'⟩
  · exact .inr (h.dismissed tier r hgone)

theorem Follows.shows {s s' : BusyStore db} (h : Follows ro s s') {tier : String} {r : LogEvent}
    (hr : s.Shows tier r) : s'.Shows tier r := by
  rcases hr with ⟨e, he, hvisible⟩ | hgone
  · obtain ⟨e', he'⟩ := h.carries.kept tier e he
    obtain ⟨e₀, he₀, hc⟩ := h.carries.engines tier e' he'
    rw [he] at he₀
    cases he₀
    exact (hc.visible r hvisible).imp_left fun hr' => ⟨e', he', hr'⟩
  · exact .inr (h.dismissed tier r hgone)

/-- Tombstones hide what was dismissed, or what they hid at the start. -/
def Buries (ro : Rotation db) (start : KdbStore db) (s : BusyStore db) : Prop :=
  ∀ tier r, BuriedIn ro s.store tier r → s.Dismissed tier r ∨ BuriedIn ro start tier r

theorem Follows.buries {start : KdbStore db} {s s' : BusyStore db} (h : Follows ro s s')
    (hb : s.Buries ro start) : s'.Buries ro start := by
  rintro tier r ⟨e', he', hr⟩
  obtain ⟨e, he, hc⟩ := h.carries.engines tier e' he'
  rcases hc.buried r hr with hold | hgone
  · exact (hb tier r ⟨e, he, hold⟩).imp_left (h.dismissed tier r)
  · exact .inl hgone

/-- What of a step concerns the store alone. -/
theorem follows_of_carries {s s' : BusyStore db} {loses : String → LogEvent → Prop}
    (h : KdbStore.Carries ro loses s.store s'.store)
    (hloses : ∀ tier r, loses tier r → s'.Dismissed tier r)
    (hdeleted : ∀ id ∈ s.deleted, id ∈ s'.deleted) (hcutoffs : ∀ p ∈ s.cutoffs, p ∈ s'.cutoffs) :
    Follows ro s s' := by
  refine ⟨⟨h.published, fun tier e' he' => ?_, h.kept⟩, fun tier r hr => ?_⟩
  · obtain ⟨e, he, hc⟩ := h.engines tier e' he'
    exact ⟨e, he, hc.mono (hloses tier)⟩
  · rcases hr with hid | ⟨c, hc, hlt⟩
    · exact .inl (hdeleted _ hid)
    · exact .inr ⟨c, hcutoffs _ hc, hlt⟩

theorem follows_appendNext (s : BusyStore db) (n : Nat) (a : AppendCall) :
    Follows ro s (s.appendNext n a) := by
  have hcarries : ∀ p, Follows ro s { s with store := (s.store.appendTier p).2 } := fun p =>
    follows_of_carries (KdbStore.carries_appendTier ro s.store p) (fun _ _ h => h.elim)
      (fun _ h => h) fun _ h => h
  rw [appendNext]
  split
  · exact follows_of_carries (.refl ro _ _) (fun _ _ h => h) (fun _ h => h) fun _ h => h
  · exact follows_of_carries (.refl ro _ _) (fun _ _ h => h) (fun _ h => h) fun _ h => h
  · rename_i p rest _ _
    rcases happ : s.store.appendTier p with ⟨e | _, store⟩
    · have h := hcarries p
      rw [happ] at h
      exact ⟨h.carries, h.dismissed⟩
    · have h := hcarries p
      rw [happ] at h
      exact ⟨h.carries, h.dismissed⟩

theorem follows_checkpointNext (s : BusyStore db) (n : Nat) (c : Checkpoint) :
    Follows ro s (s.checkpointNext ro n c) := by
  have hcarries : ∀ tier, Follows ro s { s with store := (s.store.flushTier ro tier).2 } := fun tier =>
    follows_of_carries (KdbStore.carries_flushTier ro s.store tier) (fun _ _ h => h.elim)
      (fun _ h => h) fun _ h => h
  rw [checkpointNext]
  split
  · exact follows_of_carries (.refl ro _ _) (fun _ _ h => h) (fun _ h => h) fun _ h => h
  · exact follows_of_carries (.refl ro _ _) (fun _ _ h => h) (fun _ h => h) fun _ h => h
  · rename_i tier rest _ _
    rcases hflush : s.store.flushTier ro tier with ⟨e | _, store⟩
    · have h := hcarries tier
      rw [hflush] at h
      exact ⟨h.carries, h.dismissed⟩
    · have h := hcarries tier
      rw [hflush] at h
      exact ⟨h.carries, h.dismissed⟩

theorem follows_step (s : BusyStore db) (x : Input tf) : Follows ro s (s.step tf ro x) := by
  have hstay : ∀ {s' : BusyStore db}, s'.store = s.store → s'.deleted = s.deleted →
      s'.cutoffs = s.cutoffs → Follows ro s s' := by
    intro s' hstore hdeleted hcutoffs
    have hcarries : KdbStore.Carries ro (fun _ _ => False) s.store s'.store := by
      rw [hstore]
      exact .refl ro _ _
    refine follows_of_carries hcarries (fun _ _ h => h.elim) ?_ ?_
    · rw [hdeleted]
      exact fun _ h => h
    · rw [hcutoffs]
      exact fun _ h => h
  cases x with
  | append events visit hvisit => exact hstay rfl rfl rfl
  | checkpoint => exact hstay rfl rfl rfl
  | appendTurn n =>
    rw [step]
    split
    · exact hstay rfl rfl rfl
    · exact follows_appendNext s n _
  | checkpointTurn n =>
    rw [step]
    split
    · exact hstay rfl rfl rfl
    · exact follows_checkpointNext s n _
  | delete ids tier =>
    refine follows_of_carries (KdbStore.carries_deleteFrom ro s.store ids tier) ?_ ?_ fun _ h => h
    · exact fun t r hr => .inl (List.mem_append_left _ hr)
    · exact fun id hid => List.mem_append_right _ hid
  | collect tier cutoff =>
    refine follows_of_carries (KdbStore.carries_gcTier ro s.store tier cutoff) ?_ (fun _ h => h) ?_
    · rintro t r ⟨rfl, hlt⟩
      exact .inr ⟨cutoff, List.mem_cons_self, hlt⟩
    · exact fun p hp => List.mem_cons_of_mem _ hp
  | openTier tier =>
    exact follows_of_carries (KdbStore.carries_engineFor ro (fun _ _ => False) s.store tier)
      (fun _ _ h => h.elim) (fun _ h => h) fun _ h => h

/-! ## 5. The calls under way -/

/-- The row is visible, but for a tombstone from before the start. -/
def Settled (ro : Rotation db) (start : KdbStore db) (s : BusyStore db) (tier : String)
    (r : LogEvent) : Prop :=
  s.Shows tier r ∨ BuriedIn ro start tier r

/-- The sub-batch of each event of a write is still to come, or its row is stored. -/
structure Writes (tf : TextFormats) (s : BusyStore db) (a : AppendCall) : Prop where
  rows : ∀ e ∈ a.events, (∃ p ∈ a.left, p.1 = e.tier ∧ toLogEvent tf e ∈ p.2) ∨
    s.Holds e.tier (toLogEvent tf e)
  done : a.outcome = some (.ok ()) → a.left = []

/-- The engine of a row that was stored when the `n`th checkpoint began is still to be rotated, or the
row is visible. -/
def Rotates (ro : Rotation db) (start : KdbStore db) (s : BusyStore db) (n : Nat) (tier : String)
    (r : LogEvent) : Prop :=
  ∃ c, s.checkpoints[n]? = some c ∧ (c.outcome = some (.ok ()) → c.left = []) ∧
    ((tier ∈ c.left ∧ s.Holds tier r) ∨ s.Settled ro start tier r)

theorem Writes.follows {s s' : BusyStore db} {a : AppendCall} (h : s.Writes tf a)
    (hf : Follows ro s s') : s'.Writes tf a :=
  ⟨fun e he => (h.rows e he).imp_right hf.holds, h.done⟩

theorem Follows.settled {start : KdbStore db} {s s' : BusyStore db} (h : Follows ro s s')
    {tier : String} {r : LogEvent} (hr : s.Settled ro start tier r) : s'.Settled ro start tier r :=
  hr.imp_left h.shows

structure Sound (tf : TextFormats) (ro : Rotation db) (start : KdbStore db) (s : BusyStore db) :
    Prop where
  buries : s.Buries ro start
  appends : ∀ (n : Nat) (a : AppendCall), s.appends[n]? = some a → s.Writes tf a

/-- A sub-batch that is written is stored in an open tier. -/
theorem stored_of_appendTier {store store' : KdbStore db} {p : String × List LogEvent}
    (h : store.appendTier p = (.ok (), store')) :
    ∃ e, store'.get p.1 = some e ∧ ∀ r ∈ p.2, r ∈ db.stored e := by
  match hf : store.engineFor p.1 with
  | (.error m, s₁) =>
    rw [KdbStore.appendTier, hf] at h
    cases h
  | (.ok eng, s₁) =>
    rw [KdbStore.appendTier_of_engineFor hf] at h
    rcases happ : db.appendBatchDurable eng p.2 with ⟨m | _, e⟩
    · rw [happ] at h
      cases h
    · rw [happ] at h
      cases h
      refine ⟨e, by simp, fun r hr => ?_⟩
      exact (db.append_ok happ).mem_iff.mpr (List.mem_append_right _ hr)

/-- What a turn makes of a write. -/
inductive AppendMove (s s' : BusyStore db) (a : AppendCall) : AppendCall → Prop where
  | finished (hleft : a.left = []) : AppendMove s s' a { a with outcome := some (.ok ()) }
  | failed (e : StoreError) : AppendMove s s' a { a with outcome := some (.error e) }
  | written (p : String × List LogEvent) (rest : List (String × List LogEvent))
      (hleft : a.left = p :: rest) (hrunning : a.outcome = none)
      (happ : s.store.appendTier p = (.ok (), s'.store)) : AppendMove s s' a { a with left := rest }

/-- What a turn makes of a checkpoint. -/
inductive CheckpointMove (ro : Rotation db) (s s' : BusyStore db) (c : Checkpoint) : Checkpoint → Prop where
  | finished (hleft : c.left = []) : CheckpointMove ro s s' c { c with outcome := some (.ok ()) }
  | failed (e : StoreError) : CheckpointMove ro s s' c { c with outcome := some (.error e) }
  | rotated (tier : String) (rest : List String) (hleft : c.left = tier :: rest)
      (hrunning : c.outcome = none) (hflush : s.store.flushTier ro tier = (.ok (), s'.store)) :
      CheckpointMove ro s s' c { c with left := rest }

theorem appends_appendNext {s : BusyStore db} {n m : Nat} {a b : AppendCall}
    (hm : (s.appendNext n a).appends[m]? = some b) :
    s.appends[m]? = some b ∨ AppendMove s (s.appendNext n a) a b := by
  unfold appendNext at hm ⊢
  split at hm
  · exact .inl hm
  · rename_i hleft
    rcases getElem?_set_cases hm with ⟨-, rfl⟩ | ⟨-, hold⟩
    · exact .inr (.finished hleft)
    · exact .inl hold
  · rename_i p rest hrunning hleft
    rcases happ : s.store.appendTier p with ⟨e | _, store⟩
    · simp only [happ] at hm
      rcases getElem?_set_cases hm with ⟨-, rfl⟩ | ⟨-, hold⟩
      · exact .inr (.failed e)
      · exact .inl hold
    · simp only [happ] at hm
      rcases getElem?_set_cases hm with ⟨-, rfl⟩ | ⟨-, hold⟩
      · exact .inr (.written p rest hleft hrunning happ)
      · exact .inl hold

/-- A turn of one checkpoint, as another one or itself sees it. -/
theorem checkpoint_checkpointNext {s : BusyStore db} {n m : Nat} {c d : Checkpoint}
    (hn : s.checkpoints[n]? = some d) : (s.checkpointNext ro m c).checkpoints[n]? = some d ∨
      m = n ∧ ∃ d', (s.checkpointNext ro m c).checkpoints[n]? = some d' ∧
        CheckpointMove ro s (s.checkpointNext ro m c) c d' := by
  by_cases hmn : m = n
  · subst hmn
    unfold checkpointNext
    split
    · exact .inl hn
    · rename_i hleft
      exact .inr ⟨rfl, _, by simp [getElem?_set_of hn], .finished hleft⟩
    · rename_i tier rest hrunning hleft
      rcases hflush : s.store.flushTier ro tier with ⟨e | _, store⟩
      · exact .inr ⟨rfl, _, by simp [getElem?_set_of hn], .failed e⟩
      · exact .inr ⟨rfl, _, by simp [getElem?_set_of hn], .rotated tier rest hleft hrunning hflush⟩
  · refine .inl ?_
    unfold checkpointNext
    repeat' split
    all_goals first
      | exact hn
      | (rw [getElem?_set_of hn, if_neg hmn])

theorem appends_checkpointNext (s : BusyStore db) (n : Nat) (c : Checkpoint) :
    (s.checkpointNext ro n c).appends = s.appends := by
  rw [checkpointNext]
  repeat' split
  all_goals rfl

theorem checkpoints_appendNext (s : BusyStore db) (n : Nat) (a : AppendCall) :
    (s.appendNext n a).checkpoints = s.checkpoints := by
  rw [appendNext]
  repeat' split
  all_goals rfl

/-- A sub-batch leaves the list, and is stored. -/
theorem Writes.move {s s' : BusyStore db} {a b : AppendCall} (h : s.Writes tf a)
    (hf : Follows ro s s') (hmove : AppendMove s s' a b) : s'.Writes tf b := by
  have hnext := h.follows hf
  cases hmove with
  | finished hleft => exact ⟨hnext.rows, fun _ => hleft⟩
  | failed e => exact ⟨hnext.rows, fun hok => by cases hok⟩
  | written p rest hleft hrunning happ =>
    refine ⟨fun e he => ?_, fun hok => by rw [hrunning] at hok; cases hok⟩
    rcases hnext.rows e he with ⟨q, hq, htier, hrow⟩ | hholds
    · rw [hleft] at hq
      rcases List.mem_cons.mp hq with rfl | hq
      · obtain ⟨eng, hget, hstored⟩ := stored_of_appendTier happ
        rw [htier] at hget
        refine .inr ⟨by rw [hget]; rfl, .inl ⟨eng, KdbStore.held_of_get hget, hstored _ hrow⟩⟩
      · exact .inl ⟨q, hq, htier, hrow⟩
    · exact .inr hholds

/-- An engine leaves the list, and shows what it stored. -/
theorem rotates_of_move {start : KdbStore db} {s s' : BusyStore db} {n : Nat} {c d : Checkpoint}
    {tier : String} {r : LogEvent} (hn : s'.checkpoints[n]? = some d)
    (hrow : (tier ∈ c.left ∧ s.Holds tier r) ∨ s.Settled ro start tier r)
    (hf : Follows ro s s') (hb : s'.Buries ro start) (hmove : CheckpointMove ro s s' c d) :
    s'.Rotates ro start n tier r := by
  have hnext := hrow.imp (fun h => And.intro h.1 (hf.holds h.2)) hf.settled
  cases hmove with
  | finished hleft => exact ⟨_, hn, fun _ => hleft, hnext⟩
  | failed e => exact ⟨_, hn, (fun hok => by cases hok), hnext⟩
  | rotated t rest hleft hrunning hflush =>
    refine ⟨_, hn, (fun hok => by rw [hrunning] at hok; cases hok), ?_⟩
    rcases hrow with ⟨hmem, hholds⟩ | hsettled
    · rw [hleft] at hmem
      rcases List.mem_cons.mp hmem with rfl | hrest
      · refine .inr ?_
        obtain ⟨eng, hget⟩ := Option.isSome_iff_exists.mp hholds.1
        rcases hholds.2 with ⟨eng', hheld, hstored⟩ | hgone
        · rw [KdbStore.held_of_get hget] at hheld
          cases hheld
          obtain ⟨eng', hget', hvisible | hburied⟩ :=
            KdbStore.visible_of_flushTier hflush hget hstored
          · exact .inl (.inl ⟨eng', KdbStore.held_of_get hget', hvisible⟩)
          · exact (hb _ _ ⟨eng', KdbStore.held_of_get hget', hburied⟩).imp_left .inr
        · exact .inl (.inr (hf.dismissed _ _ hgone))
      · exact .inl ⟨hrest, hf.holds hholds⟩
    · exact .inr (hf.settled hsettled)

/-- The row of an acknowledged event is stored. -/
theorem Sound.holds_of_acked {start : KdbStore db} {s : BusyStore db} (h : s.Sound tf ro start)
    {e : LlmEvent} (he : e ∈ s.acked) : s.Holds e.tier (toLogEvent tf e) := by
  obtain ⟨a, ha, hmem⟩ := List.mem_flatMap.mp he
  obtain ⟨n, hn⟩ := List.mem_iff_getElem?.mp ha
  obtain ⟨hrows, hdone⟩ := h.appends n a hn
  split at hmem
  · rename_i hok
    rcases hrows e hmem with ⟨p, hp, -⟩ | hholds
    · rw [hdone hok] at hp
      cases hp
    · exact hholds
  · cases hmem

theorem sound_step (start : KdbStore db) (s : BusyStore db) (x : Input tf)
    (h : s.Sound tf ro start) : (s.step tf ro x).Sound tf ro start := by
  have hf : Follows ro s (s.step tf ro x) := follows_step s x
  -- the calls that stay as they are
  have hwrites : ∀ (n : Nat) (a : AppendCall), s.appends[n]? = some a → (s.step tf ro x).Writes tf a :=
    fun n a hn => (h.appends n a hn).follows hf
  refine ⟨hf.buries h.buries, fun m b hm => ?_⟩
  cases x with
  | append events visit hvisit =>
    rcases getElem?_concat_cases hm with hold | ⟨-, rfl⟩
    · exact hwrites m b hold
    · refine ⟨fun e he => .inl ?_, fun hok => by cases hok⟩
      obtain ⟨g, hg, hkey, hmem⟩ : ∃ g ∈ collect LlmEvent.tier events, g.1 = e.tier ∧ e ∈ g.2 :=
        exists_mem_collect he
      refine ⟨(g.1, g.2.map (toLogEvent tf)), hvisit.mem_iff.mpr ?_, hkey, List.mem_map_of_mem hmem⟩
      exact List.mem_map.mpr ⟨g, hg, rfl⟩
  | appendTurn n =>
    cases hn : s.appends[n]? with
    | none =>
      simp only [step, hn] at hm
      exact hwrites m b hm
    | some a =>
      have hstep : s.step tf ro (.appendTurn n) = s.appendNext n a := by simp only [step, hn]
      rw [hstep] at hm hf hwrites ⊢
      rcases appends_appendNext hm with hold | hmove
      · exact hwrites m b hold
      · exact (h.appends n a hn).move hf hmove
  | checkpointTurn n =>
    have happends : (s.step tf ro (.checkpointTurn n)).appends = s.appends := by
      rw [step]
      split
      · rfl
      · exact appends_checkpointNext s n _
    rw [happends] at hm
    exact hwrites m b hm
  | checkpoint | delete _ _ | collect _ _ | openTier _ => exact hwrites m b hm

theorem sound_run (start : KdbStore db) (xs : List (Input tf)) :
    (run (step tf ro) (idle start) xs).Sound tf ro start := by
  refine run_invariant_of_step (fun s x => sound_step start s x) ⟨fun tier r hr => .inr hr, ?_⟩ xs
  intro n a hn
  cases hn

/-- A checkpoint begins with every engine that is open. -/
theorem rotates_begin {start : KdbStore db} {s : BusyStore db} {tier : String} {r : LogEvent}
    (h : s.Holds tier r) : (s.step tf ro .checkpoint).Rotates ro start s.checkpoints.length tier r := by
  obtain ⟨eng, hget⟩ := Option.isSome_iff_exists.mp h.1
  refine ⟨_, List.getElem?_concat_length, (fun hok => by cases hok), .inl ⟨?_, ?_⟩⟩
  · exact List.mem_map.mpr ⟨_, mem_of_lookup hget, rfl⟩
  · exact (follows_step s .checkpoint).holds h

theorem rotates_step {start : KdbStore db} {s : BusyStore db} {n : Nat} {tier : String} {r : LogEvent}
    (hsound : s.Sound tf ro start) (h : s.Rotates ro start n tier r) (x : Input tf) :
    (s.step tf ro x).Rotates ro start n tier r := by
  obtain ⟨c, hn, hdone, hrow⟩ := h
  have hf : Follows ro s (s.step tf ro x) := follows_step s x
  have hb := hf.buries hsound.buries
  have hkeep : (s.step tf ro x).checkpoints[n]? = some c → (s.step tf ro x).Rotates ro start n tier r :=
    fun hn' => ⟨c, hn', hdone, hrow.imp (fun h => ⟨h.1, hf.holds h.2⟩) hf.settled⟩
  cases x with
  | checkpoint => exact hkeep (getElem?_append_of hn _)
  | checkpointTurn m =>
    cases hm : s.checkpoints[m]? with
    | none => exact hkeep (by simp only [step, hm]; exact hn)
    | some c₀ =>
      have hstep : s.step tf ro (.checkpointTurn m) = s.checkpointNext ro m c₀ := by
        simp only [step, hm]
      rw [hstep] at hf hb hkeep ⊢
      rcases checkpoint_checkpointNext (m := m) (c := c₀) hn with hsame | ⟨rfl, d, hd, hmove⟩
      · exact hkeep hsame
      · rw [hn] at hm
        cases hm
        exact rotates_of_move hd hrow hf hb hmove
  | appendTurn m =>
    refine hkeep ?_
    rw [step]
    split
    · exact hn
    · rw [checkpoints_appendNext]
      exact hn
  | append _ _ _ | delete _ _ | collect _ _ | openTier _ => exact hkeep hn

/-- The turns of a checkpoint, taken without a pause, are the loop of `wal_checkpoint`. -/
theorem run_checkpointTurns (left : List String) : ∀ {s : BusyStore db} {n : Nat},
    s.checkpoints[n]? = some ⟨left, none⟩ →
      ∃ k, let s' := run (step tf ro) s (List.replicate k (.checkpointTurn n))
        s'.store = (s.store.flushTiers ro left).2 ∧
          (s'.checkpoints[n]?.bind Checkpoint.outcome) = some (s.store.flushTiers ro left).1 := by
  induction left with
  | nil =>
    intro s n hn
    refine ⟨1, ?_⟩
    simp only [List.replicate_one, run_cons, run_nil, step, hn, checkpointNext]
    exact ⟨rfl, by simp [getElem?_set_of hn, KdbStore.flushTiers]⟩
  | cons tier rest ih =>
    intro s n hn
    rcases hflush : s.store.flushTier ro tier with ⟨e | _, store⟩
    · refine ⟨1, ?_⟩
      simp only [List.replicate_one, run_cons, run_nil, step, hn, checkpointNext, hflush,
        KdbStore.flushTiers]
      exact ⟨trivial, by simp [getElem?_set_of hn]⟩
    · obtain ⟨k, hstore, houtcome⟩ := ih (s := { s with
        store := store, checkpoints := s.checkpoints.set n ⟨rest, none⟩ })
        (n := n) (by rw [getElem?_set_of hn, if_pos rfl])
      refine ⟨k + 1, ?_⟩
      simp only [List.replicate_succ, run_cons, step, hn, checkpointNext, hflush, KdbStore.flushTiers]
      exact ⟨hstore, houtcome⟩

end BusyStore

/-! ## 6. The result -/

/-- A row that was stored when a checkpoint began is visible once that checkpoint has returned `Ok`. -/
theorem BusyStore.settled_after_checkpoint {ro : Rotation db} {tf : TextFormats} {start : KdbStore db}
    {s₀ : BusyStore db} (hsound : s₀.Sound tf ro start) {tier : String} {r : LogEvent}
    (hr : s₀.Holds tier r) (after : List (BusyStore.Input tf)) {c : Checkpoint}
    (hc : (run (step tf ro) s₀ (.checkpoint :: after)).checkpoints[s₀.checkpoints.length]? = some c)
    (hok : c.outcome = some (.ok ())) :
    (run (step tf ro) s₀ (.checkpoint :: after)).Settled ro start tier r := by
  have hstep : ∀ (s : BusyStore db) (x : Input tf),
      s.Sound tf ro start ∧ s.Rotates ro start s₀.checkpoints.length tier r →
      (s.step tf ro x).Sound tf ro start ∧
        (s.step tf ro x).Rotates ro start s₀.checkpoints.length tier r :=
    fun s x h => ⟨sound_step start s x h.1, rotates_step h.1 h.2 x⟩
  have hbegun : (s₀.step tf ro .checkpoint).Rotates ro start s₀.checkpoints.length tier r :=
    rotates_begin hr
  obtain ⟨-, d, hd, hdone, hrow⟩ := run_invariant_of_step hstep
    (s := s₀.step tf ro .checkpoint) ⟨sound_step start s₀ .checkpoint hsound, hbegun⟩ after
  rw [run_cons, hd] at hc
  cases hc
  rcases hrow with ⟨hleft, -⟩ | hsettled
  · rw [hdone hok] at hleft
    cases hleft
  · exact hsettled

/-- Over every run of a store in use, from any content: an event whose write had returned `Ok` when a
checkpoint began is stored in its tier from then on; once that checkpoint has returned `Ok` its row is
visible to the queries of the tier, and stays so. The exceptions are the rows somebody asked to be
removed, by id or by an age limit on their tier, and those that a tombstone from before the start
hides. -/
theorem acked_events_show_after_checkpoint (ro : Rotation db) (tf : TextFormats)
    (start : KdbStore db) (before after : List (BusyStore.Input tf)) :
    let s₀ := run (BusyStore.step tf ro) (.idle start) before
    let s := run (BusyStore.step tf ro) s₀ (.checkpoint :: after)
    ∀ e ∈ s₀.acked, s.Holds e.tier (toLogEvent tf e) ∧
      ∀ c, s.checkpoints[s₀.checkpoints.length]? = some c → c.outcome = some (.ok ()) →
        s.Settled ro start e.tier (toLogEvent tf e) := by
  intro s₀ s e he
  have hsound₀ : s₀.Sound tf ro start := BusyStore.sound_run start before
  have hholds := hsound₀.holds_of_acked he
  refine ⟨?_, fun c hc hok => BusyStore.settled_after_checkpoint hsound₀ hholds after hc hok⟩
  have hstep : ∀ (s : BusyStore db) (x : BusyStore.Input tf), s.Holds e.tier (toLogEvent tf e) →
      (s.step tf ro x).Holds e.tier (toLogEvent tf e) :=
    fun s x h => (BusyStore.follows_step s x).holds h
  exact run_invariant_of_step hstep hholds _

/-! ## 7. An engine with a log -/

/-- An engine in memory with a log in front of it. -/
def walDb : Keplordb where
  Engine := MemoryEngine × List LogEvent
  openEngine := fun _ => .ok (⟨[], [], false⟩, [])
  stored := fun e => e.1.segs.flatten ++ e.2
  visible := fun e => e.1.visible
  segments := fun e => e.1.segs
  appendBatchDurable := fun e rows =>
    if e.1.full then (.error "No space left on device (os error 28)", e)
    else (.ok (), (e.1, e.2 ++ rows))
  append_ok := by
    intro e e' rows h
    split at h
    · cases h
    · cases h
      simp
  append_error := by
    intro e e' rows m h
    split at h
    · cases h
      rfl
    · cases h
  gc := fun e c => let r := memoryDb.gc e.1 c; (r.1, (r.2, e.2))
  gc_drops := fun e c => memoryDb.gc_drops e.1 c
  deleteEvents := fun e ids => let r := memoryDb.deleteEvents e.1 ids; (r.1, (r.2, e.2))
  delete_hides := fun {e _ _} hr => memoryDb.delete_hides (e := e.1) hr
  delete_shows := fun {e _ _} hr => memoryDb.delete_shows (e := e.1) hr
  delete_ok := by
    intro e e' ids h r
    obtain ⟨hok, rfl⟩ := Prod.mk.inj h
    exact memoryDb.delete_ok (e := e.1) (Prod.ext hok rfl) r
  admits := MemoryEngine.admits
  admits_cursor := memoryDb.admits_cursor
  queryRecent := fun e qf n => .ok (e.1.query qf n)
  query_newest := by
    intro e qf n rows h
    cases h
    exact e.1.query_newest qf n

namespace MemoryEngine

theorem mem_visible {e : MemoryEngine} {r : LogEvent} :
    r ∈ e.visible ↔ r ∈ e.segs.flatten ∧ r.id ∉ e.tombstones := by
  simp only [visible, List.mem_filter, List.contains_eq_mem, Bool.not_eq_true',
    decide_eq_false_iff_not]

/-- A row of a segment that a collection drops is old. -/
theorem mem_kept_or_old {segs : List (List LogEvent)} {c : Int64} {r : LogEvent}
    (hr : r ∈ segs.flatten) :
    r ∈ (segs.filter fun seg => seg.any fun r => decide (c ≤ r.tsNs)).flatten ∨ r.tsNs < c := by
  obtain ⟨seg, hseg, hmem⟩ := List.mem_flatten.mp hr
  by_cases hkeep : (seg.any fun r => decide (c ≤ r.tsNs)) = true
  · exact .inl (List.mem_flatten.mpr ⟨seg, List.mem_filter.mpr ⟨hseg, hkeep⟩, hmem⟩)
  · simp only [List.any_eq_true, decide_eq_true_eq, not_exists, not_and, Int64.not_le] at hkeep
    exact .inr (hkeep r hmem)

end MemoryEngine

/-- A rotation makes one segment of the log. -/
def walRotation : Rotation walDb where
  flush := fun e =>
    if e.1.full then (.error "No space left on device (os error 28)", e)
    else (.ok (), ({ e.1 with segs := e.1.segs ++ [e.2] }, []))
  buried := fun e r => r.id ∈ e.1.tombstones
  flush_ok := by
    intro e e' h r hr
    split at h
    · cases h
    · cases h
      by_cases hid : r.id ∈ e.1.tombstones
      · exact .inr hid
      · refine .inl (MemoryEngine.mem_visible.mpr ⟨?_, hid⟩)
        simpa [walDb] using hr
  flush_carries := by
    intro e
    split
    · exact .refl _ e
    · refine ⟨fun r hr => .inl ?_, fun r hr => .inl ?_, fun r hr => .inl hr⟩
      · simpa [walDb] using hr
      · obtain ⟨hmem, hid⟩ := MemoryEngine.mem_visible.mp hr
        refine MemoryEngine.mem_visible.mpr ⟨?_, hid⟩
        rw [List.flatten_append]
        exact List.mem_append_left _ hmem
  append_carries := by
    intro e rows
    by_cases hfull : e.1.full = true
    · have hsame : (walDb.appendBatchDurable e rows).2 = e := by
        simp only [walDb, hfull, if_true]
        rfl
      rw [hsame]
      exact .refl _ e
    · have hlogged : (walDb.appendBatchDurable e rows).2 = (e.1, e.2 ++ rows) := by
        simp [walDb, hfull]
      rw [hlogged]
      refine ⟨fun r hr => .inl ?_, fun r hr => .inl hr, fun r hr => .inl hr⟩
      show r ∈ e.1.segs.flatten ++ (e.2 ++ rows)
      rw [← List.append_assoc]
      exact List.mem_append_left _ hr
  delete_carries := by
    intro e ids
    refine ⟨fun r hr => .inl ?_, fun r hr => memoryDb.delete_hides (e := e.1) hr, fun r hr => ?_⟩
    · simp only [walDb, memoryDb] at hr ⊢
      split
      · exact hr
      · exact hr
    · simp only [walDb, memoryDb] at hr
      split at hr
      · exact .inl hr
      · rcases List.mem_append.mp hr with hr | hr
        · exact .inr hr
        · exact .inl hr
  gc_carries := by
    intro e c
    refine ⟨fun r hr => ?_, fun r hr => ?_, fun r hr => .inl hr⟩
    · rcases List.mem_append.mp hr with hr | hr
      · exact (MemoryEngine.mem_kept_or_old hr).imp_left fun h => List.mem_append_left _ h
      · exact .inl (List.mem_append_right _ hr)
    · obtain ⟨hmem, hid⟩ := MemoryEngine.mem_visible.mp hr
      exact (MemoryEngine.mem_kept_or_old hmem).imp_left fun h => MemoryEngine.mem_visible.mpr ⟨h, hid⟩

/-- A store with one open tier. -/
def rotatingStart : KdbStore walDb where
  engines := [("free", (⟨[], [], false⟩, []))]

/-- An event of the open tier, and one of a tier that is opened for it. -/
def rotatingEvents : List LlmEvent :=
  [{ sampleEvent with id := ⟨1⟩, tier := "free" }, { sampleEvent with id := ⟨2⟩, tier := "pro" }]

/-- The two are written. -/
def beforeRotation : List (BusyStore.Input textFormats) :=
  [.append rotatingEvents _ (List.Perm.refl _), .appendTurn 0, .appendTurn 0, .appendTurn 0]

/-- The engines take their turns, and an id is deleted in between. -/
def duringRotation : List (BusyStore.Input textFormats) :=
  [.checkpointTurn 0, .delete ["00000000000000000000000009"] "free", .checkpointTurn 0,
    .checkpointTurn 0]

/-- The ids a query of a tier would show. -/
def visibleIds (s : BusyStore walDb) (tier : String) : List String :=
  ((s.store.get tier).map fun e => (walDb.visible e).map LogEvent.id).getD []

theorem acked_events_show_after_checkpoint_of_two_tiers :
    let s₀ := run (BusyStore.step textFormats walRotation) (.idle rotatingStart) beforeRotation
    let s := run (BusyStore.step textFormats walRotation) s₀ (.checkpoint :: duringRotation)
    visibleIds s₀ "pro" = [] ∧ visibleIds s "pro" = ["00000000000000000000000002"] ∧
      ∃ e ∈ s₀.acked, e.tier = "pro" ∧
        s.Settled walRotation rotatingStart e.tier (toLogEvent textFormats e) := by
  intro s₀ s
  have hshown₀ : visibleIds s₀ "pro" = [] := by decide +kernel
  have hshown : visibleIds s "pro" = ["00000000000000000000000002"] := by decide +kernel
  have hacked : s₀.acked = rotatingEvents := by decide +kernel
  have hdone : (s.checkpoints.map Checkpoint.outcome) = [some (.ok ())] := by decide +kernel
  refine ⟨hshown₀, hshown, { sampleEvent with id := ⟨2⟩, tier := "pro" }, ?_, rfl, ?_⟩
  · rw [hacked]
    simp [rotatingEvents]
  · obtain ⟨c, hc, hok⟩ : ∃ c, s.checkpoints[0]? = some c ∧ c.outcome = some (.ok ()) := by
      rw [← Option.map_eq_some_iff, ← List.getElem?_map, hdone]
      rfl
    refine (acked_events_show_after_checkpoint walRotation textFormats rotatingStart beforeRotation
      duringRotation _ ?_).2 c hc hok
    show { sampleEvent with id := ⟨2⟩, tier := "pro" } ∈ s₀.acked
    rw [hacked]
    simp [rotatingEvents]

end Keplor.Store
