import Keplor.Lib.Run
import Keplor.Store.Archive
import Keplor.Store.Query

/-!
# `Archiver::archive_old_events` — cycles of the archiver

A cycle reads every event below a cutoff, groups the events by user and day, cuts the groups into
chunks, and for each chunk uploads an object, records a manifest and deletes the events from every
engine. Each of these can fail, and what fails is left for a later cycle.

The cycle is a step function, with a step for everything that has an effect: the upload, the
manifest, the deletion in one engine. Between any two of them the store may change under the
archiver, as long as no visible event goes away. What the archiver promises is then about every
state of every run: an event that was visible once is visible, or is in an object that a recorded
manifest names (`archiving_loses_nothing`). The order of the steps is what makes it true; the
invariant of each stage (`StageOk`) says how far the current chunk has got.

Two things are taken from outside. Event ids are primary keys: the rows of the store are what
`to_log_event` made of events, one event to an id. And an archive id has not been used before.
-/

set_option autoImplicit false

namespace Keplor.Store

open Keplor.Lib Keplor.Core

/-! ## Reading and deleting -/

namespace KdbStore

variable {db : Keplordb}

/-- The order the archiver gets its events in: by user, then by time. -/
def ArchiveLe (a b : LlmEvent) : Prop :=
  a.userId.getD "" < b.userId.getD "" ∨ (a.userId.getD "" = b.userId.getD "" ∧ a.tsNs ≤ b.tsNs)

instance : DecidableRel ArchiveLe := fun a b =>
  inferInstanceAs (Decidable (a.userId.getD "" < b.userId.getD "" ∨
    (a.userId.getD "" = b.userId.getD "" ∧ a.tsNs ≤ b.tsNs)))

/-- `KdbStore::query_events_for_archive`; the sort is stable. -/
def queryEventsForArchive (s : KdbStore db) (tf : TextFormats) (olderThanNs : Int64) :
    Fallible StoreError (List LlmEvent) := do
  let out ← collectRecent tf { QueryFilter.empty with toTsNs := some olderThanNs } (2 ^ 64 - 1)
    s.engines
  return out.insertionSort ArchiveLe

/-- One turn of the loop of `delete_events_by_ids`. -/
def deleteFrom (s : KdbStore db) (ids : List String) (tier : String) :
    Except StoreError Unit × KdbStore db :=
  match s.get tier with
  | none => (.ok (), s)
  | some eng =>
    let r := db.deleteEvents eng ids
    (kdbErr r.1, s.put tier r.2)

/-- The loop over the engines: the first failure ends it. -/
def deleteTiers (ids : List String) :
    List String → KdbStore db → Except StoreError Unit × KdbStore db
  | [], s => (.ok (), s)
  | tier :: rest, s =>
    match s.deleteFrom ids tier with
    | (.error e, s) => (.error e, s)
    | (.ok (), s) => deleteTiers ids rest s

/-- The engines `delete_events_by_ids` goes through: none for no ids. -/
def deleteScope (s : KdbStore db) (ids : List EventId) : List String :=
  if ids.isEmpty then [] else s.engines.map Prod.fst

/-- `KdbStore::delete_events_by_ids` -/
def deleteEventsByIds (s : KdbStore db) (tf : TextFormats) (ids : List EventId) :
    Except StoreError Nat × KdbStore db :=
  let r := deleteTiers (ids.map tf.ulid.print) (s.deleteScope ids) s
  (r.1.map fun _ => ids.length, r.2)

variable {s : KdbStore db} {tf : TextFormats}

theorem fromEventRef_of_readRow {r : LogEvent} {e : LlmEvent} (h : readRow tf r = pure e) :
    fromEventRef tf r = pure e := by
  rw [readRow] at h
  rcases hr : (fromEventRef tf r).run with _ | m | e'
  · have hnone : fromEventRef tf r = ExceptT.mk none := hr
    rw [hnone] at h
    cases h
  · have herr : fromEventRef tf r = throw m := hr
    rw [herr] at h
    cases h
  · have hok : fromEventRef tf r = pure e' := hr
    rw [hok] at h
    rw [hok, Fallible.pure_inj (h : (pure e' : Fallible StoreError LlmEvent) = pure e)]

/-- What a query collects is read from visible rows. -/
theorem exists_row_of_mem_collectRecent {qf : QueryFilter} {limit : Nat}
    {engines : List (String × db.Engine)} {events : List LlmEvent}
    (h : collectRecent tf qf limit engines = pure events) :
    ∀ e ∈ events, ∃ p ∈ engines, ∃ r ∈ db.visible p.2, fromEventRef tf r = pure e := by
  induction engines generalizing events with
  | nil =>
    rw [collectRecent] at h
    rw [← Fallible.pure_inj h]
    simp
  | cons p rest ih =>
    obtain ⟨tier, eng⟩ := p
    rw [collectRecent] at h
    obtain ⟨rows, hrows, h⟩ := Fallible.bind_eq_pure h
    obtain ⟨read, hread, h⟩ := Fallible.bind_eq_pure h
    obtain ⟨more, hmore, h⟩ := Fallible.bind_eq_pure h
    rw [← Fallible.pure_inj h]
    intro e he
    rcases List.mem_append.mp he with he | he
    · obtain ⟨r, hr, hre⟩ :=
        exists_left_of_forall₂ (Fallible.inverts.mapM_eq_pure_iff.mp hread) he
      have hok : db.queryRecent eng qf limit = .ok rows := by
        have hkdb := Fallible.ofExcept_eq_pure hrows
        cases hq : db.queryRecent eng qf limit with
        | error m => rw [hq] at hkdb; cases hkdb
        | ok rows' => rw [hq] at hkdb; cases hkdb; rfl
      obtain ⟨left, hperm, -⟩ := db.query_newest hok
      have hvisible := List.mem_of_mem_filter (hperm.mem_iff.mpr (List.mem_append_left _ hr))
      exact ⟨(tier, eng), by simp, r, hvisible, fromEventRef_of_readRow hre⟩
    · obtain ⟨p, hp, hr⟩ := ih hmore e he
      exact ⟨p, by simp [hp], hr⟩

/-- What the archiver fetches is read from visible rows. -/
theorem exists_row_of_mem_queryEventsForArchive {olderThanNs : Int64} {events : List LlmEvent}
    (h : s.queryEventsForArchive tf olderThanNs = pure events) :
    ∀ e ∈ events, ∃ r, s.Sees r ∧ fromEventRef tf r = pure e := by
  rw [queryEventsForArchive] at h
  obtain ⟨out, hout, h⟩ := Fallible.bind_eq_pure h
  intro e he
  rw [← Fallible.pure_inj h, List.mem_insertionSort] at he
  obtain ⟨p, hp, r, hr, hre⟩ := exists_row_of_mem_collectRecent hout e he
  exact ⟨r, ⟨p, hp, hr⟩, hre⟩

/-- A deletion in one engine, whether it succeeds or not, hides nothing but the given ids. -/
theorem sees_deleteFrom {ids : List String} {tier : String} {r : LogEvent} (h : s.Sees r) :
    (s.deleteFrom ids tier).2.Sees r ∨ r.id ∈ ids := by
  obtain ⟨t, e, hget, hr⟩ := sees_iff.mp h
  rw [deleteFrom]
  cases heng : s.get tier with
  | none => exact .inl h
  | some eng =>
    by_cases ht : t = tier
    · subst ht
      rw [hget] at heng
      cases heng
      rcases db.delete_hides hr with hr | hid
      · exact .inl (sees_iff.mpr ⟨t, _, by rw [get_put, if_pos rfl], hr⟩)
      · exact .inr hid
    · exact .inl (sees_iff.mpr ⟨t, e, by rw [get_put, if_neg ht, hget], hr⟩)

/-- And it shows nothing new. -/
theorem sees_of_deleteFrom {ids : List String} {tier : String} {r : LogEvent}
    (h : (s.deleteFrom ids tier).2.Sees r) : s.Sees r := by
  rw [deleteFrom] at h
  cases heng : s.get tier with
  | none =>
    rw [heng] at h
    exact h
  | some eng =>
    rw [heng] at h
    obtain ⟨t, e, hget, hr⟩ := sees_iff.mp h
    rw [get_put] at hget
    split at hget
    · cases hget
      exact sees_iff.mpr ⟨tier, eng, heng, db.delete_shows hr⟩
    · exact sees_iff.mpr ⟨t, e, hget, hr⟩

end KdbStore

/-! ## The cycle -/

/-- The chunks of a cycle: the groups in order, each cut into pieces of the batch size. -/
def cycleChunks (batchSize : Nat) (events : List LlmEvent) : List (GroupKey × List LlmEvent) :=
  (groupEvents events).flatMap fun g => (chunks batchSize g.2).map fun c => (g.1, c)

/-- `ArchiveResult` -/
structure ArchiveResult where
  eventsArchived : Nat := 0
  filesUploaded : Nat := 0
  compressedBytes : Nat := 0
  eventsFailed : Nat := 0

/-- A chunk that is serialized and compressed. -/
structure Upload where
  key : GroupKey
  chunk : List LlmEvent
  archiveId : String
  jsonl : Jsonl
  compressed : List UInt8

/-- The path of its object. -/
def Upload.path (a : Archiver) (u : Upload) : String :=
  a.objPath (s3Key a u.key.user u.key.day u.archiveId)

/-- Its manifest. -/
def Upload.manifest (a : Archiver) (u : Upload) (createdAt : Int64) : ArchiveManifest :=
  manifestOf a u.chunk u.key.user u.key.day u.archiveId createdAt u.jsonl u.compressed

/-- A chunk that is uploaded and deleted counts towards the result. -/
def Upload.count (u : Upload) (acc : ArchiveResult) : ArchiveResult :=
  { acc with
    eventsArchived := acc.eventsArchived + u.jsonl.ids.length
    filesUploaded := acc.filesUploaded + 1
    compressedBytes := acc.compressedBytes + u.compressed.length }

/-- The counts after `delete_events_by_ids`: a chunk whose deletion failed is not counted. -/
def Upload.settle {α : Type} (u : Upload) (r : Except StoreError α) (acc : ArchiveResult) :
    ArchiveResult :=
  match r with
  | .ok _ => u.count acc
  | .error _ => acc

theorem Upload.settle_map {α β : Type} (u : Upload) (f : α → β) (r : Except StoreError α)
    (acc : ArchiveResult) : u.settle (r.map f) acc = u.settle r acc := by
  cases r <;> rfl

/-- Where a cycle stands: the chunks to come and the counts so far, and what is under way. -/
inductive Stage where
  /-- no cycle is running -/
  | idle
  /-- between two chunks -/
  | chunks (todo : List (GroupKey × List LlmEvent)) (acc : ArchiveResult)
  /-- about to put the object -/
  | uploading (u : Upload) (todo : List (GroupKey × List LlmEvent)) (acc : ArchiveResult)
  /-- about to record the manifest -/
  | recording (u : Upload) (todo : List (GroupKey × List LlmEvent)) (acc : ArchiveResult)
  /-- about to list the engines -/
  | recorded (u : Upload) (todo : List (GroupKey × List LlmEvent)) (acc : ArchiveResult)
  /-- deleting from the engines that are left -/
  | deleting (u : Upload) (tiers : List String) (todo : List (GroupKey × List LlmEvent))
      (acc : ArchiveResult)

/-- The store, the bucket with the manifests, and the archiver at work. -/
structure Archiving (db : Keplordb) where
  store : KdbStore db
  bucket : Bucket
  stage : Stage
  /-- what the cycles so far returned -/
  returned : List (Except StoreError ArchiveResult)

namespace Archiving

variable {db : Keplordb}

/-- What happens next, with the outcome where the world decides it. -/
inductive Input (db : Keplordb) where
  | start (olderThanNs : Int64) (batchSize : UInt64)
  | prepare (archiveId : String)
  | put (error : Option String)
  | record (createdAt : Int64) (error : Option StoreError)
  | scope
  | delete
  | finish
  /-- the store changes for reasons of its own -/
  | world (store : KdbStore db)

/-- The beginning of `archive_old_events`. A query that aborts, and pieces of size zero, end the
process before anything has happened. -/
def start (a : Archiver) (olderThanNs : Int64) (batchSize : UInt64) (s : Archiving db) :
    Archiving db :=
  match (s.store.queryEventsForArchive a.formats olderThanNs).run with
  | none => s
  | some (.error e) => { s with returned := s.returned ++ [.error e] }
  | some (.ok []) => { s with returned := s.returned ++ [.ok {}] }
  | some (.ok events) =>
    if batchSize = 0 then s else { s with stage := .chunks (cycleChunks batchSize.toNat events) {} }

/-- A chunk that could not be archived is counted and left for the next cycle. -/
def skip (chunk : List LlmEvent) (todo : List (GroupKey × List LlmEvent)) (acc : ArchiveResult)
    (s : Archiving db) : Archiving db :=
  { s with stage := .chunks todo { acc with eventsFailed := acc.eventsFailed + chunk.length } }

/-- One step of a cycle, or of the world. -/
def step (a : Archiver) (s : Archiving db) (x : Input db) : Archiving db :=
  match s.stage, x with
  | _, .world store => { s with store := store }
  | .idle, .start olderThanNs batchSize => s.start a olderThanNs batchSize
  | .chunks ((key, chunk) :: todo) acc, .prepare archiveId =>
    match Store.prepare a chunk with
    | .error _ => s.skip chunk todo acc
    | .ok (jsonl, compressed) =>
      { s with stage := .uploading ⟨key, chunk, archiveId, jsonl, compressed⟩ todo acc }
  | .uploading u todo acc, .put error =>
    match error with
    | some _ => s.skip u.chunk todo acc
    | none => { s with bucket := s.bucket.put (u.path a) u.compressed, stage := .recording u todo acc }
  | .recording u todo acc, .record createdAt error =>
    match error with
    | some _ => s.skip u.chunk todo acc
    | none =>
      { s with
        bucket := s.bucket.record (u.manifest a createdAt)
        stage := .recorded u todo acc }
  | .recorded u todo acc, .scope =>
    { s with stage := .deleting u (s.store.deleteScope u.jsonl.ids) todo acc }
  | .deleting u (tier :: tiers) todo acc, .delete =>
    match s.store.deleteFrom (u.jsonl.ids.map a.formats.ulid.print) tier with
    -- a failed deletion is logged; the chunk is not counted
    | (.error _, store) => { s with store := store, stage := .chunks todo acc }
    | (.ok (), store) => { s with store := store, stage := .deleting u tiers todo acc }
  | .deleting u [] todo acc, .delete => { s with stage := .chunks todo (u.count acc) }
  | .chunks [] acc, .finish => { s with stage := .idle, returned := s.returned ++ [.ok acc] }
  | _, _ => s

/-! ## What a step can do -/

/-- The chunk at hand is given up. -/
def skipped (chunk : List LlmEvent) (todo : List (GroupKey × List LlmEvent)) (acc : ArchiveResult) :
    Stage :=
  .chunks todo { acc with eventsFailed := acc.eventsFailed + chunk.length }

/-- Where a cycle can go without touching the store or the bucket. -/
inductive Moves (a : Archiver) (store : KdbStore db) : Stage → Input db → Stage → Prop where
  | stay (stage : Stage) (x : Input db) : Moves a store stage x stage
  | fetch {olderThanNs : Int64} {batchSize : UInt64} {events : List LlmEvent}
      (hquery : store.queryEventsForArchive a.formats olderThanNs = pure events)
      (hpos : batchSize ≠ 0) :
      Moves a store .idle (.start olderThanNs batchSize) (.chunks (cycleChunks batchSize.toNat events) {})
  | prepare {key : GroupKey} {chunk : List LlmEvent} {todo : List (GroupKey × List LlmEvent)}
      {acc : ArchiveResult} {archiveId : String} {jsonl : Jsonl} {compressed : List UInt8}
      (hp : Store.prepare a chunk = .ok (jsonl, compressed)) :
      Moves a store (.chunks ((key, chunk) :: todo) acc) (.prepare archiveId)
        (.uploading ⟨key, chunk, archiveId, jsonl, compressed⟩ todo acc)
  | unprepared {key : GroupKey} {chunk : List LlmEvent} {todo : List (GroupKey × List LlmEvent)}
      {acc : ArchiveResult} {archiveId : String} {e : StoreError}
      (hp : Store.prepare a chunk = .error e) :
      Moves a store (.chunks ((key, chunk) :: todo) acc) (.prepare archiveId) (skipped chunk todo acc)
  | notPut (u : Upload) (todo : List (GroupKey × List LlmEvent)) (acc : ArchiveResult) (e : String) :
      Moves a store (.uploading u todo acc) (.put (some e)) (skipped u.chunk todo acc)
  | notRecorded (u : Upload) (todo : List (GroupKey × List LlmEvent)) (acc : ArchiveResult)
      (createdAt : Int64) (e : StoreError) :
      Moves a store (.recording u todo acc) (.record createdAt (some e)) (skipped u.chunk todo acc)
  | scope (u : Upload) (todo : List (GroupKey × List LlmEvent)) (acc : ArchiveResult) :
      Moves a store (.recorded u todo acc) .scope
        (.deleting u (store.deleteScope u.jsonl.ids) todo acc)
  | deleted (u : Upload) (todo : List (GroupKey × List LlmEvent)) (acc : ArchiveResult) :
      Moves a store (.deleting u [] todo acc) .delete (.chunks todo (u.count acc))
  | finish (acc : ArchiveResult) : Moves a store (.chunks [] acc) .finish .idle

/-- Everything a step can do. -/
inductive Effect (a : Archiver) (s : Archiving db) (x : Input db) : Archiving db → Prop where
  | world (store : KdbStore db) (hx : x = .world store) : Effect a s x { s with store := store }
  | move {stage : Stage} (h : Moves a s.store s.stage x stage)
      (returned : List (Except StoreError ArchiveResult)) :
      Effect a s x { s with stage := stage, returned := returned }
  | put {u : Upload} {todo : List (GroupKey × List LlmEvent)} {acc : ArchiveResult}
      (hs : s.stage = .uploading u todo acc) (hx : x = .put none) :
      Effect a s x { s with
        bucket := s.bucket.put (u.path a) u.compressed
        stage := .recording u todo acc }
  | record {u : Upload} {todo : List (GroupKey × List LlmEvent)} {acc : ArchiveResult}
      {createdAt : Int64} (hs : s.stage = .recording u todo acc) (hx : x = .record createdAt none) :
      Effect a s x { s with
        bucket := s.bucket.record (u.manifest a createdAt)
        stage := .recorded u todo acc }
  | delete {u : Upload} {tier : String} {tiers : List String}
      {todo : List (GroupKey × List LlmEvent)} {acc : ArchiveResult} {stage : Stage}
      (hs : s.stage = .deleting u (tier :: tiers) todo acc) (hx : x = .delete)
      (hstage : stage = .chunks todo acc ∨ stage = .deleting u tiers todo acc) :
      Effect a s x { s with
        store := (s.store.deleteFrom (u.jsonl.ids.map a.formats.ulid.print) tier).2
        stage := stage }

theorem effect_start (a : Archiver) {s : Archiving db} (hs : s.stage = .idle) (olderThanNs : Int64)
    (batchSize : UInt64) :
    Effect a s (.start olderThanNs batchSize) (s.start a olderThanNs batchSize) := by
  rw [start]
  split
  · exact .move (.stay _ _) s.returned
  · exact .move (.stay _ _) _
  · exact .move (.stay _ _) _
  · rename_i events _ hquery
    split
    · exact .move (.stay _ _) s.returned
    · rename_i hpos
      exact .move (hs ▸ .fetch hquery hpos) s.returned

/-- A step has one of these effects. -/
theorem effect (a : Archiver) (s : Archiving db) (x : Input db) : Effect a s x (s.step a x) := by
  unfold step
  split
  · exact .world _ rfl
  · rename_i hs
    exact effect_start a hs _ _
  · rename_i hs
    split
    · rename_i hp
      exact .move (hs ▸ .unprepared hp) s.returned
    · rename_i hp
      exact .move (hs ▸ .prepare hp) s.returned
  · rename_i hs
    split
    · exact .move (hs ▸ .notPut _ _ _ _) s.returned
    · exact .put hs rfl
  · rename_i hs
    split
    · exact .move (hs ▸ .notRecorded _ _ _ _ _) s.returned
    · exact .record hs rfl
  · rename_i hs
    exact .move (hs ▸ .scope _ _ _) s.returned
  · rename_i u tier tiers todo acc hs
    have hdelete : ∀ stage, stage = .chunks todo acc ∨ stage = .deleting u tiers todo acc →
        Effect a s .delete { s with
          store := (s.store.deleteFrom (u.jsonl.ids.map a.formats.ulid.print) tier).2
          stage := stage } :=
      fun stage hstage => .delete hs rfl hstage
    split
    · rename_i hdel
      rw [hdel] at hdelete
      exact hdelete _ (.inl rfl)
    · rename_i hdel
      rw [hdel] at hdelete
      exact hdelete _ (.inr rfl)
  · rename_i hs
    exact .move (hs ▸ .deleted _ _ _) s.returned
  · rename_i hs
    exact .move (hs ▸ .finish _) _
  · exact .move (.stay _ _) s.returned

end Archiving

/-! ## Chunks -/

theorem toNat_pos {n : UInt64} (h : n ≠ 0) : 0 < n.toNat := by
  rw [Nat.pos_iff_ne_zero]
  exact fun h0 => h (UInt64.toNat_inj.mp h0)

theorem flatMap_cycleChunks {n : Nat} (hn : 0 < n) (events : List LlmEvent) :
    (cycleChunks n events).flatMap Prod.snd = (groupEvents events).flatMap Prod.snd := by
  rw [cycleChunks, List.flatMap_assoc]
  refine List.flatMap_congr fun g _ => ?_
  rw [List.flatMap_map]
  simp only [List.flatMap_id']
  exact flatten_chunks hn g.2

/-- Every event is in exactly one chunk, as often as it is there. -/
theorem perm_cycleChunks {n : Nat} (hn : 0 < n) (events : List LlmEvent) :
    ((cycleChunks n events).flatMap Prod.snd).Perm events := by
  rw [flatMap_cycleChunks hn]
  exact perm_groupBy groupKey events

/-- A chunk is not empty, is within the batch size, and has events of its own group only. -/
theorem of_mem_cycleChunks {n : Nat} (hn : 0 < n) {events : List LlmEvent}
    {kc : GroupKey × List LlmEvent} (h : kc ∈ cycleChunks n events) :
    kc.2 ≠ [] ∧ kc.2.length ≤ n ∧ ∀ e ∈ kc.2, groupKey e = kc.1 ∧ e ∈ events := by
  obtain ⟨g, hg, hmem⟩ := List.mem_flatMap.mp h
  obtain ⟨c, hc, rfl⟩ := List.mem_map.mp hmem
  have hlen := chunksAux_ne_nil hn _ _ c hc
  refine ⟨hlen.1, hlen.2, fun e he => ?_⟩
  have heg := mem_of_mem_chunks hn hc he
  refine ⟨key_of_mem_groupBy groupKey events g hg e heg, ?_⟩
  exact (perm_groupBy groupKey events).mem_iff.mp (List.mem_flatMap.mpr ⟨g, hg, heg⟩)

/-! ## What is never lost -/

/-- The event of the row is in an object that a recorded manifest names: the object is what the
archiver makes of a chunk with the event in it, and the manifest has the event's group, its time
within its bounds, and the number of events of the chunk. -/
def Archived (a : Archiver) (b : Bucket) (r : LogEvent) : Prop :=
  ∃ m ∈ b.manifests, ∃ chunk jsonl compressed,
    b.get (a.objPath m.s3Key) = some compressed ∧ prepare a chunk = .ok (jsonl, compressed) ∧
    m.eventCount.toNat = chunk.length ∧
    ∃ e ∈ chunk, fromEventRef a.formats r = pure e ∧ groupKey e = ⟨m.userId, m.day⟩ ∧
      m.minTsNs ≤ e.tsNs ∧ e.tsNs ≤ m.maxTsNs

/-- A new object under a new path takes nothing away. -/
theorem Archived.put {a : Archiver} {b : Bucket} {r : LogEvent} (h : Archived a b r) {path : String}
    (hpath : b.get path = none) (bytes : List UInt8) : Archived a (b.put path bytes) r := by
  obtain ⟨m, hm, chunk, jsonl, compressed, hget, hrest⟩ := h
  refine ⟨m, hm, chunk, jsonl, compressed, ?_, hrest⟩
  have hne : a.objPath m.s3Key ≠ path := by
    rintro rfl
    rw [hpath] at hget
    cases hget
  rw [Bucket.get, Bucket.put, List.lookup_cons, beq_false_of_ne hne]
  exact hget

theorem Archived.record {a : Archiver} {b : Bucket} {r : LogEvent} (h : Archived a b r)
    (m : ArchiveManifest) : Archived a (b.record m) r := by
  obtain ⟨m', hm', hrest⟩ := h
  exact ⟨m', List.mem_append_left _ hm', hrest⟩

section Cycle

variable {db : Keplordb} (a : Archiver) (eventOf : EventId → LlmEvent)

/-- The row was written for an event, the one with its id. -/
def Written (r : LogEvent) : Prop :=
  ∃ id, (eventOf id).id = id ∧ r = toLogEvent a.formats (eventOf id)

/-- A chunk of events read from written rows, all of one group. -/
structure ChunkOk (key : GroupKey) (chunk : List LlmEvent) : Prop where
  fits : chunk.length < 2 ^ 64
  group : ∀ e ∈ chunk, groupKey e = key
  read : ∀ e ∈ chunk, fromEventRef a.formats (toLogEvent a.formats (eventOf e.id)) = pure e

/-- A chunk on its way. -/
structure UploadOk (u : Upload) : Prop where
  chunk : ChunkOk a eventOf u.key u.chunk
  prepared : prepare a u.chunk = .ok (u.jsonl, u.compressed)

/-- How far the current chunk has got: its path is still free, then its object is there, then all
its rows are archived. -/
def StageOk (b : Bucket) : Stage → Prop
  | .idle => True
  | .chunks todo _ => ∀ kc ∈ todo, ChunkOk a eventOf kc.1 kc.2
  | .uploading u todo _ =>
      (UploadOk a eventOf u ∧ b.get (u.path a) = none) ∧ ∀ kc ∈ todo, ChunkOk a eventOf kc.1 kc.2
  | .recording u todo _ =>
      (UploadOk a eventOf u ∧ b.get (u.path a) = some u.compressed) ∧
        ∀ kc ∈ todo, ChunkOk a eventOf kc.1 kc.2
  | .recorded u todo _ | .deleting u _ todo _ =>
      (∀ r, Written a eventOf r → r.id ∈ u.jsonl.ids.map a.formats.ulid.print → Archived a b r) ∧
        ∀ kc ∈ todo, ChunkOk a eventOf kc.1 kc.2

namespace Archiving

/-- What the archiver keeps: the rows are written ones, and the stage is right. -/
structure Inv (s : Archiving db) : Prop where
  rows : ∀ r, s.store.Sees r → Written a eventOf r
  stage : StageOk a eventOf s.bucket s.stage

/-- What comes from outside: an archive id is new, and a change of the store hides no row and writes
only rows of events. -/
def Fair (s : Archiving db) : Input db → Prop
  | .prepare archiveId => ∀ key chunk todo acc, s.stage = .chunks ((key, chunk) :: todo) acc →
      s.bucket.get (a.objPath (s3Key a key.user key.day archiveId)) = none
  | .world store =>
      (∀ r, s.store.Sees r → store.Sees r) ∧ ∀ r, store.Sees r → Written a eventOf r
  | _ => True

/-- Nothing is lost between two states. -/
def Keeps (s s' : Archiving db) : Prop :=
  ∀ r, s.store.Sees r ∨ Archived a s.bucket r → s'.store.Sees r ∨ Archived a s'.bucket r

variable {a eventOf}

theorem Keeps.refl (s : Archiving db) : Keeps a s s := fun _ h => h

theorem Keeps.trans {s₁ s₂ s₃ : Archiving db} (h₁ : Keeps a s₁ s₂) (h₂ : Keeps a s₂ s₃) :
    Keeps a s₁ s₃ := fun r h => h₂ r (h₁ r h)

/-- The event read from a written row is the one that is read from the row of its id. -/
theorem read_of_written {r : LogEvent} {e : LlmEvent} (hw : Written a eventOf r)
    (h : fromEventRef a.formats r = pure e) :
    fromEventRef a.formats (toLogEvent a.formats (eventOf e.id)) = pure e := by
  obtain ⟨id, hid, rfl⟩ := hw
  have hparse := (fields_of_fromEventRef h).1
  have hrow : (toLogEvent a.formats (eventOf id)).id = a.formats.ulid.print id := by
    rw [← congrArg a.formats.ulid.print hid]
    rfl
  rw [hrow, a.formats.ulid.parse_print] at hparse
  rw [← Option.some.inj hparse]
  exact h

/-- The fetched events make chunks of the kind the cycle handles. -/
theorem chunkOk_of_mem_cycleChunks {s : Archiving db} (h : Inv a eventOf s) {olderThanNs : Int64}
    {events : List LlmEvent}
    (hquery : s.store.queryEventsForArchive a.formats olderThanNs = pure events)
    {batchSize : UInt64} (hpos : batchSize ≠ 0) :
    ∀ kc ∈ cycleChunks batchSize.toNat events, ChunkOk a eventOf kc.1 kc.2 := by
  intro kc hkc
  obtain ⟨-, hlen, hmem⟩ := of_mem_cycleChunks (toNat_pos hpos) hkc
  refine ⟨Nat.lt_of_le_of_lt hlen batchSize.toNat_lt, fun e he => (hmem e he).1, fun e he => ?_⟩
  obtain ⟨r, hsees, hr⟩ :=
    KdbStore.exists_row_of_mem_queryEventsForArchive hquery e (hmem e he).2
  exact read_of_written (h.rows r hsees) hr

/-- Once the manifest is recorded, every row with one of the chunk's ids is archived. -/
theorem archived_of_record {b : Bucket} {u : Upload} (hu : UploadOk a eventOf u)
    (hget : b.get (u.path a) = some u.compressed) (createdAt : Int64) {r : LogEvent}
    (hw : Written a eventOf r) (hid : r.id ∈ u.jsonl.ids.map a.formats.ulid.print) :
    Archived a (b.record (u.manifest a createdAt)) r := by
  obtain ⟨ls, hspec⟩ := toJsonl_spec (prepare_ok hu.prepared).1
  rw [hspec.ids_eq, List.map_map] at hid
  obtain ⟨e, he, heid⟩ := List.mem_map.mp hid
  have hread : fromEventRef a.formats r = pure e := by
    obtain ⟨id, hown, rfl⟩ := hw
    have hids : a.formats.ulid.print e.id = a.formats.ulid.print id := by
      rw [← congrArg a.formats.ulid.print hown]
      exact heid
    have hinj := congrArg a.formats.ulid.parse hids
    rw [a.formats.ulid.parse_print, a.formats.ulid.parse_print] at hinj
    rw [← Option.some.inj hinj]
    exact hu.chunk.read e he
  refine ⟨u.manifest a createdAt, by simp [Bucket.record], u.chunk, u.jsonl, u.compressed, hget,
    hu.prepared, ?_, e, he, hread, hu.chunk.group e he, hspec.minTs_le e he, hspec.le_maxTs e he⟩
  exact UInt64.toNat_ofNat_of_lt' hu.chunk.fits

/-- The next stage is right as long as the archive id is new. -/
theorem stageOk_of_moves {s : Archiving db} {x : Input db} {stage : Stage} (h : Inv a eventOf s)
    (hx : s.Fair a eventOf x) (hmove : Moves a s.store s.stage x stage) :
    StageOk a eventOf s.bucket stage := by
  have hstage := h.stage
  generalize hs : s.stage = now at hmove hstage
  cases hmove with
  | stay => exact hstage
  | fetch hquery hpos => exact chunkOk_of_mem_cycleChunks h hquery hpos
  | prepare hp =>
    have htodo := fun kc hkc => hstage kc (List.mem_cons_of_mem _ hkc)
    exact ⟨⟨⟨hstage _ List.mem_cons_self, hp⟩, hx _ _ _ _ hs⟩, htodo⟩
  | unprepared hp => exact fun kc hkc => hstage kc (List.mem_cons_of_mem _ hkc)
  | notPut u todo acc e => exact hstage.2
  | notRecorded u todo acc createdAt e => exact hstage.2
  | scope u todo acc => exact hstage
  | deleted u todo acc => exact hstage.2
  | finish acc => trivial

theorem inv_delete {s : Archiving db} (h : Inv a eventOf s) {u : Upload}
    (hids : ∀ r, Written a eventOf r → r.id ∈ u.jsonl.ids.map a.formats.ulid.print →
      Archived a s.bucket r) (tier : String) (stage : Stage)
    (hstage : StageOk a eventOf s.bucket stage) :
    let store := (s.store.deleteFrom (u.jsonl.ids.map a.formats.ulid.print) tier).2
    Inv a eventOf { s with store := store, stage := stage } ∧
      Keeps a s { s with store := store, stage := stage } := by
  refine ⟨⟨fun r hr => h.rows r (KdbStore.sees_of_deleteFrom hr), hstage⟩, fun r hr => ?_⟩
  rcases hr with hr | hr
  · rcases KdbStore.sees_deleteFrom hr with hr' | hid
    · exact .inl hr'
    · exact .inr (hids r (h.rows r hr) hid)
  · exact .inr hr

/-- A step keeps the invariant and loses nothing. -/
theorem inv_step (s : Archiving db) (x : Input db) (h : Inv a eventOf s) (hx : s.Fair a eventOf x) :
    Inv a eventOf (s.step a x) ∧ Keeps a s (s.step a x) := by
  have hstage := h.stage
  have heffect := effect a s x
  generalize s.step a x = s' at heffect ⊢
  cases heffect with
  | world store hworld =>
    subst hworld
    exact ⟨⟨hx.2, h.stage⟩, fun r hr => hr.imp_left (hx.1 r)⟩
  | move hmove returned =>
    have hok := stageOk_of_moves h hx hmove
    exact ⟨⟨h.rows, hok⟩, fun _ hr => hr⟩
  | put hs hput =>
    rw [hs] at hstage
    obtain ⟨⟨hu, hfree⟩, htodo⟩ := hstage
    refine ⟨⟨h.rows, ⟨hu, ?_⟩, htodo⟩, fun r hr => hr.imp_right fun hr => hr.put hfree _⟩
    simp [Bucket.get, Bucket.put]
  | record hs hrecord =>
    rw [hs] at hstage
    obtain ⟨⟨hu, hthere⟩, htodo⟩ := hstage
    refine ⟨⟨h.rows, fun r hw hid => ?_, htodo⟩, fun r hr => hr.imp_right fun hr => hr.record _⟩
    exact archived_of_record hu hthere _ hw hid
  | delete hs hdelete hnext =>
    rw [hs] at hstage
    obtain ⟨hids, htodo⟩ := hstage
    refine inv_delete h hids _ _ ?_
    rcases hnext with rfl | rfl
    · exact htodo
    · exact ⟨hids, htodo⟩

/-- A run loses nothing. -/
theorem inv_run {s : Archiving db} (h : Inv a eventOf s) {xs : List (Input db)}
    (hxs : Allowed (step a) (Fair a eventOf) s xs) :
    Inv a eventOf (run (step a) s xs) ∧ Keeps a s (run (step a) s xs) := by
  have hkeep : ∀ s' x, Inv a eventOf s' ∧ Keeps a s s' → s'.Fair a eventOf x →
      Inv a eventOf (s'.step a x) ∧ Keeps a s (s'.step a x) := by
    intro s' x h' hx
    obtain ⟨hinv, hkeeps⟩ := inv_step s' x h'.1 hx
    exact ⟨hinv, h'.2.trans hkeeps⟩
  exact run_invariant hkeep ⟨h, Keeps.refl s⟩ hxs

/-! ## The steps are the source's functions -/

/-- Prepare, put and record in a row are `archive_chunk`. -/
theorem run_archiveChunk {s : Archiving db} {key : GroupKey} {chunk : List LlmEvent}
    {todo : List (GroupKey × List LlmEvent)} {acc : ArchiveResult}
    (hs : s.stage = .chunks ((key, chunk) :: todo) acc) (io : ChunkIo) :
    let r := archiveChunk a io chunk key.user key.day s.bucket
    let s' := run (step a) s
      [.prepare io.archiveId, .put io.putError, .record io.createdAt io.insertError]
    s'.bucket = r.2 ∧ s'.store = s.store ∧
      match r.1 with
      | .error _ => s'.stage = (s.skip chunk todo acc).stage
      | .ok (n, ids) => ∃ u, s'.stage = .recorded u todo acc ∧ u.jsonl.ids = ids ∧
          u.compressed.length = n := by
  obtain ⟨store, bucket, stage, returned⟩ := s
  obtain rfl : stage = .chunks ((key, chunk) :: todo) acc := hs
  simp only [archiveChunk, run_cons, run_nil, step]
  cases hp : Store.prepare a chunk with
  | error e => exact ⟨rfl, rfl, rfl⟩
  | ok prepared =>
    obtain ⟨jsonl, compressed⟩ := prepared
    cases io.putError with
    | some e => exact ⟨rfl, rfl, rfl⟩
    | none =>
      cases io.insertError with
      | some e => exact ⟨rfl, rfl, rfl⟩
      | none => exact ⟨rfl, rfl, ⟨key, chunk, io.archiveId, jsonl, compressed⟩, rfl, rfl, rfl⟩

/-- A deletion outside its stage is no step. -/
theorem run_delete_chunks {s : Archiving db} {todo : List (GroupKey × List LlmEvent)}
    {acc : ArchiveResult} (hs : s.stage = .chunks todo acc) (n : Nat) :
    run (step a) s (List.replicate n .delete) = s := by
  induction n with
  | zero => rfl
  | succ n ih =>
    have hstep : s.step a .delete = s := by
      unfold step
      rw [hs]
    rw [List.replicate_succ, run_cons, hstep, ih]

/-- The deletions in a row are the loop of `delete_events_by_ids`. -/
theorem run_deleteTiers {u : Upload} {tiers : List String} {todo : List (GroupKey × List LlmEvent)}
    {acc : ArchiveResult} :
    ∀ {s : Archiving db}, s.stage = .deleting u tiers todo acc →
      let r := KdbStore.deleteTiers (u.jsonl.ids.map a.formats.ulid.print) tiers s.store
      run (step a) s (List.replicate (tiers.length + 1) .delete)
        = { s with store := r.2, stage := .chunks todo (u.settle r.1 acc) } := by
  induction tiers with
  | nil =>
    intro s hs
    have hstep : s.step a .delete = { s with stage := .chunks todo (u.count acc) } := by
      unfold step
      rw [hs]
    rw [List.length_nil, List.replicate_one, run_cons, run_nil, hstep]
    rfl
  | cons tier tiers ih =>
    intro s hs
    rw [KdbStore.deleteTiers, List.length_cons, List.replicate_succ, run_cons]
    rcases hd : s.store.deleteFrom (u.jsonl.ids.map a.formats.ulid.print) tier with ⟨e | _, store⟩
    · have hstep : s.step a .delete = { s with store := store, stage := .chunks todo acc } := by
        unfold step
        rw [hs]
        simp only [hd]
      rw [hstep, run_delete_chunks rfl]
      rfl
    · have hstep : s.step a .delete =
          { s with store := store, stage := .deleting u tiers todo acc } := by
        unfold step
        rw [hs]
        simp only [hd]
      rw [hstep]
      exact ih rfl

/-- Listing the engines and deleting from each is `delete_events_by_ids`. -/
theorem run_deleteEventsByIds {s : Archiving db} {u : Upload}
    {todo : List (GroupKey × List LlmEvent)} {acc : ArchiveResult}
    (hs : s.stage = .recorded u todo acc) :
    let r := s.store.deleteEventsByIds a.formats u.jsonl.ids
    run (step a) s
        (.scope :: List.replicate ((s.store.deleteScope u.jsonl.ids).length + 1) .delete)
      = { s with store := r.2, stage := .chunks todo (u.settle r.1 acc) } := by
  have hstep : s.step a .scope
      = { s with stage := .deleting u (s.store.deleteScope u.jsonl.ids) todo acc } := by
    unfold step
    rw [hs]
  simp only [KdbStore.deleteEventsByIds, Upload.settle_map]
  rw [run_cons, hstep]
  exact run_deleteTiers rfl

/-- A cycle that has something to do. -/
theorem start_of_query {s : Archiving db} {olderThanNs : Int64} {batchSize : UInt64}
    {events : List LlmEvent}
    (hquery : s.store.queryEventsForArchive a.formats olderThanNs = pure events)
    (hne : events ≠ []) (hpos : batchSize ≠ 0) :
    s.start a olderThanNs batchSize
      = { s with stage := .chunks (cycleChunks batchSize.toNat events) {} } := by
  rw [start, hquery]
  cases events with
  | nil => exact absurd rfl hne
  | cons e events => exact if_neg hpos

theorem step_start {s : Archiving db} (hs : s.stage = .idle) {olderThanNs : Int64}
    {batchSize : UInt64} :
    s.step a (.start olderThanNs batchSize) = s.start a olderThanNs batchSize := by
  unfold step
  rw [hs]

/-- A cycle begins without touching the bucket. -/
theorem bucket_start {s : Archiving db} (hs : s.stage = .idle) (olderThanNs : Int64)
    (batchSize : UInt64) : (s.step a (.start olderThanNs batchSize)).bucket = s.bucket := by
  rw [step_start hs, start]
  split
  · rfl
  · rfl
  · rfl
  · split <;> rfl

end Archiving

end Cycle

/-- Over any run of cycles, with any cutoffs and failures, from a store of written rows: an event
that is visible at some point is at every later point visible, or in an object that a recorded
manifest names. And when a cycle begins, the fetched events, each as often as it was fetched, are
what its chunks hold together; no chunk is empty, and each is of one group. -/
theorem archiving_loses_nothing (db : Keplordb) (a : Archiver) (eventOf : EventId → LlmEvent)
    (s₀ : Archiving db) (hidle : s₀.stage = .idle)
    (hrows : ∀ r, s₀.store.Sees r → Written a eventOf r) (xs ys : List (Archiving.Input db))
    (hfair : Allowed (Archiving.step a) (Archiving.Fair a eventOf) s₀ (xs ++ ys)) :
    (∀ r, (run (Archiving.step a) s₀ xs).store.Sees r →
      (run (Archiving.step a) s₀ (xs ++ ys)).store.Sees r ∨
        Archived a (run (Archiving.step a) s₀ (xs ++ ys)).bucket r) ∧
    ∀ (s : Archiving db) (olderThanNs : Int64) (batchSize : UInt64) (events : List LlmEvent),
      s.stage = .idle → batchSize ≠ 0 → events ≠ [] →
      s.store.queryEventsForArchive a.formats olderThanNs = pure events →
      ∃ todo, (s.step a (.start olderThanNs batchSize)).stage = .chunks todo {} ∧
        (todo.flatMap Prod.snd).Perm events ∧
        ∀ kc ∈ todo, kc.2 ≠ [] ∧ kc.2.length ≤ batchSize.toNat ∧ ∀ e ∈ kc.2, groupKey e = kc.1 := by
  have hinv : Archiving.Inv a eventOf s₀ := ⟨hrows, by rw [hidle]; trivial⟩
  obtain ⟨hxs, hys⟩ := allowed_append.mp hfair
  constructor
  · intro r hr
    rw [run_append]
    exact (Archiving.inv_run (Archiving.inv_run hinv hxs).1 hys).2 r (.inl hr)
  · intro s olderThanNs batchSize events hs hpos hne hquery
    have hn := toNat_pos hpos
    refine ⟨cycleChunks batchSize.toNat events, ?_, perm_cycleChunks hn events, fun kc hkc => ?_⟩
    · unfold Archiving.step
      rw [hs]
      exact congrArg Archiving.stage (Archiving.start_of_query hquery hne hpos)
    · obtain ⟨hnil, hlen, hmem⟩ := of_mem_cycleChunks hn hkc
      exact ⟨hnil, hlen, fun e he => (hmem e he).1⟩

/-- The archiver before its first cycle, over a store with one event. -/
def beforeArchiving : Archiving memoryDb :=
  { store := oneEvent, bucket := ⟨[], []⟩, stage := .idle, returned := [] }

/-- A cycle in which nothing fails. -/
def wholeCycle : List (Archiving.Input memoryDb) :=
  [.start 1800000000000000000 1000, .prepare "01", .put none, .record 1800000000 none, .scope,
    .delete, .delete, .finish]

/-- After it, the event is not visible any more, and it is archived. -/
theorem archiving_loses_nothing_one_event :
    ¬ (run (Archiving.step sampleArchiver) beforeArchiving wholeCycle).store.Sees
        (toLogEvent textFormats sampleEvent) ∧
      Archived sampleArchiver (run (Archiving.step sampleArchiver) beforeArchiving wholeCycle).bucket
        (toLogEvent textFormats sampleEvent) := by
  have hsees : ∀ r, beforeArchiving.store.Sees r ↔ r = toLogEvent textFormats sampleEvent :=
    fun r => sees_single rfl
  have hrows : ∀ r, beforeArchiving.store.Sees r →
      Written sampleArchiver (fun id => { sampleEvent with id := id }) r := by
    intro r hr
    rw [(hsees r).mp hr]
    exact ⟨sampleEvent.id, rfl, rfl⟩
  have hfair : Allowed (Archiving.step sampleArchiver)
      (Archiving.Fair sampleArchiver fun id => { sampleEvent with id := id }) beforeArchiving
      ([] ++ wholeCycle) := by
    refine ⟨trivial, fun key chunk todo acc _ => ?_, trivial, trivial, trivial, trivial, trivial,
      trivial, trivial⟩
    rw [Archiving.bucket_start rfl]
    rfl
  have hgone : ¬ (run (Archiving.step sampleArchiver) beforeArchiving wholeCycle).store.Sees
      (toLogEvent textFormats sampleEvent) := by
    refine not_sees_of_lengths (n := 1) ?_ _
    decide +kernel
  refine ⟨hgone, ?_⟩
  have hkept := (archiving_loses_nothing memoryDb sampleArchiver _ beforeArchiving rfl hrows []
    wholeCycle hfair).1 _ ((hsees _).mpr rfl)
  exact hkept.resolve_left hgone

end Keplor.Store
