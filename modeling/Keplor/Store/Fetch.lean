import Keplor.Store.ArchiveProgress
import Keplor.Store.Manifests

/-!
# What comes back from an archive file

`archived_chunk_reads_back_iff` says when an archive file reads back as what was written. A reader
that merges archived events needs less, and gets it always: whatever the metadata did on its way
through the line, the events that are read are the written ones in every other field
(`readLine_of_toLine`). So a row that is archived is found again by its id in the file that its
manifest names, if that file can be read at all.
-/

set_option autoImplicit false

namespace Keplor.Store

open Keplor.Lib Keplor.Core Keplor.Lib.Json

/-- A line that was written for an event is read as that event, the metadata aside. -/
theorem readLine_of_toLine {tf : TextFormats} {e e' : LlmEvent} {line : List Char}
    (hsha : e.requestSha256 = Sha256.zero ∧ e.responseSha256 = Sha256.zero)
    (hline : (StoredEvent.from tf e).toLine tf = some line) (h : readLine tf line = .ok e') :
    ∃ m, e' = { e with metadata := m } := by
  obtain ⟨error, herr, rfl⟩ := toLine_eq_some hline
  obtain ⟨s, hs, hinto⟩ := readLine_eq_ok.mp h
  rw [ofLine_members herr] at hs
  split at hs
  · obtain ⟨w, -, rfl⟩ := Option.map_eq_some_iff.mp hs
    rw [tryInto_from _ hsha] at hinto
    exact ⟨_, (Except.ok.inj hinto).symm⟩
  · cases hs

/-- The events of a file are read from the lines of the chunk, one by one. -/
theorem forall₂_of_fetchOne {a : Archiver} {b : Bucket} {m : ArchiveManifest} {chunk : List LlmEvent}
    {jsonl : Jsonl} {compressed : List UInt8} {events : List LlmEvent}
    (hp : prepare a chunk = .ok (jsonl, compressed)) (hget : b.get (a.objPath m.s3Key) = some compressed)
    (h : fetchOne a b m = .ok events) :
    ∃ ls, List.Forall₂ (fun e l => (StoredEvent.from a.formats e).toLine a.formats = some l) chunk ls ∧
      List.Forall₂ (fun l e => readLine a.formats l = .ok e) ls events := by
  obtain ⟨hj, hc⟩ := prepare_ok hp
  obtain ⟨ls, hspec⟩ := toJsonl_spec hj
  refine ⟨ls, hspec.lines_eq, ?_⟩
  have hprint : ∀ l ∈ ls, (∀ c ∈ l, 0x20 ≤ c.toNat) ∧ l ≠ [] := by
    intro l hl
    obtain ⟨e, -, he⟩ := exists_left_of_forall₂ hspec.lines_eq hl
    exact toLine_printable he
  rw [fetchOne, hget] at h
  by_cases hlen : jsonl.bytes.length ≤ decompressCap
  · simp only [a.zstd.decompress_within _ _ _ hc hlen, hspec.bytes_eq, Utf8.decode_encode] at h
    rw [readText_lines hprint] at h
    exact mapM_eq_ok.mp h
  · obtain ⟨e, he⟩ := a.zstd.decompress_beyond _ _ decompressCap hc (by omega)
    simp only [he] at h
    cases h

/-- Every event of the chunk is in the file, the metadata aside. -/
theorem exists_of_fetchOne {a : Archiver} {b : Bucket} {m : ArchiveManifest} {chunk : List LlmEvent}
    {jsonl : Jsonl} {compressed : List UInt8} {events : List LlmEvent}
    (hp : prepare a chunk = .ok (jsonl, compressed)) (hget : b.get (a.objPath m.s3Key) = some compressed)
    (h : fetchOne a b m = .ok events) {e : LlmEvent} (he : e ∈ chunk)
    (hsha : e.requestSha256 = Sha256.zero ∧ e.responseSha256 = Sha256.zero) :
    ∃ metadata, { e with metadata := metadata } ∈ events := by
  obtain ⟨ls, hlines, hread⟩ := forall₂_of_fetchOne hp hget h
  obtain ⟨line, hl, hline⟩ := exists_right_of_forall₂ hlines he
  obtain ⟨e', he', hle⟩ := exists_right_of_forall₂ hread hl
  obtain ⟨metadata, rfl⟩ := readLine_of_toLine hsha hline hle
  exact ⟨metadata, he'⟩

/-- And nothing else is. -/
theorem mem_of_fetchOne {a : Archiver} {b : Bucket} {m : ArchiveManifest} {chunk : List LlmEvent}
    {jsonl : Jsonl} {compressed : List UInt8} {events : List LlmEvent}
    (hp : prepare a chunk = .ok (jsonl, compressed)) (hget : b.get (a.objPath m.s3Key) = some compressed)
    (h : fetchOne a b m = .ok events)
    (hsha : ∀ e ∈ chunk, e.requestSha256 = Sha256.zero ∧ e.responseSha256 = Sha256.zero)
    {e' : LlmEvent} (he' : e' ∈ events) : ∃ e ∈ chunk, ∃ metadata, e' = { e with metadata := metadata } := by
  obtain ⟨ls, hlines, hread⟩ := forall₂_of_fetchOne hp hget h
  obtain ⟨line, hl, hle⟩ := exists_left_of_forall₂ hread he'
  obtain ⟨e, he, hline⟩ := exists_left_of_forall₂ hlines hl
  exact ⟨e, he, readLine_of_toLine (hsha e he) hline hle⟩

/-! ## Archived rows -/

/-- The manifest names an object with the event of the row in it. -/
def ArchivedIn (a : Archiver) (b : Bucket) (m : ArchiveManifest) (r : LogEvent) : Prop :=
  ∃ chunk jsonl compressed,
    b.get (a.objPath m.s3Key) = some compressed ∧ prepare a chunk = .ok (jsonl, compressed) ∧
    m.eventCount.toNat = chunk.length ∧
    ∃ e ∈ chunk, fromEventRef a.formats r = pure e ∧ groupKey e = ⟨m.userId, m.day⟩ ∧
      m.minTsNs ≤ e.tsNs ∧ e.tsNs ≤ m.maxTsNs

theorem archived_iff {a : Archiver} {b : Bucket} {r : LogEvent} :
    Archived a b r ↔ ∃ m ∈ b.manifests, ArchivedIn a b m r := Iff.rfl

/-- The object stays what it is while the archiver works. -/
theorem ArchivedIn.step {db : Keplordb} {a : Archiver} {eventOf : EventId → LlmEvent}
    {s : Archiving db} (h : Archiving.Inv a eventOf s) {m : ArchiveManifest} {r : LogEvent}
    (hr : ArchivedIn a s.bucket m r) (x : Archiving.Input db) :
    ArchivedIn a (s.step a x).bucket m r := by
  obtain ⟨chunk, jsonl, compressed, hget, hrest⟩ := hr
  exact ⟨chunk, jsonl, compressed, Archiving.object_step h hget, hrest⟩

/-- A fetch of the object returns the event of the row, the metadata aside. -/
theorem ArchivedIn.exists_event {a : Archiver} {b : Bucket} {m : ArchiveManifest} {r : LogEvent}
    (hr : ArchivedIn a b m r) {events : List LlmEvent} (h : fetchOne a b m = .ok events) :
    ∃ e metadata, fromEventRef a.formats r = pure e ∧ { e with metadata := metadata } ∈ events := by
  obtain ⟨chunk, jsonl, compressed, hget, hp, -, e, he, hread, -⟩ := hr
  have hsha := (fields_of_fromEventRef hread).2.2
  obtain ⟨metadata, hmem⟩ := exists_of_fetchOne hp hget h he hsha
  exact ⟨e, metadata, hread, hmem⟩

/-! ## What the archiver has recorded -/

section Recorded

variable {db : Keplordb} (a : Archiver) (eventOf : EventId → LlmEvent)

/-- The row an archived event was read from. -/
def rowOf (e : LlmEvent) : LogEvent := toLogEvent a.formats (eventOf e.id)

/-- The manifest names an object made of a chunk of events of its group, each read from its row, and
says how many they are and between which times. -/
def RecordedAs (b : Bucket) (m : ArchiveManifest) (chunk : List LlmEvent) : Prop :=
  ∃ jsonl compressed, b.get (a.objPath m.s3Key) = some compressed ∧
    prepare a chunk = .ok (jsonl, compressed) ∧ m.eventCount.toNat = chunk.length ∧
    ∀ e ∈ chunk, fromEventRef a.formats (rowOf a eventOf e) = pure e ∧
      groupKey e = ⟨m.userId, m.day⟩ ∧ m.minTsNs ≤ e.tsNs ∧ e.tsNs ≤ m.maxTsNs

/-- All manifests are of that kind. -/
def Recorded (b : Bucket) : Prop := ∀ m ∈ b.manifests, ∃ chunk, RecordedAs a eventOf b m chunk

variable {a eventOf} {s : Archiving db} {x : Archiving.Input db}

/-- A new manifest is that of the chunk at hand. -/
theorem manifest_of_step {m : ArchiveManifest} (hm : m ∈ (s.step a x).bucket.manifests) :
    m ∈ s.bucket.manifests ∨
      ∃ u todo acc createdAt, s.stage = .recording u todo acc ∧ m = u.manifest a createdAt := by
  have heffect := Archiving.effect a s x
  generalize s.step a x = s' at heffect hm
  cases heffect with
  | world store hx => exact .inl hm
  | move hmove returned => exact .inl hm
  | put hs hx => exact .inl hm
  | record hs hx =>
    rcases List.mem_append.mp hm with hm | hm
    · exact .inl hm
    · exact .inr ⟨_, _, _, _, hs, List.mem_singleton.mp hm⟩
  | delete hs hx hnext => exact .inl hm

theorem recordedAs_step (h : Archiving.Inv a eventOf s) {m : ArchiveManifest} {chunk : List LlmEvent}
    (hm : RecordedAs a eventOf s.bucket m chunk) : RecordedAs a eventOf (s.step a x).bucket m chunk := by
  obtain ⟨jsonl, compressed, hget, hrest⟩ := hm
  exact ⟨jsonl, compressed, Archiving.object_step h hget, hrest⟩

theorem recordedAs_upload {b : Bucket} {u : Upload} (hu : UploadOk a eventOf u)
    (hget : b.get (u.path a) = some u.compressed) (createdAt : Int64) :
    RecordedAs a eventOf b (u.manifest a createdAt) u.chunk := by
  obtain ⟨ls, hspec⟩ := toJsonl_spec (prepare_ok hu.prepared).1
  refine ⟨u.jsonl, u.compressed, hget, hu.prepared, ?_, fun e he => ?_⟩
  · exact UInt64.toNat_ofNat_of_lt' hu.chunk.fits
  · exact ⟨hu.chunk.read e he, hu.chunk.group e he, hspec.minTs_le e he, hspec.le_maxTs e he⟩

theorem recorded_step (h : Archiving.Inv a eventOf s) (hrec : Recorded a eventOf s.bucket) :
    Recorded a eventOf (s.step a x).bucket := by
  intro m hm
  rcases manifest_of_step hm with hm | ⟨u, todo, acc, createdAt, hs, rfl⟩
  · obtain ⟨chunk, hchunk⟩ := hrec m hm
    exact ⟨chunk, recordedAs_step h hchunk⟩
  · have hstage := h.stage
    rw [hs] at hstage
    exact ⟨u.chunk, recordedAs_step h (recordedAs_upload hstage.1.1 hstage.1.2 createdAt)⟩

theorem recorded_run {xs : List (Archiving.Input db)} (h : Archiving.Inv a eventOf s)
    (hrec : Recorded a eventOf s.bucket)
    (hxs : Allowed (Archiving.step a) (Archiving.Sound a eventOf) s xs) :
    Archiving.Inv a eventOf (run (Archiving.step a) s xs) ∧
      Recorded a eventOf (run (Archiving.step a) s xs).bucket := by
  have hkeep : ∀ (s : Archiving db) x, Archiving.Inv a eventOf s ∧ Recorded a eventOf s.bucket →
      s.Sound a eventOf x → Archiving.Inv a eventOf (s.step a x) ∧
        Recorded a eventOf (s.step a x).bucket :=
    fun s x h hx => ⟨Archiving.inv_of_sound h.1 hx, recorded_step h.1 h.2⟩
  exact run_invariant hkeep ⟨h, hrec⟩ hxs

/-- An event of a fetched file is one of the chunk, the metadata aside. -/
theorem RecordedAs.exists_mem {b : Bucket} {m : ArchiveManifest} {chunk events : List LlmEvent}
    (h : RecordedAs a eventOf b m chunk) (hfetch : fetchOne a b m = .ok events) {e' : LlmEvent}
    (he' : e' ∈ events) : ∃ e ∈ chunk, ∃ metadata, e' = { e with metadata := metadata } := by
  obtain ⟨jsonl, compressed, hget, hp, -, hread⟩ := h
  exact mem_of_fetchOne hp hget hfetch (fun e he => (fields_of_fromEventRef (hread e he).1).2.2) he'

/-- The row of an event of a fetched file is archived. -/
theorem RecordedAs.archivedIn {b : Bucket} {m : ArchiveManifest} {chunk : List LlmEvent}
    (h : RecordedAs a eventOf b m chunk) {e : LlmEvent} (he : e ∈ chunk) :
    ArchivedIn a b m (rowOf a eventOf e) := by
  obtain ⟨jsonl, compressed, hget, hp, hcount, hread⟩ := h
  exact ⟨chunk, jsonl, compressed, hget, hp, hcount, e, he, hread e he⟩

/-- The row an event was read from is a written one, with the event's id and time. -/
theorem written_rowOf {e : LlmEvent} (hread : fromEventRef a.formats (rowOf a eventOf e) = pure e) :
    Written a eventOf (rowOf a eventOf e) ∧ (rowOf a eventOf e).id = a.formats.ulid.print e.id ∧
      (rowOf a eventOf e).tsNs = e.tsNs := by
  obtain ⟨hparse, hts, -⟩ := fields_of_fromEventRef hread
  have hid : (eventOf e.id).id = e.id := by
    have hprint : (rowOf a eventOf e).id = a.formats.ulid.print (eventOf e.id).id := rfl
    rw [hprint, a.formats.ulid.parse_print] at hparse
    exact Option.some.inj hparse
  refine ⟨⟨e.id, hid, rfl⟩, ?_, hts.symm⟩
  exact congrArg a.formats.ulid.print hid

/-- A written row is the row of the event that is read from it. -/
theorem eq_rowOf {r : LogEvent} {e : LlmEvent} (hw : Written a eventOf r)
    (hread : fromEventRef a.formats r = pure e) : r = rowOf a eventOf e := by
  have hread' := Archiving.read_of_written hw hread
  refine WrittenRow.eq_of_id hw (written_rowOf hread').1 ?_
  rw [(written_rowOf hread').2.1]
  exact (WrittenRow.print_id hw hread).symm

end Recorded

/-! ## The manifests of a request -/

/-- `KdbStore::list_archives` over the recorded manifests. -/
def listArchives (b : Bucket) (userId : Option String) (fromTsNs toTsNs : Option Int64) :
    List ArchiveManifest :=
  (ManifestStore.ofList b.manifests).list userId fromTsNs toTsNs (UInt32.ofNat (2 ^ 32 - 1)) 0

/-- The manifest is of the user, and its span meets the window. -/
def ArchiveManifest.overlaps (m : ArchiveManifest) (userId : Option String)
    (fromTsNs toTsNs : Option Int64) : Bool :=
  userId.all (· == m.userId) && (!fromTsNs.any (m.maxTsNs < ·) && !toTsNs.any (· < m.minTsNs))

theorem ArchiveManifest.overlaps_iff {m : ArchiveManifest} {userId : Option String}
    {fromTsNs toTsNs : Option Int64} : m.overlaps userId fromTsNs toTsNs = true ↔
      (∀ u, userId = some u → m.userId = u) ∧ (∀ t, fromTsNs = some t → t ≤ m.maxTsNs) ∧
        ∀ t, toTsNs = some t → m.minTsNs ≤ t := by
  have huser : (userId.all (· == m.userId)) = true ↔ ∀ u, userId = some u → m.userId = u := by
    cases userId with
    | none => simp
    | some u =>
      rw [Option.all_some, beq_iff_eq]
      exact ⟨fun h u' hu => h ▸ Option.some.inj hu, fun h => (h u rfl).symm⟩
  have hafter : fromTsNs.any (m.maxTsNs < ·) = false ↔ ∀ t, fromTsNs = some t → t ≤ m.maxTsNs := by
    cases fromTsNs with
    | none => simp
    | some t => simp
  have hbefore : toTsNs.any (· < m.minTsNs) = false ↔ ∀ t, toTsNs = some t → m.minTsNs ≤ t := by
    cases toTsNs with
    | none => simp
    | some t => simp
  rw [overlaps, Bool.and_eq_true, Bool.and_eq_true, Bool.not_eq_true', Bool.not_eq_true', huser,
    hafter, hbefore]

/-- What `list` sorts are the recorded manifests that overlap. -/
theorem perm_overlapping (ms : List ArchiveManifest) (userId : Option String)
    (fromTsNs toTsNs : Option Int64) :
    ((ManifestStore.ofList ms).entries.flatMap fun (k, v) =>
      if userId.all (· == k.userId) then
        v.filter fun m => !fromTsNs.any (m.maxTsNs < ·) && !toTsNs.any (· < m.minTsNs)
      else []).Perm (ms.filter fun m => m.overlaps userId fromTsNs toTsNs) := by
  have hgroup : ∀ g ∈ groupBy indexKey ms, (if userId.all (· == g.1.userId) then
        g.2.filter fun m => !fromTsNs.any (m.maxTsNs < ·) && !toTsNs.any (· < m.minTsNs) else [])
      = g.2.filter fun m => m.overlaps userId fromTsNs toTsNs := by
    intro g hg
    have huser : ∀ m ∈ g.2, m.userId = g.1.userId := fun m hm =>
      congrArg IndexKey.userId (key_of_mem_groupBy indexKey ms g hg m hm)
    split
    · rename_i hall
      refine List.filter_congr fun m hm => ?_
      rw [ArchiveManifest.overlaps, huser m hm, hall, Bool.true_and]
    · rename_i hall
      refine (List.filter_eq_nil_iff.mpr fun m hm => ?_).symm
      rw [ArchiveManifest.overlaps, huser m hm, Bool.eq_false_iff.mpr hall, Bool.false_and]
      exact Bool.false_ne_true
  refine List.Perm.trans (.of_eq (List.flatMap_congr hgroup)) ?_
  rw [← List.filter_flatMap]
  exact (perm_groupBy indexKey ms).filter _

theorem toNat_u32Max : (UInt32.ofNat (2 ^ 32 - 1)).toNat = 2 ^ 32 - 1 := by decide

/-- The manifests of a request are recorded ones that overlap its window. -/
theorem mem_of_mem_listArchives {b : Bucket} {userId : Option String}
    {fromTsNs toTsNs : Option Int64} {m : ArchiveManifest}
    (h : m ∈ listArchives b userId fromTsNs toTsNs) :
    m ∈ b.manifests ∧ m.overlaps userId fromTsNs toTsNs = true := by
  rw [listArchives, ManifestStore.list] at h
  have hmem := List.mem_of_mem_drop (List.mem_of_mem_take h)
  rw [List.mem_insertionSort, (perm_overlapping _ _ _ _).mem_iff] at hmem
  exact List.mem_filter.mp hmem

/-- As long as their count fits the limit, they are all of them. -/
theorem perm_listArchives {b : Bucket} {userId : Option String} {fromTsNs toTsNs : Option Int64}
    (hfew : (b.manifests.filter fun m => m.overlaps userId fromTsNs toTsNs).length ≤ 2 ^ 32 - 1) :
    (listArchives b userId fromTsNs toTsNs).Perm
      (b.manifests.filter fun m => m.overlaps userId fromTsNs toTsNs) := by
  have hperm := perm_overlapping b.manifests userId fromTsNs toTsNs
  rw [listArchives, ManifestStore.list, List.take_of_length_le]
  · rw [show (0 : UInt32).toNat = 0 from rfl, List.drop_zero]
    exact (List.perm_insertionSort _ _).trans hperm
  · rw [List.length_drop, List.length_insertionSort, hperm.length_eq, toNat_u32Max]
    exact Nat.le_trans (Nat.sub_le _ _) hfew

theorem mem_listArchives {b : Bucket} {userId : Option String} {fromTsNs toTsNs : Option Int64}
    (hfew : (b.manifests.filter fun m => m.overlaps userId fromTsNs toTsNs).length ≤ 2 ^ 32 - 1)
    {m : ArchiveManifest} (hm : m ∈ b.manifests)
    (hoverlaps : m.overlaps userId fromTsNs toTsNs = true) :
    m ∈ listArchives b userId fromTsNs toTsNs :=
  (perm_listArchives hfew).mem_iff.mpr (List.mem_filter.mpr ⟨hm, hoverlaps⟩)

end Keplor.Store
