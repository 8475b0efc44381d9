import Keplor.Lib.Grouping
import Keplor.Lib.Int64
import Keplor.Lib.Lines
import Keplor.Store.LineRoundTrip

/-!
# `keplor-store/src/archive.rs` — chunks written to the object store and read back

A chunk is a list of events of one user and one day. `archiveChunk` writes it in four steps, any of
which can fail: serialize, compress, put the object, record a manifest. `fetchOne` goes the other way
from a manifest.

The two sides bound a chunk differently. The writer counts events, the reader counts bytes: it gives
the decompressor room for `decompressCap` bytes and no more. `fetchOne_iff` is the exact price of
that difference, together with what a single line can lose.

The object store and the compressor are parameters; `Zstd` carries what its documentation promises
about a bounded decompression.
-/

set_option autoImplicit false

namespace Keplor.Store

open Keplor.Lib Keplor.Core Keplor.Lib.Json

/-! ## Days and groups -/

/-- A number in decimal, padded with zeros to a width. -/
def padded (width : Nat) (n : Int) : String :=
  let digits := Nat.toDigits 10 n.natAbs
  let sign := if n < 0 then ['-'] else []
  String.ofList (sign ++ List.replicate (width - sign.length - digits.length) '0' ++ digits)

/-- `civil_from_days` — the proleptic Gregorian date of a day count, Hinnant's algorithm. -/
def civilFromDays (days : Int) : Int × Nat × Nat :=
  let z := days + 719468
  let era := Int.tdiv (if 0 ≤ z then z else z - 146096) 146097
  let doe := (z - era * 146097).toNat
  let yoe := (doe - doe / 1460 + doe / 36524 - doe / 146096) / 365
  let y := (yoe : Int) + era * 400
  let doy := doe - (365 * yoe + yoe / 4 - yoe / 100)
  let mp := (5 * doy + 2) / 153
  let d := doy - (153 * mp + 2) / 5 + 1
  let m := if mp < 10 then mp + 3 else mp - 9
  (if m ≤ 2 then y + 1 else y, m, d)

/-- `ts_ns_to_day` -/
def tsNsToDay (tsNs : Int64) : String :=
  let secs := Int.tdiv tsNs.toInt 1000000000
  let (y, m, d) := civilFromDays (Int.tdiv secs 86400)
  padded 4 y ++ "-" ++ padded 2 m ++ "-" ++ padded 2 d

example : tsNsToDay 1705276800000000000 = "2024-01-15" := by decide +kernel

/-- The key of a group: a user and a day. -/
structure GroupKey where
  user : String
  day : String
  deriving DecidableEq

/-- Keys are ordered by user, then by day. -/
instance : LT GroupKey := ⟨fun a b => a.user < b.user ∨ (a.user = b.user ∧ a.day < b.day)⟩

instance : DecidableLT GroupKey := fun a b =>
  inferInstanceAs (Decidable (a.user < b.user ∨ (a.user = b.user ∧ a.day < b.day)))

/-- The key an event is grouped under; without a user it is `"_none"`. -/
def groupKey (event : LlmEvent) : GroupKey := ⟨event.userId.getD "_none", tsNsToDay event.tsNs⟩

/-- `group_events` -/
def groupEvents (events : List LlmEvent) : List (GroupKey × List LlmEvent) :=
  groupBy groupKey events

/-! ## Writing a chunk -/

/-- `ArchiveManifest`; a `usize` has 64 bits. -/
structure ArchiveManifest where
  archiveId : String
  userId : String
  day : String
  s3Key : String
  eventCount : UInt64
  minTsNs : Int64
  maxTsNs : Int64
  compressedBytes : UInt64
  createdAt : Int64
  deriving DecidableEq

/-- `zstd::bulk`: decompression undoes compression within its capacity, and fails beyond it. -/
structure Zstd where
  compress : List UInt8 → Except String (List UInt8)
  decompress : List UInt8 → Nat → Except String (List UInt8)
  decompress_within : ∀ x c cap, compress x = .ok c → x.length ≤ cap → decompress c cap = .ok x
  decompress_beyond : ∀ x c cap, compress x = .ok c → cap < x.length →
    ∃ e, decompress c cap = .error e

/-- What the archiver is set up with. -/
structure Archiver where
  formats : TextFormats
  zstd : Zstd
  /-- the key prefix in the bucket -/
  keyPrefix : String
  /-- `ObjPath::from` -/
  objPath : String → String
  /-- what the client says of an object that is not there -/
  missingText : String
  /-- what `str::from_utf8` says of bytes that are no text -/
  utf8ErrorText : List UInt8 → String

/-- The accumulators of the serialization loop. -/
structure Jsonl where
  bytes : List UInt8
  minTs : Int64
  maxTs : Int64
  ids : List EventId

/-- Before the first event. -/
def Jsonl.empty : Jsonl :=
  { bytes := [], minTs := Int64.maxValue, maxTs := Int64.minValue, ids := [] }

/-- One turn of the serialization loop. -/
def pushEvent (tf : TextFormats) (acc : Jsonl) (event : LlmEvent) : Except StoreError Jsonl :=
  match (StoredEvent.from tf event).toLine tf with
  | none => throw (.internal ("json serialize: " ++ tf.serializeErrorText))
  | some line => return {
      bytes := acc.bytes ++ (Utf8.encode line ++ [10])
      minTs := if event.tsNs < acc.minTs then event.tsNs else acc.minTs
      maxTs := if acc.maxTs < event.tsNs then event.tsNs else acc.maxTs
      ids := acc.ids ++ [event.id] }

/-- The serialization loop. -/
def toJsonl (tf : TextFormats) (chunk : List LlmEvent) : Except StoreError Jsonl :=
  chunk.foldlM (pushEvent tf) Jsonl.empty

/-- The key of an object. -/
def s3Key (a : Archiver) (userKey day archiveId : String) : String :=
  a.keyPrefix ++ "/user_id=" ++ userKey ++ "/day=" ++ day ++ "/" ++ archiveId ++ ".jsonl.zstd"

/-- The manifest of a chunk. -/
def manifestOf (a : Archiver) (chunk : List LlmEvent) (userKey day archiveId : String)
    (createdAt : Int64) (jsonl : Jsonl) (compressed : List UInt8) : ArchiveManifest where
  archiveId := archiveId
  userId := userKey
  day := day
  s3Key := s3Key a userKey day archiveId
  eventCount := .ofNat chunk.length
  minTsNs := jsonl.minTs
  maxTsNs := jsonl.maxTs
  compressedBytes := .ofNat compressed.length
  createdAt := createdAt

/-- The object store and the recorded manifests. -/
structure Bucket where
  objects : List (String × List UInt8)
  manifests : List ArchiveManifest

/-- The object under a path: the one put last. -/
def Bucket.get (b : Bucket) (path : String) : Option (List UInt8) := b.objects.lookup path

/-- `client.put` -/
def Bucket.put (b : Bucket) (path : String) (bytes : List UInt8) : Bucket :=
  { b with objects := (path, bytes) :: b.objects }

/-- `insert_archive_manifest` -/
def Bucket.record (b : Bucket) (m : ArchiveManifest) : Bucket :=
  { b with manifests := b.manifests ++ [m] }

theorem Bucket.get_record_put (b : Bucket) (path : String) (bytes : List UInt8)
    (m : ArchiveManifest) : ((b.put path bytes).record m).get path = some bytes := by
  simp [Bucket.record, Bucket.put, Bucket.get]

/-- What the world decides during one `archive_chunk`: the fresh id, the clock, and whether the two
remote operations fail. -/
structure ChunkIo where
  archiveId : String
  createdAt : Int64
  putError : Option String
  insertError : Option StoreError

/-- The first half of `archive_chunk`: everything before the upload. -/
def prepare (a : Archiver) (chunk : List LlmEvent) : Except StoreError (Jsonl × List UInt8) := do
  let jsonl ← toJsonl a.formats chunk
  match a.zstd.compress jsonl.bytes with
  | .error e => throw (.internal ("zstd compress: " ++ e))
  | .ok compressed => return (jsonl, compressed)

/-- `Archiver::archive_chunk` -/
def archiveChunk (a : Archiver) (io : ChunkIo) (chunk : List LlmEvent) (userKey day : String)
    (b : Bucket) : Except StoreError (Nat × List EventId) × Bucket :=
  match prepare a chunk with
  | .error e => (.error e, b)
  | .ok (jsonl, compressed) =>
    let key := s3Key a userKey day io.archiveId
    match io.putError with
    | some e => (.error (.archiveS3 ("put " ++ key ++ ": " ++ e)), b)
    | none =>
      let b := b.put (a.objPath key) compressed
      match io.insertError with
      | some e => (.error e, b)
      | none =>
        (.ok (compressed.length, jsonl.ids),
          b.record (manifestOf a chunk userKey day io.archiveId io.createdAt jsonl compressed))

/-! ## Reading a chunk -/

/-- The room `fetch_one` gives the decompressor: 100 MiB. -/
def decompressCap : Nat := 100 * 1024 * 1024

/-- One line of an archive file. -/
def readLine (tf : TextFormats) (line : List Char) : Except StoreError LlmEvent :=
  match StoredEvent.ofLine tf line with
  | none => throw (.internal ("json parse: " ++ tf.jsonErrorText (String.ofList line)))
  | some stored => stored.tryInto tf

/-- The text of an archive file: its lines, the empty ones skipped. -/
def readText (tf : TextFormats) (text : List Char) : Except StoreError (List LlmEvent) :=
  ((lines '\n' '\r' text).filter fun l => !l.isEmpty).mapM (readLine tf)

/-- `Archiver::fetch_one` -/
def fetchOne (a : Archiver) (b : Bucket) (m : ArchiveManifest) : Except StoreError (List LlmEvent) :=
  match b.get (a.objPath m.s3Key) with
  | none => throw (.archiveS3 ("get " ++ m.s3Key ++ ": " ++ a.missingText))
  | some compressed =>
    match a.zstd.decompress compressed decompressCap with
    | .error e => throw (.internal ("zstd decompress: " ++ e))
    | .ok bytes =>
      match Utf8.decode bytes with
      | none => throw (.internal ("invalid utf8: " ++ a.utf8ErrorText bytes))
      | some text => readText a.formats text

/-- `Archiver::fetch_archived_events`, in manifest order. -/
def fetchArchivedEvents (a : Archiver) (b : Bucket) (ms : List ArchiveManifest) :
    Except StoreError (List LlmEvent) := do
  let chunks ← ms.mapM (fetchOne a b)
  return chunks.flatten

/-! ## What the writer produced -/

/-- The loop's result: the lines one after the other, bounds on every timestamp, the ids in order. -/
structure Jsonl.Spec (tf : TextFormats) (chunk : List LlmEvent) (lines : List (List Char))
    (j : Jsonl) : Prop where
  lines_eq : List.Forall₂ (fun e l => (StoredEvent.from tf e).toLine tf = some l) chunk lines
  bytes_eq : j.bytes = Utf8.encode (lines.flatMap fun l => l ++ ['\n'])
  ids_eq : j.ids = chunk.map LlmEvent.id
  minTs_le : ∀ e ∈ chunk, j.minTs ≤ e.tsNs
  le_maxTs : ∀ e ∈ chunk, e.tsNs ≤ j.maxTs

theorem encode_newline (l : List Char) : Utf8.encode (l ++ ['\n']) = Utf8.encode l ++ [10] := by
  rw [Utf8.encode_append]
  rfl

theorem pushEvent_spec {tf : TextFormats} {done : List LlmEvent} {ls : List (List Char)}
    {acc acc' : Jsonl} {e : LlmEvent} (h : acc.Spec tf done ls) (he : pushEvent tf acc e = .ok acc') :
    ∃ l, acc'.Spec tf (done ++ [e]) (ls ++ [l]) := by
  rw [pushEvent] at he
  cases hl : (StoredEvent.from tf e).toLine tf with
  | none => rw [hl] at he; cases he
  | some l =>
    rw [hl] at he
    cases he
    have hmin : ∀ t : Int64, acc.minTs ≤ t ∨ t = e.tsNs →
        (if e.tsNs < acc.minTs then e.tsNs else acc.minTs) ≤ t := by
      intro t ht
      rw [← min_def_lt]
      rcases ht with ht | rfl
      · exact min_le_of_right_le ht
      · exact min_le_left _ _
    have hmax : ∀ t : Int64, t ≤ acc.maxTs ∨ t = e.tsNs →
        t ≤ (if acc.maxTs < e.tsNs then e.tsNs else acc.maxTs) := by
      intro t ht
      rw [← max_def_lt]
      rcases ht with ht | rfl
      · exact le_max_of_le_left ht
      · exact le_max_right _ _
    refine ⟨l, ?_, ?_, ?_, ?_, ?_⟩
    · exact List.rel_append h.lines_eq (List.Forall₂.cons hl .nil)
    · simp only [h.bytes_eq, List.flatMap_append, List.flatMap_cons, List.flatMap_nil,
        List.append_nil, Utf8.encode_append (ls.flatMap _), encode_newline]
    · simp [h.ids_eq]
    · intro x hx
      rcases List.mem_append.mp hx with hx | hx
      · exact hmin _ (Or.inl (h.minTs_le x hx))
      · rw [List.mem_singleton.mp hx]; exact hmin _ (Or.inr rfl)
    · intro x hx
      rcases List.mem_append.mp hx with hx | hx
      · exact hmax _ (Or.inl (h.le_maxTs x hx))
      · rw [List.mem_singleton.mp hx]; exact hmax _ (Or.inr rfl)

theorem foldlM_pushEvent_spec {tf : TextFormats} {chunk : List LlmEvent} :
    ∀ {done : List LlmEvent} {ls : List (List Char)} {acc j : Jsonl}, acc.Spec tf done ls →
      chunk.foldlM (pushEvent tf) acc = .ok j → ∃ ls', j.Spec tf (done ++ chunk) ls' := by
  induction chunk with
  | nil =>
    intro done ls acc j h hj
    cases hj
    exact ⟨ls, by simpa using h⟩
  | cons e chunk ih =>
    intro done ls acc j h hj
    rw [List.foldlM_cons] at hj
    cases hp : pushEvent tf acc e with
    | error err => rw [hp] at hj; cases hj
    | ok acc' =>
      rw [hp] at hj
      obtain ⟨l, hl⟩ := pushEvent_spec h hp
      obtain ⟨ls', hls'⟩ := ih hl hj
      exact ⟨ls', by simpa using hls'⟩

/-- A chunk that serializes is written line by line. -/
theorem toJsonl_spec {tf : TextFormats} {chunk : List LlmEvent} {j : Jsonl}
    (h : toJsonl tf chunk = .ok j) : ∃ ls, j.Spec tf chunk ls := by
  have hinit : Jsonl.empty.Spec tf [] [] := ⟨.nil, rfl, rfl, by simp, by simp⟩
  simpa using foldlM_pushEvent_spec hinit h

/-! ## What the reader makes of it -/

theorem readLine_eq_ok {tf : TextFormats} {line : List Char} {e : LlmEvent} :
    readLine tf line = .ok e ↔ ∃ s, StoredEvent.ofLine tf line = some s ∧ s.tryInto tf = .ok e := by
  rw [readLine]
  cases StoredEvent.ofLine tf line with
  | none => exact iff_of_false (fun h => by cases h) (by simp)
  | some s => simp

/-- A written line has no control characters and is not empty. -/
theorem toLine_printable {tf : TextFormats} {s : StoredEvent} {line : List Char}
    (h : s.toLine tf = some line) : (∀ c ∈ line, 0x20 ≤ c.toNat) ∧ line ≠ [] := by
  obtain ⟨error, -, rfl⟩ := toLine_eq_some h
  exact ⟨print_printable tf.float _, print_ne_nil tf.float _⟩

/-- The text of whole lines is cut into exactly these lines. -/
theorem readText_lines {tf : TextFormats} {ls : List (List Char)}
    (h : ∀ l ∈ ls, (∀ c ∈ l, 0x20 ≤ c.toNat) ∧ l ≠ []) :
    readText tf (ls.flatMap fun l => l ++ ['\n']) = ls.mapM (readLine tf) := by
  have hctl : ∀ d : Char, d.toNat < 0x20 → ∀ l ∈ ls, d ∉ l := by
    intro d hd l hl hmem
    have := (h l hl).1 d hmem
    omega
  have hkeep : ls.filter (fun l => !l.isEmpty) = ls := by
    rw [List.filter_eq_self]
    intro l hl
    simpa using (h l hl).2
  rw [readText, lines_flatMap (fun l => l) ls (hctl '\n' (by decide)) (hctl '\r' (by decide)),
    List.map_id', hkeep]

theorem readText_eq_ok {tf : TextFormats} {chunk : List LlmEvent} {ls : List (List Char)}
    (hsha : ∀ e ∈ chunk, e.requestSha256 = Sha256.zero ∧ e.responseSha256 = Sha256.zero)
    (h : List.Forall₂ (fun e l => (StoredEvent.from tf e).toLine tf = some l) chunk ls) :
    readText tf (ls.flatMap fun l => l ++ ['\n']) = .ok chunk ↔ ∀ e ∈ chunk, MetadataFits tf e := by
  have hprint : ∀ l ∈ ls, (∀ c ∈ l, 0x20 ≤ c.toNat) ∧ l ≠ [] := by
    clear hsha
    induction h with
    | nil => simp
    | cons he _ ih => exact List.forall_mem_cons.mpr ⟨toLine_printable he, ih⟩
  rw [readText_lines hprint, mapM_eq_ok]
  clear hprint
  induction h with
  | nil => simp
  | @cons e l es ls he _ ih =>
    rw [List.forall₂_cons, readLine_eq_ok, tryInto_ofLine_iff (hsha e (by simp)) he,
      List.forall_mem_cons]
    exact and_congr_right fun _ => ih fun x hx => hsha x (List.mem_cons_of_mem e hx)

/-- The bytes an event takes in an archive file, its newline included. -/
def lineBytes (tf : TextFormats) (e : LlmEvent) : Nat :=
  match (StoredEvent.from tf e).toLine tf with
  | some line => Utf8.byteLen line + 1
  | none => 0

theorem length_bytes {tf : TextFormats} {chunk : List LlmEvent} {ls : List (List Char)} {j : Jsonl}
    (h : j.Spec tf chunk ls) : j.bytes.length = (chunk.map (lineBytes tf)).sum := by
  rw [h.bytes_eq, Utf8.length_encode]
  have hl := h.lines_eq
  clear h
  induction hl with
  | nil => rfl
  | @cons e l es ls he _ ih =>
    have hline : lineBytes tf e = Utf8.byteLen l + 1 := by simp only [lineBytes, he]
    have hnl : Utf8.byteLen ['\n'] = 1 := rfl
    rw [List.flatMap_cons, Utf8.byteLen_append, Utf8.byteLen_append, ih, List.map_cons,
      List.sum_cons, hline, hnl]

/-- What `archive_chunk` did when it returned `Ok`: the object is the compressed lines, and the
manifest is the last one recorded. -/
theorem archiveChunk_ok {a : Archiver} {io : ChunkIo} {chunk : List LlmEvent} {userKey day : String}
    {b b' : Bucket} {n : Nat} {ids : List EventId}
    (h : archiveChunk a io chunk userKey day b = (.ok (n, ids), b')) :
    ∃ jsonl compressed, prepare a chunk = .ok (jsonl, compressed) ∧ ids = jsonl.ids ∧
      b' = (b.put (a.objPath (s3Key a userKey day io.archiveId)) compressed).record
        (manifestOf a chunk userKey day io.archiveId io.createdAt jsonl compressed) := by
  rw [archiveChunk] at h
  cases hp : prepare a chunk with
  | error e => rw [hp] at h; cases h
  | ok p =>
    obtain ⟨jsonl, compressed⟩ := p
    rw [hp] at h
    cases hput : io.putError with
    | some e => simp [hput] at h
    | none =>
      cases hins : io.insertError with
      | some e => simp [hput, hins] at h
      | none =>
        simp only [hput, hins, Prod.mk.injEq, Except.ok.injEq] at h
        exact ⟨jsonl, compressed, rfl, h.1.2.symm, h.2.symm⟩

theorem prepare_ok {a : Archiver} {chunk : List LlmEvent} {jsonl : Jsonl} {compressed : List UInt8}
    (h : prepare a chunk = .ok (jsonl, compressed)) :
    toJsonl a.formats chunk = .ok jsonl ∧ a.zstd.compress jsonl.bytes = .ok compressed := by
  rw [prepare] at h
  cases hj : toJsonl a.formats chunk with
  | error e => rw [hj] at h; cases h
  | ok j =>
    rw [hj] at h
    cases hc : a.zstd.compress j.bytes with
    | error e => simp only [bind, Except.bind, hc] at h; cases h
    | ok c =>
      simp only [bind, Except.bind, hc] at h
      cases h
      exact ⟨rfl, hc⟩

/-- The manifest recorded for a chunk reads back as the chunk exactly when the lines fit the
decompressor's room and every event's metadata fits its line. -/
theorem fetchOne_iff {a : Archiver} {chunk : List LlmEvent} {jsonl : Jsonl} {compressed : List UInt8}
    {later : Bucket} {m : ArchiveManifest} (hp : prepare a chunk = .ok (jsonl, compressed))
    (hsha : ∀ e ∈ chunk, e.requestSha256 = Sha256.zero ∧ e.responseSha256 = Sha256.zero)
    (hget : later.get (a.objPath m.s3Key) = some compressed) :
    fetchOne a later m = .ok chunk ↔
      jsonl.bytes.length ≤ decompressCap ∧ ∀ e ∈ chunk, MetadataFits a.formats e := by
  obtain ⟨hj, hc⟩ := prepare_ok hp
  obtain ⟨ls, hspec⟩ := toJsonl_spec hj
  rw [fetchOne, hget]
  by_cases hlen : jsonl.bytes.length ≤ decompressCap
  · simp only [a.zstd.decompress_within _ _ _ hc hlen, hspec.bytes_eq, Utf8.decode_encode]
    rw [readText_eq_ok hsha hspec.lines_eq, ← hspec.bytes_eq]
    exact ⟨fun h => ⟨hlen, h⟩, fun h => h.2⟩
  · obtain ⟨e, he⟩ := a.zstd.decompress_beyond _ _ decompressCap hc (by omega)
    simp only [he]
    exact iff_of_false (fun h => by cases h) fun h => hlen h.1

/-- Whatever `archive_chunk` returned `Ok` for is read back by a later `fetch_one` of its manifest
exactly when its lines take at most `decompressCap` bytes together and every event's metadata fits
its line. `later` is any state in which the object is still there as it was put. -/
theorem archived_chunk_reads_back_iff (a : Archiver) (io : ChunkIo) (chunk : List LlmEvent)
    (userKey day : String) (b b' : Bucket) (n : Nat) (ids : List EventId)
    (hok : archiveChunk a io chunk userKey day b = (.ok (n, ids), b'))
    (hret : ∀ e ∈ chunk, Returned a.formats e) :
    ∃ m, b'.manifests = b.manifests ++ [m] ∧
      ∀ later : Bucket, later.get (a.objPath m.s3Key) = b'.get (a.objPath m.s3Key) →
        (fetchOne a later m = .ok chunk ↔
          (chunk.map (lineBytes a.formats)).sum ≤ decompressCap ∧
            ∀ e ∈ chunk, MetadataFits a.formats e) := by
  obtain ⟨jsonl, compressed, hp, -, rfl⟩ := archiveChunk_ok hok
  refine ⟨_, rfl, ?_⟩
  intro later hget
  obtain ⟨ls, hspec⟩ := toJsonl_spec (prepare_ok hp).1
  rw [← length_bytes hspec]
  refine fetchOne_iff hp (fun e he => (hret e he).sha) ?_
  rw [hget]
  exact Bucket.get_record_put _ _ _ _

/-! ## Running it -/

/-- A compressor that stores its input. -/
def storeZstd : Zstd where
  compress x := .ok x
  decompress c cap := if c.length ≤ cap then .ok c else .error "Destination buffer is too small"
  decompress_within := by
    intro x c cap hc hle
    cases hc
    rw [if_pos hle]
  decompress_beyond := by
    intro x c cap hc hlt
    cases hc
    exact ⟨_, if_neg (by omega)⟩

/-- An archiver over the stored text. -/
def sampleArchiver : Archiver where
  formats := textFormats
  zstd := storeZstd
  keyPrefix := "events"
  objPath s := s
  missingText := "not found"
  utf8ErrorText _ := "invalid utf-8"

/-- A call in which nothing fails. -/
def sampleIo : ChunkIo :=
  { archiveId := "01", createdAt := 1700000000, putError := none, insertError := none }

theorem toJsonl_isOk (tf : TextFormats) {chunk : List LlmEvent} (h : ∀ e ∈ chunk, ErrorWritable e) :
    ∃ j, toJsonl tf chunk = .ok j := by
  have hfold : ∀ acc : Jsonl, ∃ j, chunk.foldlM (pushEvent tf) acc = .ok j := by
    induction chunk with
    | nil => intro acc; exact ⟨acc, rfl⟩
    | cons e chunk ih =>
      intro acc
      obtain ⟨line, hline⟩ := (toLine_isSome tf).mpr (h e (by simp))
      obtain ⟨j, hj⟩ := ih (fun x hx => h x (List.mem_cons_of_mem e hx))
        { bytes := acc.bytes ++ (Utf8.encode line ++ [10])
          minTs := if e.tsNs < acc.minTs then e.tsNs else acc.minTs
          maxTs := if acc.maxTs < e.tsNs then e.tsNs else acc.maxTs
          ids := acc.ids ++ [e.id] }
      refine ⟨j, ?_⟩
      rw [List.foldlM_cons, pushEvent, hline]
      exact hj
  exact hfold Jsonl.empty

/-- With the storing compressor, a chunk whose errors can be written is archived. -/
theorem archiveChunk_sample {chunk : List LlmEvent} (h : ∀ e ∈ chunk, ErrorWritable e)
    (userKey day : String) (b : Bucket) :
    ∃ n ids b', archiveChunk sampleArchiver sampleIo chunk userKey day b = (.ok (n, ids), b') := by
  obtain ⟨j, hj⟩ := toJsonl_isOk sampleArchiver.formats h
  have hp : prepare sampleArchiver chunk = .ok (j, j.bytes) := by
    rw [prepare, hj]
    rfl
  refine ⟨j.bytes.length, j.ids,
    (b.put (s3Key sampleArchiver userKey day sampleIo.archiveId) j.bytes).record
      (manifestOf sampleArchiver chunk userKey day sampleIo.archiveId sampleIo.createdAt j j.bytes),
    ?_⟩
  rw [archiveChunk, hp]
  rfl

/-- The condition at a chunk of one small event. -/
theorem archived_chunk_reads_back_sample :
    ∃ n ids b' m, archiveChunk sampleArchiver sampleIo [norm sampleEvent] "_none" "2023-11-14"
        ⟨[], []⟩ = (.ok (n, ids), b') ∧ b'.manifests = [m] ∧
      fetchOne sampleArchiver b' m = .ok [norm sampleEvent] := by
  have hret : ∀ e ∈ [norm sampleEvent], Returned sampleArchiver.formats e := by
    intro e he
    rw [List.mem_singleton.mp he]
    refine returned_norm fun v hv => ?_
    cases hv
    exact TextFormats.fromJson_toJson (by decide) rfl
  have hwritable : ∀ e ∈ [norm sampleEvent], ErrorWritable e := by
    intro e he m hm
    rw [List.mem_singleton.mp he] at hm
    cases hm
  obtain ⟨n, ids, b', hok⟩ := archiveChunk_sample hwritable "_none" "2023-11-14" ⟨[], []⟩
  obtain ⟨m, hm, hfetch⟩ := archived_chunk_reads_back_iff _ _ _ _ _ _ _ _ _ hok hret
  refine ⟨n, ids, b', m, hok, by simpa using hm, (hfetch b' rfl).mpr ⟨?_, ?_⟩⟩
  · decide +kernel
  · intro e he v hv
    rw [List.mem_singleton.mp he] at hv
    cases hv
    exact ⟨by decide, by decide, rfl⟩

/-- A metadata string of `n` characters. -/
def longText (n : Nat) : JsonValue := ⟨.str (String.ofList (List.replicate n 'a')), trivial⟩

/-- An event of the sample's user and day with the long metadata. -/
def longEvent (n i : Nat) : LlmEvent :=
  norm { sampleEvent with id := ⟨BitVec.ofNat 128 i⟩, metadata := some (longText n) }

/-- `k` of them. -/
def longChunk (n k : Nat) : List LlmEvent := (List.range k).map (longEvent n)

theorem toJson_longText (n : Nat) :
    (textFormats.toJson (longText n)).toList = '"' :: List.replicate n 'a' ++ ['"'] := by
  have hplain : (List.replicate n 'a').flatMap escape = List.replicate n 'a' := by
    have ha : escape 'a' = ['a'] := by decide
    induction n with
    | zero => rfl
    | succ n ih => rw [List.replicate_succ, List.flatMap_cons, ih, ha]; rfl
  rw [TextFormats.toJson, String.toList_ofList, longText, print, printStr, String.toList_ofList,
    hplain]

theorem byteLen_longText (n : Nat) :
    Utf8.byteLen (textFormats.toJson (longText n)).toList = n + 2 := by
  have hrep : Utf8.byteLen (List.replicate n 'a') = n := by
    have ha : 'a'.utf8Size = 1 := by decide
    induction n with
    | zero => rfl
    | succ n ih => rw [List.replicate_succ, Utf8.byteLen_cons, ih, ha]; omega
  have hq : '"'.utf8Size = 1 := by decide
  rw [toJson_longText, List.cons_append, Utf8.byteLen_cons, Utf8.byteLen_append, hrep,
    Utf8.byteLen_cons, hq]
  simp only [Utf8.byteLen_nil]
  omega

theorem groupKey_longEvent (n i : Nat) : groupKey (longEvent n i) = ⟨"_none", "2023-11-14"⟩ := by
  have h : groupKey (norm sampleEvent) = ⟨"_none", "2023-11-14"⟩ := by decide +kernel
  exact h

theorem returned_longEvent (n i : Nat) : Returned textFormats (longEvent n i) := by
  refine returned_norm fun v hv => ?_
  obtain rfl := Option.some.inj hv
  exact TextFormats.fromJson_toJson (Nat.zero_le _) rfl

theorem errorWritable_longEvent (n i : Nat) : ErrorWritable (longEvent n i) := by
  intro m hm
  cases hm

theorem le_lineBytes_longEvent (n i : Nat) : n ≤ lineBytes textFormats (longEvent n i) := by
  obtain ⟨line, hline⟩ := (toLine_isSome textFormats).mpr (errorWritable_longEvent n i)
  obtain ⟨error, -, he⟩ := toLine_eq_some hline
  have hmeta : ofOption JsonValue.tree (StoredEvent.from textFormats (longEvent n i)).metadata
      = (longText n).tree := rfl
  have hobj := length_le_print_obj textFormats.float
    ((StoredEvent.from textFormats (longEvent n i)).membersBefore textFormats error)
    [("tier", .str (StoredEvent.from textFormats (longEvent n i)).tier)] "metadata" (longText n).tree
  have htext : (print textFormats.float (longText n).tree).length = n + 2 := by
    have h := congrArg List.length (toJson_longText n)
    rw [TextFormats.toJson, String.toList_ofList] at h
    simpa using h
  have hlen : n ≤ line.length := by
    rw [he, StoredEvent.members, hmeta]
    omega
  have hbytes := Utf8.length_le_byteLen line
  simp only [lineBytes, hline]
  omega

theorem le_sum_longChunk (n k : Nat) :
    k * n ≤ ((longChunk n k).map (lineBytes textFormats)).sum := by
  have h : ∀ is : List Nat,
      is.length * n ≤ ((is.map (longEvent n)).map (lineBytes textFormats)).sum := by
    intro is
    induction is with
    | nil => simp
    | cons i is ih =>
      have := le_lineBytes_longEvent n i
      simp only [List.map_cons, List.sum_cons, List.length_cons, Nat.succ_mul]
      omega
  simpa [longChunk] using h (List.range k)

/-- 1700 events with 65000 characters of metadata each, within the validator's limit and the default
batch size, are archived, and reading their manifest does not return them. -/
theorem long_chunk_unreadable :
    (∀ e ∈ longChunk 65000 1700,
      Returned textFormats e ∧ groupKey e = ⟨"_none", "2023-11-14"⟩) ∧
    Utf8.byteLen (textFormats.toJson (longText 65000)).toList ≤ 65536 ∧
    ∃ n ids b' m,
      archiveChunk sampleArchiver sampleIo (longChunk 65000 1700) "_none" "2023-11-14" ⟨[], []⟩
        = (.ok (n, ids), b') ∧ b'.manifests = [m] ∧
      fetchOne sampleArchiver b' m ≠ .ok (longChunk 65000 1700) := by
  have hmem : ∀ e ∈ longChunk 65000 1700, ∃ i, e = longEvent 65000 i := by
    intro e he
    obtain ⟨i, -, rfl⟩ := List.mem_map.mp he
    exact ⟨i, rfl⟩
  refine ⟨?_, ?_, ?_⟩
  · intro e he
    obtain ⟨i, rfl⟩ := hmem e he
    exact ⟨returned_longEvent _ i, groupKey_longEvent _ i⟩
  · rw [byteLen_longText]
    omega
  · have hwritable : ∀ e ∈ longChunk 65000 1700, ErrorWritable e := by
      intro e he
      obtain ⟨i, rfl⟩ := hmem e he
      exact errorWritable_longEvent _ i
    have hsha : ∀ e ∈ longChunk 65000 1700,
        e.requestSha256 = Sha256.zero ∧ e.responseSha256 = Sha256.zero := by
      intro e he
      obtain ⟨i, rfl⟩ := hmem e he
      exact (returned_longEvent _ i).sha
    have hsize := le_sum_longChunk 65000 1700
    generalize longChunk 65000 1700 = chunk at hwritable hsha hsize
    obtain ⟨n, ids, b', hok⟩ := archiveChunk_sample hwritable "_none" "2023-11-14" ⟨[], []⟩
    obtain ⟨jsonl, compressed, hp, -, rfl⟩ := archiveChunk_ok hok
    obtain ⟨ls, hspec⟩ := toJsonl_spec (prepare_ok hp).1
    have hlen : jsonl.bytes.length = (chunk.map (lineBytes textFormats)).sum := length_bytes hspec
    refine ⟨n, ids, _, _, hok, rfl, fun hfetch => ?_⟩
    have hcap := ((fetchOne_iff hp hsha (by exact Bucket.get_record_put _ _ _ _)).mp hfetch).1
    rw [decompressCap] at hcap
    omega

end Keplor.Store
