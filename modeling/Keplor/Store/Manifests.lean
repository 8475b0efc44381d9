import Keplor.Lib.Grouping
import Keplor.Lib.Lines
import Keplor.Lib.Run
import Keplor.Store.Archive
import Mathlib.Data.List.Sort

/-!
# `keplor-store/src/kdb_store/manifests.rs` — the manifest log

Manifests live in an append-only file of JSON lines, and are served from an index that `open` builds
by reading the file once. `insert` appends a line; `open` skips whatever does not parse, so that a
line cut off by a crash does not stop the reader.

Skipping is not the whole story. The file is opened for appending, and the next `insert` writes right
behind the cut-off line: its own record then sits in the middle of a line that does not parse.
`Ended` (`Lib/Lines.lean`) is the condition that rules this out, and `manifest_log_durable` says that
nothing else goes wrong in any run of opens, inserts, write errors and crashes.

A log that does not exist is one that is empty. The reader of the file itself does not fail here.
-/

set_option autoImplicit false

namespace Keplor.Store

open Keplor.Lib Keplor.Core Keplor.Lib.Json

/-! ## A line of the log -/

/-- `Record` — what a line holds. -/
structure Record where
  archiveId : String
  userId : String
  day : String
  s3Key : String
  eventCount : UInt64
  minTsNs : Int64
  maxTsNs : Int64
  compressedBytes : UInt64
  createdAt : Int64

/-- `impl From<ArchiveManifest> for Record` -/
def Record.from (m : ArchiveManifest) : Record where
  archiveId := m.archiveId
  userId := m.userId
  day := m.day
  s3Key := m.s3Key
  eventCount := m.eventCount
  minTsNs := m.minTsNs
  maxTsNs := m.maxTsNs
  compressedBytes := m.compressedBytes
  createdAt := m.createdAt

/-- `impl From<Record> for ArchiveManifest` -/
def Record.into (r : Record) : ArchiveManifest where
  archiveId := r.archiveId
  userId := r.userId
  day := r.day
  s3Key := r.s3Key
  eventCount := r.eventCount
  minTsNs := r.minTsNs
  maxTsNs := r.maxTsNs
  compressedBytes := r.compressedBytes
  createdAt := r.createdAt

@[simp] theorem Record.into_from (m : ArchiveManifest) : (Record.from m).into = m := rfl

/-- The members of a record, in declaration order. -/
def Record.members (r : Record) : List (String × Json) :=
  [("archive_id", .str r.archiveId), ("user_id", .str r.userId), ("day", .str r.day),
    ("s3_key", .str r.s3Key), ("event_count", ofU64 r.eventCount), ("min_ts_ns", ofInt64 r.minTsNs),
    ("max_ts_ns", ofInt64 r.maxTsNs), ("compressed_bytes", ofU64 r.compressedBytes),
    ("created_at", ofInt64 r.createdAt)]

/-- `serde_json::to_string` of a `Record`; strings and integers always serialize. -/
def Record.toLine (ff : FloatFormat) (r : Record) : List Char := print ff (.obj r.members)

/-- `Deserialize for Record` -/
def Record.ofMembers (ms : List (String × Json)) : Option Record := do
  return {
    archiveId := ← required toStr ms "archive_id"
    userId := ← required toStr ms "user_id"
    day := ← required toStr ms "day"
    s3Key := ← required toStr ms "s3_key"
    eventCount := ← required toU64 ms "event_count"
    minTsNs := ← required toInt64 ms "min_ts_ns"
    maxTsNs := ← required toInt64 ms "max_ts_ns"
    compressedBytes := ← required toU64 ms "compressed_bytes"
    createdAt := ← required toInt64 ms "created_at" }

/-- `serde_json::from_str::<Record>` -/
def Record.ofLine (ff : FloatFormat) (line : List Char) : Option Record :=
  match parse ff TextFormats.recursionLimit line with
  | some (.obj ms) => ofMembers ms
  | _ => none

theorem Record.ofMembers_members (r : Record) : Record.ofMembers r.members = some r := by
  have hk : (r.members.map Prod.fst).Nodup := by
    have hkeys : r.members.map Prod.fst = ["archive_id", "user_id", "day", "s3_key", "event_count",
      "min_ts_ns", "max_ts_ns", "compressed_bytes", "created_at"] := rfl
    rw [hkeys]
    decide
  have hm : ∀ (i : Nat) (k : String) (j : Json), r.members[i]? = some (k, j) →
      (k, j) ∈ r.members := fun i k j => List.mem_of_getElem?
  have hstr : ∀ (i : Nat) (k v : String), r.members[i]? = some (k, .str v) →
      required toStr r.members k = some v := by
    intro i k v hi
    rw [required_of_mem hk (hm i k _ hi)]
    rfl
  have hint : ∀ (i : Nat) (k : String) (x : Int64), r.members[i]? = some (k, ofInt64 x) →
      required toInt64 r.members k = some x := by
    intro i k x hi
    rw [required_of_mem hk (hm i k _ hi), toInt64_ofInt64]
  have hu64 : ∀ (i : Nat) (k : String) (x : UInt64), r.members[i]? = some (k, ofU64 x) →
      required toU64 r.members k = some x := by
    intro i k x hi
    rw [required_of_mem hk (hm i k _ hi), toU64_ofU64]
  rw [Record.ofMembers, hstr 0 _ _ rfl, hstr 1 _ _ rfl, hstr 2 _ _ rfl, hstr 3 _ _ rfl,
    hu64 4 _ _ rfl, hint 5 _ _ rfl, hint 6 _ _ rfl, hu64 7 _ _ rfl, hint 8 _ _ rfl]
  rfl

/-- A record reads back from its line. -/
theorem Record.ofLine_toLine (ff : FloatFormat) (r : Record) :
    Record.ofLine ff (r.toLine ff) = some r := by
  have hflat : Flat 1 (.obj r.members) :=
    Flat.obj (by simp [Record.members, Flat.str, flat_ofInt64, flat_ofU64])
  have hdepth : depth (.obj r.members) ≤ TextFormats.recursionLimit :=
    Nat.le_trans hflat.depth_le (by decide)
  rw [Record.ofLine, Record.toLine, parse_print, if_pos hdepth, hflat.reread ff]
  exact Record.ofMembers_members r

/-! ## The index -/

/-- `IndexKey` — the partition a manifest belongs to. -/
structure IndexKey where
  userId : String
  day : String
  deriving DecidableEq

/-- The derived order: by user, then by day. -/
instance : LT IndexKey := ⟨fun a b => a.userId < b.userId ∨ (a.userId = b.userId ∧ a.day < b.day)⟩

instance : DecidableLT IndexKey := fun a b =>
  inferInstanceAs (Decidable (a.userId < b.userId ∨ (a.userId = b.userId ∧ a.day < b.day)))

/-- The partition of a manifest. -/
def indexKey (m : ArchiveManifest) : IndexKey := ⟨m.userId, m.day⟩

/-- `ManifestStore` — the index; its file is passed beside it. -/
structure ManifestStore where
  entries : List (IndexKey × List ArchiveManifest)
  deriving DecidableEq

namespace ManifestStore

/-- The index of a list of manifests. -/
def ofList (ms : List ArchiveManifest) : ManifestStore := ⟨groupBy indexKey ms⟩

/-- `entries.entry(key).or_default().push(m)` -/
def push (s : ManifestStore) (m : ArchiveManifest) : ManifestStore :=
  ⟨insertGroup (indexKey m) m s.entries⟩

/-- Every manifest of the index, partition by partition. -/
def manifests (s : ManifestStore) : List ArchiveManifest := s.entries.flatMap Prod.snd

/-- What `open` makes of one line: nothing unless it is text, not empty, and a record. -/
def readEntry (ff : FloatFormat) (line : List UInt8) : Option ArchiveManifest :=
  match Utf8.decode line with
  | none => none
  | some [] => none
  | some (c :: cs) => (Record.ofLine ff (c :: cs)).map Record.into

/-- The manifests a log holds, in the order of its lines. -/
def readLog (ff : FloatFormat) (log : List UInt8) : List ArchiveManifest :=
  (lines 10 13 log).filterMap (readEntry ff)

/-- `ManifestStore::open` -/
def «open» (ff : FloatFormat) (log : List UInt8) : ManifestStore := ofList (readLog ff log)

/-- The bytes `insert` appends. -/
def entryBytes (ff : FloatFormat) (m : ArchiveManifest) : List UInt8 :=
  Utf8.encode ((Record.from m).toLine ff) ++ [10]

/-- An insert that failed: how much of its line is in the file, and the error of the operating
system. Failing before the first write leaves nothing, a failing sync the whole line. -/
structure WriteFault where
  written : Nat
  message : String

/-- `ManifestStore::insert`, with the store and the file after it. -/
def insert (ff : FloatFormat) (s : ManifestStore) (log : List UInt8) (m : ArchiveManifest)
    (fault : Option WriteFault) : Except StoreError Unit × ManifestStore × List UInt8 :=
  match fault with
  | some f => (.error (.io f.message), s, log ++ (entryBytes ff m).take f.written)
  | none => (.ok (), s.push m, log ++ entryBytes ff m)

/-- `ManifestStore::any_overlapping` -/
def anyOverlapping (s : ManifestStore) (userId : Option String) (fromTs toTs : Int64) : Bool :=
  s.entries.any fun (k, v) =>
    userId.all (· == k.userId) && v.any fun m => decide (fromTs ≤ m.maxTsNs ∧ m.minTsNs ≤ toTs)

/-- `ManifestStore::list`; the sort is stable. -/
def list (s : ManifestStore) (userId : Option String) (fromTsNs toTsNs : Option Int64)
    (limit offset : UInt32) : List ArchiveManifest :=
  let out := s.entries.flatMap fun (k, v) =>
    if userId.all (· == k.userId) then
      v.filter fun m => !fromTsNs.any (m.maxTsNs < ·) && !toTsNs.any (· < m.minTsNs)
    else []
  ((out.insertionSort fun a b => a.minTsNs ≤ b.minTsNs).drop offset.toNat).take limit.toNat

/-- `ManifestStore::summary`: how many, how many bytes, and the oldest timestamp. -/
def summary (s : ManifestStore) : UInt64 × UInt64 × Int64 :=
  let acc := s.manifests.foldl (fun (count, bytes, oldest) m =>
    (count + 1,
      if bytes.toNat + m.compressedBytes.toNat < 2 ^ 64 then bytes + m.compressedBytes
      else UInt64.ofNat (2 ^ 64 - 1),
      if m.minTsNs < oldest then m.minTsNs else oldest))
    ((0 : UInt64), (0 : UInt64), Int64.maxValue)
  (acc.1, acc.2.1, if acc.1 = 0 then 0 else acc.2.2)

end ManifestStore

/-! ## Reading a log in parts -/

namespace ManifestStore

theorem readEntry_toLine (ff : FloatFormat) (m : ArchiveManifest) :
    readEntry ff (Utf8.encode ((Record.from m).toLine ff)) = some m := by
  have hread := Record.ofLine_toLine ff (Record.from m)
  have hne : (Record.from m).toLine ff ≠ [] := print_ne_nil ff _
  rw [readEntry, Utf8.decode_encode]
  cases hl : (Record.from m).toLine ff with
  | nil => exact absurd hl hne
  | cons c cs =>
    rw [hl] at hread
    simp only [hread, Option.map_some, Record.into_from]

theorem readLog_entryBytes (ff : FloatFormat) (m : ArchiveManifest) :
    readLog ff (entryBytes ff m) = [m] := by
  have hctl : ∀ b : UInt8, b.toNat < 0x20 → b ∉ Utf8.encode ((Record.from m).toLine ff) :=
    fun b hb => Utf8.notMem_encode (print_printable ff _) hb
  rw [readLog, entryBytes, lines_append_newline _ _ (hctl 10 (by decide)),
    dropCr_of_notMem (hctl 13 (by decide)), lines_nil, List.filterMap_cons, readEntry_toLine]
  rfl

/-- What follows an ended log is read by itself. -/
theorem readLog_append (ff : FloatFormat) {log : List UInt8} (h : Ended 10 log) (more : List UInt8) :
    readLog ff (log ++ more) = readLog ff log ++ readLog ff more := by
  rw [readLog, lines_append_of_ended h, List.filterMap_append]
  rfl

theorem ofList_append (ms : List ArchiveManifest) (m : ArchiveManifest) :
    ofList (ms ++ [m]) = (ofList ms).push m := by
  rw [ofList, groupBy, List.foldl_append]
  rfl

/-- The index after an insert is the index of the longer log. -/
theorem open_append_entryBytes (ff : FloatFormat) {log : List UInt8} (h : Ended 10 log)
    (m : ArchiveManifest) : .open ff (log ++ entryBytes ff m) = (ManifestStore.open ff log).push m := by
  rw [ManifestStore.open, readLog_append ff h, readLog_entryBytes, ofList_append]
  rfl

theorem perm_manifests_ofList (ms : List ArchiveManifest) : (ofList ms).manifests.Perm ms :=
  perm_groupBy indexKey ms

theorem perm_manifests_push (s : ManifestStore) (m : ArchiveManifest) :
    (s.push m).manifests.Perm (m :: s.manifests) :=
  perm_insertGroup (indexKey m) m s.entries

theorem count_manifests_open (ff : FloatFormat) (log : List UInt8) (m : ArchiveManifest) :
    (ManifestStore.open ff log).manifests.count m = (readLog ff log).count m :=
  (perm_manifests_ofList _).count_eq m

end ManifestStore

/-! ## Runs -/

/-- A process and its log. The last two fields are there to speak about a run: the manifests whose
insert returned `Ok`, and whether the store has only seen such inserts since it was opened. -/
structure ManifestNode where
  log : List UInt8
  /-- `none` between a crash and the next open -/
  store : Option ManifestStore
  confirmed : List ArchiveManifest
  clean : Bool

/-- What happens to a node. -/
inductive ManifestInput where
  | «open»
  | insert (m : ArchiveManifest) (fault : Option ManifestStore.WriteFault)
  /-- the process dies during an insert, with this many bytes of the line in the file -/
  | crash (m : ArchiveManifest) (written : Nat)

namespace ManifestNode

/-- A node that has not been opened, with whatever its log holds. -/
def start (log : List UInt8) : ManifestNode :=
  { log := log, store := none, confirmed := [], clean := false }

/-- One step of a node; only an open store can be inserted into. -/
def step (ff : FloatFormat) (s : ManifestNode) : ManifestInput → ManifestNode
  | .open => { s with store := some (.open ff s.log), clean := true }
  | .insert m fault =>
    match s.store with
    | none => s
    | some st =>
      match st.insert ff s.log m fault with
      | (.ok (), st', log') =>
          { s with log := log', store := some st', confirmed := s.confirmed ++ [m] }
      | (.error _, st', log') => { s with log := log', store := some st', clean := false }
  | .crash m written =>
    match s.store with
    | none => s
    | some _ =>
      { s with
        log := s.log ++ (ManifestStore.entryBytes ff m).take written
        store := none
        clean := false }

/-- An insert that succeeds meets a log without an unfinished line. -/
def FreshLine (s : ManifestNode) : ManifestInput → Prop
  | .insert _ none => Ended 10 s.log
  | _ => True

/-- Everything confirmed is in the finished part of the log and in the index, and an index that has
only seen successful inserts is the one of the log. -/
structure Inv (ff : FloatFormat) (s : ManifestNode) : Prop where
  settled : ∃ done tail, s.log = done ++ tail ∧ Ended 10 done ∧
    ∀ m, s.confirmed.count m ≤ (ManifestStore.readLog ff done).count m
  held : ∀ st, s.store = some st → ∀ m, s.confirmed.count m ≤ st.manifests.count m
  current : ∀ st, s.store = some st → s.clean = true → st = .open ff s.log

variable {ff : FloatFormat} {s : ManifestNode}

theorem step_insert_ok {st : ManifestStore} (h : s.store = some st) (m : ArchiveManifest) :
    step ff s (.insert m none) =
      { s with
        log := s.log ++ ManifestStore.entryBytes ff m
        store := some (st.push m)
        confirmed := s.confirmed ++ [m] } := by
  rw [step, h]
  rfl

theorem step_insert_error {st : ManifestStore} (h : s.store = some st) (m : ArchiveManifest)
    (f : ManifestStore.WriteFault) :
    step ff s (.insert m (some f)) =
      { s with
        log := s.log ++ (ManifestStore.entryBytes ff m).take f.written
        store := some st
        clean := false } := by
  rw [step, h]
  rfl

theorem step_insert_closed (h : s.store = none) (m : ArchiveManifest)
    (fault : Option ManifestStore.WriteFault) : step ff s (.insert m fault) = s := by
  rw [step, h]

theorem Inv.count_le (h : Inv ff s) (m : ArchiveManifest) :
    s.confirmed.count m ≤ (ManifestStore.open ff s.log).manifests.count m := by
  obtain ⟨done, tail, hlog, hended, hle⟩ := h.settled
  rw [ManifestStore.count_manifests_open, hlog, ManifestStore.readLog_append ff hended,
    List.count_append]
  exact Nat.le_trans (hle m) (Nat.le_add_right _ _)

/-- More bytes after the finished part change nothing that is settled. -/
theorem settled_append (h : Inv ff s) (more : List UInt8) :
    ∃ done tail, s.log ++ more = done ++ tail ∧ Ended 10 done ∧
      ∀ m, s.confirmed.count m ≤ (ManifestStore.readLog ff done).count m := by
  obtain ⟨done, tail, hlog, hended, hle⟩ := h.settled
  exact ⟨done, tail ++ more, by rw [hlog, List.append_assoc], hended, hle⟩

theorem ended_append_entryBytes (log : List UInt8) (m : ArchiveManifest) :
    Ended 10 (log ++ ManifestStore.entryBytes ff m) := by
  right
  rw [ManifestStore.entryBytes, ← List.append_assoc, List.getLast?_append]
  rfl

theorem inv_start (log : List UInt8) : Inv ff (start log) where
  settled := ⟨[], log, rfl, Or.inl rfl, fun _ => Nat.zero_le _⟩
  held st hst := by cases hst
  current st hst := by cases hst

theorem inv_step (s : ManifestNode) (x : ManifestInput) (h : Inv ff s) (hx : s.FreshLine x) :
    Inv ff (step ff s x) := by
  cases x with
  | «open» =>
    refine ⟨h.settled, ?_, ?_⟩
    · intro st hst m
      obtain rfl := Option.some.inj hst
      exact h.count_le m
    · intro st hst _
      exact (Option.some.inj hst).symm
  | insert m fault =>
    cases hstore : s.store with
    | none => rwa [step_insert_closed hstore]
    | some st =>
      cases fault with
      | some f =>
        rw [step_insert_error hstore]
        refine ⟨settled_append h _, ?_, fun _ _ hclean => by cases hclean⟩
        intro st' hst'
        obtain rfl := Option.some.inj hst'
        exact h.held st hstore
      | none =>
        have hended : Ended 10 s.log := hx
        rw [step_insert_ok hstore]
        refine ⟨⟨_, [], (List.append_nil _).symm, ended_append_entryBytes _ m, ?_⟩, ?_, ?_⟩
        · intro n
          have hle := h.count_le n
          rw [ManifestStore.count_manifests_open] at hle
          rw [ManifestStore.readLog_append ff hended, ManifestStore.readLog_entryBytes,
            List.count_append, List.count_append]
          exact Nat.add_le_add_right hle _
        · intro st' hst' n
          obtain rfl := Option.some.inj hst'
          rw [(ManifestStore.perm_manifests_push st m).count_eq, List.count_append,
            List.count_singleton, List.count_cons]
          exact Nat.add_le_add_right (h.held st hstore n) _
        · intro st' hst' hclean
          obtain rfl := Option.some.inj hst'
          rw [ManifestStore.open_append_entryBytes ff hended, ← h.current st hstore hclean]
  | crash m written =>
    rw [step]
    cases hstore : s.store with
    | none => exact h
    | some st =>
      refine ⟨settled_append h _, fun st' hst' => ?_, fun st' hst' => ?_⟩
      · cases hst'
      · cases hst'

end ManifestNode

/-- In every run in which no successful insert starts behind an unfinished line, whatever the log
held before: a manifest whose insert returned `Ok` is in the index of every store opened since, at
least as often as it was inserted, and a store that has only seen successful inserts has the index,
and the answers, of its reopened log. -/
theorem manifest_log_durable (ff : FloatFormat) (log : List UInt8) (xs : List ManifestInput)
    (hxs : Allowed (ManifestNode.step ff) ManifestNode.FreshLine (.start log) xs) :
    let s := run (ManifestNode.step ff) (.start log) xs
    (∀ m, s.confirmed.count m ≤ (ManifestStore.open ff s.log).manifests.count m) ∧
      (∀ st, s.store = some st → ∀ m, s.confirmed.count m ≤ st.manifests.count m) ∧
      ∀ st, s.store = some st → s.clean = true →
        st = .open ff s.log ∧
        ∀ userId fromTsNs toTsNs limit offset,
          st.list userId fromTsNs toTsNs limit offset
            = (ManifestStore.open ff s.log).list userId fromTsNs toTsNs limit offset := by
  intro s
  have hinv : ManifestNode.Inv ff s :=
    run_invariant ManifestNode.inv_step (ManifestNode.inv_start log) hxs
  refine ⟨hinv.count_le, hinv.held, fun st hst hclean => ?_⟩
  have heq := hinv.current st hst hclean
  exact ⟨heq, fun _ _ _ _ _ => by rw [heq]⟩

/-- A manifest to insert. -/
def sampleManifest : ArchiveManifest where
  archiveId := "01"
  userId := "alice"
  day := "2026-04-01"
  s3Key := "events/user_id=alice/day=2026-04-01/01.jsonl.zstd"
  eventCount := 10
  minTsNs := 100
  maxTsNs := 200
  compressedBytes := 1234
  createdAt := 1700000000

/-- The condition in a run that crashes during its second insert. -/
theorem manifest_log_durable_over_crash :
    let s := run (ManifestNode.step textFormats.float) (.start [])
      [.open, .insert sampleManifest none, .crash sampleManifest 40, .open]
    s.confirmed = [sampleManifest] ∧
      ∀ m, s.confirmed.count m ≤ (ManifestStore.open textFormats.float s.log).manifests.count m := by
  refine ⟨rfl, (manifest_log_durable textFormats.float [] _ ?_).1⟩
  exact ⟨trivial, Or.inl rfl, trivial, trivial, trivial⟩

/-- A crash ten bytes into a line, then a successful insert: the file holds no manifest. -/
theorem torn_line_swallows_the_next :
    let s := run (ManifestNode.step textFormats.float) (.start [])
      [.open, .crash sampleManifest 10, .open, .insert sampleManifest none]
    s.confirmed = [sampleManifest] ∧ s.clean = true ∧
      (ManifestStore.open textFormats.float s.log).manifests = [] ∧
      s.store.map ManifestStore.manifests = some [sampleManifest] := by
  decide +kernel

end Keplor.Store
