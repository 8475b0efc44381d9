import Keplor.Lib.Aggregate
import Keplor.Store.Manifests

/-!
# `keplor-cli/src/main.rs` — `archive-status`

`ManifestStore::summary` returns a count, the compressed bytes and the oldest timestamp.
`archive_status` takes the three apart as files, events and bytes. So what it prints as events are
bytes, and what it prints as bytes is a timestamp; the breakdown below it, made from the manifests
themselves, has the numbers the totals should have. `archive_status_consistent_iff` says for which
logs nobody can tell.

A total that is printed in megabytes is the number before it is divided.
-/

set_option autoImplicit false

namespace Keplor.Cli

open Keplor.Lib Keplor.Store

/-- What `archive_status` prints. -/
structure ArchiveStatus where
  /-- `Archive files` -/
  files : UInt64
  /-- `Archived events` -/
  events : UInt64
  /-- `Compressed size` -/
  bytes : Int64
  /-- `Per-user breakdown`: events and bytes -/
  userCounts : List (String × UInt64 × UInt64)

/-- One turn of the loop of the breakdown. -/
def countManifest (userCounts : List (String × UInt64 × UInt64)) (m : ArchiveManifest) :
    List (String × UInt64 × UInt64) :=
  upsert (0, 0) m.userId (fun entry => (entry.1 + m.eventCount, entry.2 + m.compressedBytes))
    userCounts

/-- `KdbStore::list_archives`, without a filter -/
def listArchives (s : ManifestStore) : List ArchiveManifest := s.list none none none 0xffffffff 0

/-- `archive_status` -/
def archiveStatus (s : ManifestStore) : ArchiveStatus :=
  let (files, events, bytes) := s.summary
  { files := files
    events := events
    bytes := bytes
    userCounts := if 0 < files then (listArchives s).foldl countManifest [] else [] }

/-! ## Sums over manifests -/

/-- The events of some manifests. -/
def eventSum (ms : List ArchiveManifest) : Nat := (ms.map fun m => m.eventCount.toNat).sum

/-- The compressed bytes of some manifests. -/
def byteSum (ms : List ArchiveManifest) : Nat := (ms.map fun m => m.compressedBytes.toNat).sum

/-- The oldest timestamp, 0 where there is none. -/
def oldestTs (ms : List ArchiveManifest) : Int64 :=
  if ms.isEmpty then 0
  else ms.foldl (fun oldest m => if m.minTsNs < oldest then m.minTsNs else oldest) Int64.maxValue

/-- What `list_archives` leaves out of a log: the newest, from the 2³²-th on. -/
def leftOut (ms : List ArchiveManifest) : List ArchiveManifest :=
  ((ManifestStore.ofList ms).manifests.insertionSort fun a b => a.minTsNs ≤ b.minTsNs).drop (2 ^ 32 - 1)

theorem eventSum_perm {ms ms' : List ArchiveManifest} (h : ms.Perm ms') : eventSum ms = eventSum ms' :=
  (h.map _).sum_eq

theorem byteSum_perm {ms ms' : List ArchiveManifest} (h : ms.Perm ms') : byteSum ms = byteSum ms' :=
  (h.map _).sum_eq

/-- A smaller one seen earlier or later is the same one seen. -/
theorem oldestTs_perm {ms ms' : List ArchiveManifest} (h : ms.Perm ms') : oldestTs ms = oldestTs ms' := by
  have hempty : ms.isEmpty = ms'.isEmpty := by
    rw [Bool.eq_iff_iff, List.isEmpty_iff, List.isEmpty_iff]
    exact ⟨fun h' => (h' ▸ h).nil_eq.symm, fun h' => (h' ▸ h).eq_nil⟩
  rw [oldestTs, oldestTs, hempty, h.foldl_eq' ?_]
  intro x _ y _ z
  simp only [Int64.lt_iff_toInt_lt]
  split_ifs <;> first | rfl | (apply Int64.toInt_inj.mp; omega)

/-! ## What is printed -/

/-- One turn of the loop of `summary`. -/
def summaryStep (acc : UInt64 × UInt64 × Int64) (m : ArchiveManifest) : UInt64 × UInt64 × Int64 :=
  (acc.1 + 1,
    if acc.2.1.toNat + m.compressedBytes.toNat < 2 ^ 64 then acc.2.1 + m.compressedBytes
    else UInt64.ofNat (2 ^ 64 - 1),
    if m.minTsNs < acc.2.2 then m.minTsNs else acc.2.2)

theorem foldl_summaryStep (ms : List ArchiveManifest) (acc : UInt64 × UInt64 × Int64) :
    let out := ms.foldl summaryStep acc
    out.1 = acc.1 + UInt64.ofNat ms.length ∧
    out.2.1.toNat = min (acc.2.1.toNat + byteSum ms) (2 ^ 64 - 1) ∧
    out.2.2 = ms.foldl (fun oldest m => if m.minTsNs < oldest then m.minTsNs else oldest) acc.2.2 := by
  induction ms generalizing acc with
  | nil =>
    have := acc.2.1.toNat_lt
    refine ⟨by simp, ?_, rfl⟩
    simp only [List.foldl_nil, byteSum, List.map_nil, List.sum_nil]
    omega
  | cons m ms ih =>
    obtain ⟨hcount, hbytes, holdest⟩ := ih (summaryStep acc m)
    have hstep : (summaryStep acc m).2.1.toNat =
        min (acc.2.1.toNat + m.compressedBytes.toNat) (2 ^ 64 - 1) := by
      unfold summaryStep
      split
      · rw [UInt64.toNat_add]
        omega
      · rw [UInt64.toNat_ofNat']
        omega
    refine ⟨?_, ?_, holdest⟩
    · rw [List.foldl_cons, hcount, List.length_cons, UInt64.ofNat_add, UInt64.add_comm (UInt64.ofNat _),
        ← UInt64.add_assoc]
      rfl
    · rw [List.foldl_cons, hbytes, hstep, byteSum, byteSum, List.map_cons, List.sum_cons]
      omega

/-- The summary of a log: the count wraps, the bytes do not. -/
theorem summary_ofList (ms : List ArchiveManifest) :
    ((ManifestStore.ofList ms).summary).1 = UInt64.ofNat ms.length ∧
    ((ManifestStore.ofList ms).summary).2.1.toNat = min (byteSum ms) (2 ^ 64 - 1) ∧
    (ms.length < 2 ^ 64 → ((ManifestStore.ofList ms).summary).2.2 = oldestTs ms) := by
  have hperm := ManifestStore.perm_manifests_ofList ms
  obtain ⟨hcount, hbytes, holdest⟩ :=
    foldl_summaryStep (ManifestStore.ofList ms).manifests (0, 0, Int64.maxValue)
  rw [hperm.length_eq, UInt64.zero_add] at hcount
  rw [byteSum_perm hperm, UInt64.toNat_zero, Nat.zero_add] at hbytes
  refine ⟨hcount, hbytes, fun hlen => ?_⟩
  show (if ((ManifestStore.ofList ms).manifests.foldl summaryStep (0, 0, Int64.maxValue)).1 = 0 then 0
    else ((ManifestStore.ofList ms).manifests.foldl summaryStep (0, 0, Int64.maxValue)).2.2) = _
  have hzero : UInt64.ofNat ms.length = 0 ↔ ms = [] := by
    rw [← UInt64.toNat_inj, UInt64.toNat_ofNat', UInt64.toNat_zero, Nat.mod_eq_of_lt hlen,
      List.length_eq_zero_iff]
  rw [hcount, holdest, ← oldestTs_perm hperm, oldestTs]
  by_cases hnil : ms = []
  · rw [if_pos (hzero.mpr hnil), if_pos]
    subst hnil
    rfl
  · have hne : (ManifestStore.ofList ms).manifests ≠ [] := fun h => hnil (h ▸ hperm).nil_eq.symm
    rw [if_neg (mt hzero.mp hnil), if_neg (by simpa using hne)]

/-- Without a filter `list` returns the oldest manifests, up to its limit. -/
theorem listArchives_append_leftOut (ms : List ArchiveManifest) :
    (listArchives (ManifestStore.ofList ms) ++ leftOut ms).Perm ms := by
  have hlist : listArchives (ManifestStore.ofList ms) = ((ManifestStore.ofList ms).manifests.insertionSort
      fun a b => a.minTsNs ≤ b.minTsNs).take (2 ^ 32 - 1) := by
    simp [listArchives, ManifestStore.list, ManifestStore.manifests, List.filter_true]
  rw [hlist, leftOut, List.take_append_drop]
  exact (List.perm_insertionSort _ _).trans (ManifestStore.perm_manifests_ofList ms)

/-- The breakdown loses nothing while the sums fit a `usize`. -/
theorem sum_countManifest {ms : List ArchiveManifest} (hevents : eventSum ms < 2 ^ 64)
    (hbytes : byteSum ms < 2 ^ 64) :
    ((ms.foldl countManifest []).map fun p => p.2.1.toNat).sum = eventSum ms ∧
    ((ms.foldl countManifest []).map fun p => p.2.2.toNat).sum = byteSum ms := by
  induction ms using List.reverseRecOn with
  | nil => simp [eventSum, byteSum]
  | append_singleton ms m ih =>
    have hesum : eventSum (ms ++ [m]) = eventSum ms + m.eventCount.toNat := by simp [eventSum]
    have hbsum : byteSum (ms ++ [m]) = byteSum ms + m.compressedBytes.toNat := by simp [byteSum]
    obtain ⟨ihevents, ihbytes⟩ := ih (by omega) (by omega)
    rw [List.foldl_append, List.foldl_cons, List.foldl_nil, hesum, hbsum, ← ihevents, ← ihbytes]
    constructor
    · refine sum_upsert (fun b : UInt64 × UInt64 => b.1.toNat) (2 ^ 64 - 1) rfl
        (fun b hb => ?_) (by omega)
      rw [UInt64.toNat_add]
      omega
    · refine sum_upsert (fun b : UInt64 × UInt64 => b.2.toNat) (2 ^ 64 - 1) rfl
        (fun b hb => ?_) (by omega)
      rw [UInt64.toNat_add]
      omega

/-! ## The totals and the breakdown -/

/-- The printed numbers are the number of manifests, their events and their bytes, and the breakdown
adds up to them. -/
structure Consistent (ms : List ArchiveManifest) (status : ArchiveStatus) : Prop where
  files : status.files.toNat = ms.length
  events : status.events.toNat = eventSum ms
  bytes : status.bytes.toInt = byteSum ms
  userEvents : (status.userCounts.map fun p => p.2.1.toNat).sum = status.events.toNat
  userBytes : ((status.userCounts.map fun p => p.2.2.toNat).sum : Nat) = status.bytes.toInt

/-- The logs whose mix-up does not show: as many events as compressed bytes, and as many of both as
the oldest timestamp says; and a log too long for one listing has nothing in the rest of it. -/
structure Unnoticed (ms : List ArchiveManifest) : Prop where
  countable : ms.length < 2 ^ 64
  events : eventSum ms = byteSum ms
  oldest : (oldestTs ms).toInt = byteSum ms
  leftOut : eventSum (leftOut ms) = 0 ∧ byteSum (leftOut ms) = 0

/-- The breakdown is made from the listing; it is not printed only where there is nothing to list. -/
theorem userCounts_archiveStatus {ms : List ArchiveManifest} (h : ms.length < 2 ^ 64) :
    (archiveStatus (ManifestStore.ofList ms)).userCounts =
      (listArchives (ManifestStore.ofList ms)).foldl countManifest [] := by
  show (if 0 < ((ManifestStore.ofList ms).summary).1 then _ else _) = _
  rw [(summary_ofList ms).1]
  split
  · rfl
  · rename_i hzero
    have hlen : ms.length = 0 := by
      rw [UInt64.lt_iff_toNat_lt, UInt64.toNat_ofNat', Nat.mod_eq_of_lt h] at hzero
      simpa using hzero
    obtain rfl := List.length_eq_zero_iff.mp hlen
    rfl

/-- The totals are those of the manifests, and of the breakdown below them, exactly where the mix-up
of the three numbers of `summary` does not show. -/
theorem archive_status_consistent_iff (ms : List ArchiveManifest) :
    Consistent ms (archiveStatus (ManifestStore.ofList ms)) ↔ Unnoticed ms := by
  obtain ⟨hfiles, hevents, holdest⟩ := summary_ofList ms
  have hsplit := listArchives_append_leftOut ms
  have hesum : eventSum (listArchives (ManifestStore.ofList ms)) + eventSum (leftOut ms) =
      eventSum ms := by
    rw [← eventSum_perm hsplit, eventSum, eventSum, eventSum, List.map_append, List.sum_append]
  have hbsum : byteSum (listArchives (ManifestStore.ofList ms)) + byteSum (leftOut ms) =
      byteSum ms := by
    rw [← byteSum_perm hsplit, byteSum, byteSum, byteSum, List.map_append, List.sum_append]
  have hlt : ∀ t : Int64, t.toInt = byteSum ms → byteSum ms < 2 ^ 63 := by
    intro t ht
    have := t.toInt_lt
    omega
  -- what the breakdown adds up to, once the sums are known to fit
  have hbreakdown : ms.length < 2 ^ 64 → eventSum ms < 2 ^ 64 → byteSum ms < 2 ^ 64 →
      (((archiveStatus (ManifestStore.ofList ms)).userCounts.map fun p => p.2.1.toNat).sum =
        eventSum (listArchives (ManifestStore.ofList ms))) ∧
      ((archiveStatus (ManifestStore.ofList ms)).userCounts.map fun p => p.2.2.toNat).sum =
        byteSum (listArchives (ManifestStore.ofList ms)) := by
    intro hlen he hb
    rw [userCounts_archiveStatus hlen]
    exact sum_countManifest (by omega) (by omega)
  constructor
  · intro h
    have hlen : ms.length < 2 ^ 64 := by
      rw [← h.files]
      exact UInt64.toNat_lt _
    have hbytes : (oldestTs ms).toInt = byteSum ms := by
      rw [← holdest hlen]
      exact h.bytes
    have hsmall := hlt _ hbytes
    have heq : eventSum ms = byteSum ms := by
      rw [← h.events]
      exact hevents.trans (by omega)
    obtain ⟨hue, hub⟩ := hbreakdown hlen (by omega) (by omega)
    have huserEvents := h.userEvents
    have huserBytes := h.userBytes
    rw [hue, h.events] at huserEvents
    rw [hub, h.bytes] at huserBytes
    exact ⟨hlen, heq, hbytes, by omega, by omega⟩
  · intro h
    have hsmall := hlt _ h.oldest
    have heq := h.events
    obtain ⟨hue, hub⟩ := hbreakdown h.countable (by omega) (by omega)
    obtain ⟨hle, hlb⟩ := h.leftOut
    have hev : (archiveStatus (ManifestStore.ofList ms)).events.toNat = eventSum ms :=
      hevents.trans (by omega)
    have hby : (archiveStatus (ManifestStore.ofList ms)).bytes.toInt = byteSum ms := by
      rw [← h.oldest, ← holdest h.countable]
      rfl
    refine ⟨?_, hev, hby, by omega, by omega⟩
    show ((ManifestStore.ofList ms).summary).1.toNat = ms.length
    rw [hfiles, UInt64.toNat_ofNat', Nat.mod_eq_of_lt h.countable]

/-- One manifest of ten events in 1234 bytes: `archive-status` reports 1234 events. -/
theorem one_archive_misreported :
    ¬ Consistent [sampleManifest] (archiveStatus (ManifestStore.ofList [sampleManifest])) := by
  intro h
  have hevents : (archiveStatus (ManifestStore.ofList [sampleManifest])).events.toNat = 1234 := by decide
  rw [h.events] at hevents
  exact absurd hevents (by decide)

end Keplor.Cli
