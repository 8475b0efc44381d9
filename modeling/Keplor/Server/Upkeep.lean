import Keplor.Server.Retention
import Keplor.Store.ArchiveProgress

/-!
# `keplor-server/src/server.rs` — the archive loop and the collection loop

With archival configured the server runs two background tasks. One wakes up, computes a cutoff from
the archive age and runs an archive cycle; the other wakes up and collects the tiers, one after the
other. A comment at the place where they are spawned says that the archive runs before the
collection. They are two tasks with two timers, and nothing orders them.

`Upkeep` is both tasks over one store, in any order and with any failures. A collection takes
unarchived events as soon as it comes first, or as soon as an upload before it has failed. What does
protect an event is a cycle that went through: one that began when the event was already visible,
had a cutoff at least as late as the collection's, and ended without a failed chunk
(`ArchivedFirst`).
-/

set_option autoImplicit false

namespace Keplor.Server

open Keplor.Lib Keplor.Core Keplor.Store

/-! ## The archive loop -/

/-- `ArchiveConfig`, as far as the loops read it. -/
structure ArchiveConfig where
  archiveAfterDays : UInt64 := 30
  /-- takes precedence over the days unless 0 -/
  archiveAfterHours : UInt64 := 0
  /-- 0 = disabled -/
  archiveThresholdMb : UInt64 := 0
  archiveBatchSize : UInt64 := 10000

namespace ArchiveConfig

/-- The hours `run_inner` passes to `archive_loop`. -/
def hours (c : ArchiveConfig) : UInt64 :=
  if 0 < c.archiveAfterHours then c.archiveAfterHours else c.archiveAfterDays * 24

/-- `should_archive` in `archive_loop`: by age, or by size. -/
def shouldArchive (c : ArchiveConfig) (dbSize : UInt64) : Bool :=
  decide (0 < c.hours) ||
    (decide (0 < c.archiveThresholdMb) && decide (c.archiveThresholdMb * 1024 * 1024 ≤ dbSize))

/-- `cutoff_ns` in `archive_loop`; without an age, everything older than a day. -/
def cutoff (c : ArchiveConfig) (now : Int64) : Int64 :=
  if 0 < c.hours then now - c.hours.toInt64 * 3600 * 1000000000 else now - 86400000000000

/-- The age at which events are archived. -/
def ageHours (c : ArchiveConfig) : Nat := if 0 < c.hours then c.hours.toNat else 24

end ArchiveConfig

/-! ## Both loops -/

/-- When a cycle began: its cutoff, and the store it read. -/
structure Began (db : Keplordb) where
  cutoff : Int64
  store : KdbStore db

/-- The archiver at work beside the collector. The last two fields are there to speak about a run:
the cycle under way as long as no chunk of it has failed, and the last one that ended so. -/
structure Upkeep (db : Keplordb) where
  archiving : Archiving db
  running : Option (Began db) := none
  last : Option (Began db) := none

/-- No cycle is under way. -/
def isIdle : Store.Stage → Bool
  | .idle => true
  | _ => false

/-- The step ends a cycle. -/
def finishes {db : Keplordb} : Store.Stage → Archiving.Input db → Bool
  | .chunks [] _, .finish => true
  | _, _ => false

namespace Upkeep

variable {db : Keplordb}

/-- What happens next. -/
inductive Input (db : Keplordb) where
  /-- the archive loop wakes up -/
  | wake (now : Int64) (dbSize : UInt64)
  /-- the cycle goes on, or the store changes for reasons of its own -/
  | work (x : Archiving.Input db)
  /-- the collection loop comes to a tier, in a round that began at `now` -/
  | collect (now : Int64) (tier : RetentionTier)

/-- One turn of `archive_loop`, up to the beginning of its cycle. -/
def wake (a : Archiver) (c : ArchiveConfig) (now : Int64) (dbSize : UInt64) (s : Upkeep db) :
    Upkeep db :=
  if isIdle s.archiving.stage && c.shouldArchive dbSize then
    let next := s.archiving.start a (c.cutoff now) c.archiveBatchSize
    { s with
      archiving := next
      running := if isIdle next.stage then none else some ⟨c.cutoff now, s.archiving.store⟩ }
  else s

/-- A step of the cycle. -/
def work (a : Archiver) (x : Archiving.Input db) (s : Upkeep db) : Upkeep db where
  archiving := s.archiving.step a x
  running :=
    if s.archiving.stage.fails a x || finishes s.archiving.stage x then none else s.running
  last := if finishes s.archiving.stage x then s.running.or s.last else s.last

/-- One turn of the inner loop of `gc_tiered_loop`; a failure is logged. -/
def collect (now : Int64) (tier : RetentionTier) (s : Upkeep db) : Upkeep db :=
  if tier.days = 0 then s
  else { s with archiving := { s.archiving with
    store := (s.archiving.store.gcTier tier.name (tierCutoff now tier)).2 } }

/-- One step of either loop, or of the world. -/
def step (a : Archiver) (c : ArchiveConfig) (s : Upkeep db) : Input db → Upkeep db
  | .wake now dbSize => s.wake a c now dbSize
  | .work x => s.work a x
  | .collect now tier => s.collect now tier

/-- A round of the collection without interruption is `gcTieredPass`. -/
theorem run_collect (a : Archiver) (c : ArchiveConfig) (now : Int64) (tiers : List RetentionTier)
    (s : Upkeep db) :
    run (step a c) s (tiers.map (.collect now)) = { s with archiving := { s.archiving with
      store := gcTieredPass now tiers s.archiving.store } } := by
  induction tiers generalizing s with
  | nil => rfl
  | cons tier tiers ih =>
    rw [List.map_cons, run_cons, ih, gcTieredPass, gcTieredPass, List.foldl_cons, step, collect]
    split <;> rfl

end Upkeep

/-! ## What a collection takes -/

/-- `gc` drops only segments all of whose events are below the cutoff, and brings nothing back. -/
structure GcAsDocumented (db : Keplordb) : Prop where
  hides : ∀ {e c r}, r ∈ db.visible e → r ∈ db.visible (db.gc e c).2 ∨ r.tsNs < c
  shows : ∀ {e c r}, r ∈ db.visible (db.gc e c).2 → r ∈ db.visible e

/-- A visible row that a collection takes is in its tier and below its cutoff. -/
theorem sees_gcTier {db : Keplordb} (hgc : GcAsDocumented db) {s : KdbStore db} {tier : String}
    {c : Int64} {r : LogEvent} (hr : s.Sees r) :
    (s.gcTier tier c).2.Sees r ∨ r.tsNs < c ∧ ∃ e, s.get tier = some e ∧ r ∈ db.visible e := by
  obtain ⟨t, e, hget, hmem⟩ := KdbStore.sees_iff.mp hr
  have hkeep := KdbStore.get_engineFor hget tier
  rw [KdbStore.gcTier]
  rcases hf : s.engineFor tier with ⟨m | eng, s'⟩
  · rw [hf] at hkeep
    exact .inl (KdbStore.sees_iff.mpr ⟨t, e, hkeep, hmem⟩)
  · rw [hf] at hkeep
    by_cases ht : t = tier
    · subst ht
      have heng := KdbStore.get_of_engineFor hf
      rw [hkeep] at heng
      cases heng
      rcases hgc.hides (c := c) hmem with hmem' | hold
      · exact .inl (KdbStore.sees_iff.mpr ⟨t, _, by rw [KdbStore.get_put, if_pos rfl], hmem'⟩)
      · exact .inr ⟨hold, e, hget, hmem⟩
    · exact .inl (KdbStore.sees_iff.mpr ⟨t, e, by rw [KdbStore.get_put, if_neg ht, hkeep], hmem⟩)

section Schedule

variable {db : Keplordb} (a : Archiver) (c : ArchiveConfig) (eventOf : EventId → LlmEvent)

namespace Upkeep

/-- What comes from outside: archive ids are new, the world hides nothing, the store only shows rows
that were written, and a `usize` can count the rows of an engine. -/
def Fair (s : Upkeep db) : Input db → Prop
  | .wake _ _ => ∀ p ∈ s.archiving.store.engines, (db.visible p.2).length < 2 ^ 64 - 1
  | .work (.start _ _) => False
  | .work x => s.archiving.Fair a eventOf x
  | .collect now tier => ∀ r, (s.collect now tier).archiving.store.Sees r → Written a eventOf r

/-- Before a collection, a cycle has gone through: every visible row the collection may take was
already visible when the last failure-free cycle began, and the cutoff of that cycle was not below
the collection's. -/
def ArchivedFirst (s : Upkeep db) : Input db → Prop
  | .collect now tier => tier.days ≠ 0 → ∀ e r, s.archiving.store.get tier.name = some e →
      r ∈ db.visible e → r.tsNs < tierCutoff now tier →
      ∃ b, s.last = some b ∧ tierCutoff now tier ≤ b.cutoff ∧ b.store.Sees r
  | _ => True

/-- What both loops keep. -/
structure Inv (s : Upkeep db) : Prop where
  archiving : Archiving.Inv a eventOf s.archiving
  running : ∀ b, s.running = some b → ∀ r, b.store.Sees r → r.tsNs ≤ b.cutoff →
    Written a eventOf r ∧ Archiving.Accounted a s.archiving r
  last : ∀ b, s.last = some b → ∀ r, b.store.Sees r → r.tsNs ≤ b.cutoff →
    Archived a s.archiving.bucket r

variable {a c eventOf} {s : Upkeep db}

theorem bucket_wake (now : Int64) (dbSize : UInt64) :
    (s.wake a c now dbSize).archiving.bucket = s.archiving.bucket := by
  unfold wake
  split
  · rename_i hwake
    have hidle : s.archiving.stage = .idle := by
      cases hs : s.archiving.stage <;> simp [hs, isIdle] at hwake ⊢
    have hbucket := Archiving.bucket_start (a := a) hidle (c.cutoff now) c.archiveBatchSize
    rw [Archiving.step_start hidle] at hbucket
    exact hbucket
  · rfl

theorem inv_wake (h : Inv a eventOf s) (hdoc : db.FiltersAsDocumented) {now : Int64} {dbSize : UInt64}
    (hfew : ∀ p ∈ s.archiving.store.engines, (db.visible p.2).length < 2 ^ 64 - 1) :
    Inv a eventOf (s.wake a c now dbSize) := by
  have hbucket := bucket_wake (a := a) (c := c) (s := s) now dbSize
  revert hbucket
  unfold wake
  split
  · rename_i hwake
    intro hbucket
    have hidle : s.archiving.stage = .idle := by
      cases hs : s.archiving.stage <;> simp [hs, isIdle] at hwake ⊢
    have hinv := (Archiving.inv_step s.archiving (.start (c.cutoff now) c.archiveBatchSize) h.archiving
      trivial).1
    rw [Archiving.step_start hidle] at hinv
    refine ⟨hinv, fun b hb r hr hts => ?_, fun b hb r hr hts => ?_⟩
    · dsimp only at hb
      split at hb
      · cases hb
      · rename_i hbegun
        cases hb
        refine ⟨h.archiving.rows r hr, ?_⟩
        refine Archiving.accounted_start hdoc hfew (fun hstage => hbegun ?_) hidle hr hts
        rw [hstage]
        rfl
    · rw [hbucket]
      exact h.last b hb r hr hts
  · exact fun _ => h

/-- A cycle that ends holds nothing any more. -/
theorem archived_of_finishes {x : Archiving.Input db} {r : LogEvent}
    (hend : finishes s.archiving.stage x = true) (hr : Archiving.Accounted a s.archiving r) :
    Archived a s.archiving.bucket r := by
  rcases hr with hr | ⟨e, -, hholds⟩
  · exact hr
  · unfold finishes at hend
    split at hend
    · rename_i hs
      rw [hs] at hholds
      obtain ⟨kc, hkc, -⟩ := hholds
      cases hkc
    · cases hend

theorem inv_work (h : Inv a eventOf s) {x : Archiving.Input db}
    (hx : s.archiving.Fair a eventOf x) : Inv a eventOf (s.work a x) := by
  refine ⟨(Archiving.inv_step s.archiving x h.archiving hx).1, fun b hb r hr hts => ?_,
    fun b hb r hr hts => ?_⟩
  · dsimp only [work] at hb
    split at hb
    · cases hb
    · rename_i hgoes
      obtain ⟨hw, hacc⟩ := h.running b hb r hr hts
      have hfails : s.archiving.stage.fails a x = false := by
        cases hf : s.archiving.stage.fails a x with
        | false => rfl
        | true => exact absurd (by rw [hf]; rfl) hgoes
      exact ⟨hw, Archiving.accounted_step h.archiving hw hfails hacc⟩
  · apply Archiving.archived_step h.archiving
    dsimp only [work] at hb
    split at hb
    · rename_i hend
      cases hrun : s.running with
      | none =>
        rw [hrun, Option.none_or] at hb
        exact h.last b hb r hr hts
      | some b' =>
        rw [hrun, Option.some_or] at hb
        cases hb
        exact archived_of_finishes hend (h.running b hrun r hr hts).2
    · exact h.last b hb r hr hts

theorem inv_collect (h : Inv a eventOf s) {now : Int64} {tier : RetentionTier}
    (hrows : ∀ r, (s.collect now tier).archiving.store.Sees r → Written a eventOf r) :
    Inv a eventOf (s.collect now tier) := by
  revert hrows
  unfold collect
  split
  · exact fun _ => h
  · exact fun hrows => ⟨⟨hrows, h.archiving.stage⟩, h.running, h.last⟩

theorem inv_step (hdoc : db.FiltersAsDocumented) (s : Upkeep db) (x : Input db)
    (h : Inv a eventOf s) (hx : s.Fair a eventOf x) : Inv a eventOf (s.step a c x) := by
  cases x with
  | wake now dbSize => exact inv_wake h hdoc hx
  | collect now tier => exact inv_collect h hx
  | work x =>
    cases x with
    | start olderThanNs batchSize => exact hx.elim
    | _ => exact inv_work h hx

theorem archived_step (h : Inv a eventOf s) {x : Input db} {r : LogEvent}
    (hr : Archived a s.archiving.bucket r) : Archived a (s.step a c x).archiving.bucket r := by
  cases x with
  | wake now dbSize =>
    rw [step, bucket_wake]
    exact hr
  | work x => exact Archiving.archived_step h.archiving hr
  | collect now tier =>
    rw [step, collect]
    split <;> exact hr

/-- A row that a collection takes, after a cycle has gone through, is archived. -/
theorem archived_of_collect (h : Inv a eventOf s) (hgc : GcAsDocumented db) {now : Int64}
    {tier : RetentionTier} (hfirst : s.ArchivedFirst (.collect now tier)) {r : LogEvent}
    (hr : s.archiving.store.Sees r) (hgone : ¬ (s.collect now tier).archiving.store.Sees r) :
    Archived a s.archiving.bucket r := by
  by_cases hdays : tier.days = 0
  · rw [collect, if_pos hdays] at hgone
    exact absurd hr hgone
  · rw [collect, if_neg hdays] at hgone
    obtain ⟨hold, e, hget, hmem⟩ := (sees_gcTier hgc hr).resolve_left hgone
    obtain ⟨b, hb, hcutoff, hbegan⟩ := hfirst hdays e r hget hmem hold
    refine h.last b hb r hbegan ?_
    rw [Int64.lt_iff_toInt_lt] at hold
    rw [Int64.le_iff_toInt_le] at hcutoff ⊢
    omega

end Upkeep

end Schedule

/-- The server comes up: no cycle has run. -/
def Upkeep.begin {db : Keplordb} (store : KdbStore db) (bucket : Bucket) : Upkeep db :=
  { archiving := { store := store, bucket := bucket, stage := .idle, returned := [] } }

/-- In every run of the two loops, with any cutoffs, failures and changes of the store, in which
every collection comes after a cycle that has gone through: whatever visible event a collection of a
tier takes is in an object that a recorded manifest names, then and ever after. -/
theorem collected_events_are_archived (db : Keplordb) (a : Archiver) (c : ArchiveConfig)
    (eventOf : EventId → LlmEvent) (hdoc : db.FiltersAsDocumented) (hgc : GcAsDocumented db)
    (store : KdbStore db) (bucket : Bucket) (hrows : ∀ r, store.Sees r → Written a eventOf r)
    (xs : List (Upkeep.Input db))
    (hfair : Allowed (Upkeep.step a c) (Upkeep.Fair a eventOf) (.begin store bucket) xs)
    (hfirst : Allowed (Upkeep.step a c) Upkeep.ArchivedFirst (.begin store bucket) xs) :
    ∀ ys now tier zs, xs = ys ++ .collect now tier :: zs → ∀ r,
      (run (Upkeep.step a c) (.begin store bucket) ys).archiving.store.Sees r →
      ¬ (run (Upkeep.step a c) (.begin store bucket)
          (ys ++ [.collect now tier])).archiving.store.Sees r →
      Archived a (run (Upkeep.step a c) (.begin store bucket) xs).archiving.bucket r := by
  intro ys now tier zs hsplit r hr hgone
  subst hsplit
  have hinit : Upkeep.Inv a eventOf (Upkeep.begin store bucket) := by
    refine ⟨⟨hrows, trivial⟩, fun b hb => ?_, fun b hb => ?_⟩
    · cases hb
    · cases hb
  obtain ⟨hys, -, hzs⟩ := allowed_append.mp hfair
  obtain ⟨-, hhere, -⟩ := allowed_append.mp hfirst
  have hinv := run_invariant (Upkeep.inv_step hdoc) hinit hys
  rw [run_append, run_cons, run_nil] at hgone
  have harchived := Upkeep.archived_of_collect hinv hgc hhere hr hgone
  -- from the collection on, the bucket only grows
  have hkeep : ∀ s x, Upkeep.Inv a eventOf s ∧ Archived a s.archiving.bucket r →
      s.Fair a eventOf x →
      Upkeep.Inv a eventOf (s.step a c x) ∧ Archived a (s.step a c x).archiving.bucket r :=
    fun s x hs hx => ⟨Upkeep.inv_step hdoc s x hs.1 hx, Upkeep.archived_step hs.1 hs.2⟩
  rw [run_append, run_cons]
  have hafter := Upkeep.archived_step (c := c) (x := .collect now tier) hinv harchived
  have hinv' := Upkeep.inv_step (c := c) hdoc _ (.collect now tier) hinv
    (allowed_append.mp hfair).2.1
  exact (run_invariant hkeep ⟨hinv', hafter⟩ hzs).2

theorem memoryDb_gcAsDocumented : GcAsDocumented memoryDb where
  hides := by
    intro e c r hr
    simp only [memoryDb, MemoryEngine.visible, List.mem_filter, List.mem_flatten] at hr ⊢
    obtain ⟨⟨seg, hseg, hmem⟩, htomb⟩ := hr
    by_cases hkeep : seg.any fun r => decide (c ≤ r.tsNs)
    · exact .inl ⟨⟨seg, ⟨hseg, hkeep⟩, hmem⟩, htomb⟩
    · refine .inr ?_
      rw [List.any_eq_true] at hkeep
      push Not at hkeep
      simpa using hkeep r hmem
  shows := by
    intro e c r hr
    simp only [memoryDb, MemoryEngine.visible, List.mem_filter, List.mem_flatten] at hr ⊢
    obtain ⟨⟨seg, ⟨hseg, -⟩, hmem⟩, htomb⟩ := hr
    exact ⟨⟨seg, hseg, hmem⟩, htomb⟩

/-- What a cycle began with is not touched by its later steps. -/
theorem Upkeep.began_work {db : Keplordb} {a : Archiver} {s : Upkeep db} {Q : Began db → Prop}
    (h : (∀ b, s.running = some b → Q b) ∧ ∀ b, s.last = some b → Q b) (x : Archiving.Input db) :
    (∀ b, (s.work a x).running = some b → Q b) ∧ ∀ b, (s.work a x).last = some b → Q b := by
  obtain ⟨hrunning, hlast⟩ := h
  constructor
  · intro b hb
    dsimp only [work] at hb
    split at hb
    · cases hb
    · exact hrunning b hb
  · intro b hb
    dsimp only [work] at hb
    split at hb
    · cases hrun : s.running with
      | none =>
        rw [hrun, Option.none_or] at hb
        exact hlast b hb
      | some b' =>
        rw [hrun, Option.some_or] at hb
        cases hb
        exact hrunning b hrun
    · exact hlast b hb

/-- Events are archived after a day, and kept for a week at least. -/
def dailyArchive : ArchiveConfig := { archiveAfterDays := 1 }

/-- A store with one old event on a disk that is full, so that deletions fail. -/
def fullDisk : KdbStore memoryDb where
  engines := [("free", { segs := [[toLogEvent textFormats sampleEvent]], full := true })]

/-- A cycle in which everything but the deletion goes well. -/
def cleanCycle : List (Archiving.Input memoryDb) :=
  [.prepare "01", .put none, .record 1800000000 none, .scope, .delete, .finish]

/-- The loops up to the end of the cycle. -/
def untilCollection : List (Upkeep.Input memoryDb) := .wake newYear2026 0 :: cleanCycle.map .work

/-- Through a cycle, the store shows no more than it did, and that is what the cycle began with. -/
theorem sees_of_cycle {store : KdbStore memoryDb} {zs : List (Archiving.Input memoryDb)}
    (hworld : ∀ x ∈ zs, ∀ store, x ≠ .world store) {s : Upkeep memoryDb}
    (hshows : ∀ r, s.archiving.store.Sees r → store.Sees r)
    (hbegan : (∀ b, s.running = some b → b.store = store) ∧ ∀ b, s.last = some b → b.store = store) :
    (∀ r, (run (Upkeep.step sampleArchiver dailyArchive) s (zs.map .work)).archiving.store.Sees r →
        store.Sees r) ∧
      ∀ b, (run (Upkeep.step sampleArchiver dailyArchive) s (zs.map .work)).last = some b →
        b.store = store := by
  induction zs generalizing s with
  | nil => exact ⟨hshows, hbegan.2⟩
  | cons x zs ih =>
    rw [List.map_cons, run_cons]
    refine ih (fun y hy => hworld y (List.mem_cons_of_mem _ hy)) (fun r hr => hshows r ?_)
      (Upkeep.began_work hbegan x)
    refine (Archiving.sees_of_step hr).resolve_right ?_
    rintro ⟨store, hx, -⟩
    exact hworld x List.mem_cons_self store hx

theorem sees_of_wake {s : Upkeep memoryDb} (hrunning : s.running = none) (hlast : s.last = none)
    (now : Int64) (dbSize : UInt64) :
    (∀ r, (s.wake sampleArchiver dailyArchive now dbSize).archiving.store.Sees r →
        s.archiving.store.Sees r) ∧
      (∀ b, (s.wake sampleArchiver dailyArchive now dbSize).running = some b →
        b.store = s.archiving.store) ∧
      ∀ b, (s.wake sampleArchiver dailyArchive now dbSize).last = some b →
        b.store = s.archiving.store := by
  unfold Upkeep.wake
  split
  · rename_i hwake
    have hidle : s.archiving.stage = .idle := by
      cases hs : s.archiving.stage <;> simp [hs, isIdle] at hwake ⊢
    refine ⟨fun r hr => ?_, fun b hb => ?_, fun b hb => ?_⟩
    · rw [← Archiving.step_start hidle] at hr
      refine (Archiving.sees_of_step hr).resolve_right ?_
      rintro ⟨store, hx, -⟩
      cases hx
    · dsimp only at hb
      split at hb
      · cases hb
      · cases hb
        rfl
    · rw [hlast] at hb
      cases hb
  · refine ⟨fun r hr => hr, fun b hb => ?_, fun b hb => ?_⟩
    · rw [hrunning] at hb
      cases hb
    · rw [hlast] at hb
      cases hb

/-- After the cycle, the collection takes the event, and it is archived. -/
theorem collected_event_is_archived :
    ¬ (run (Upkeep.step sampleArchiver dailyArchive) (.begin fullDisk ⟨[], []⟩)
        (untilCollection ++ [.collect newYear2026 ⟨"free", 7⟩])).archiving.store.Sees
        (toLogEvent textFormats sampleEvent) ∧
      Archived sampleArchiver (run (Upkeep.step sampleArchiver dailyArchive)
        (.begin fullDisk ⟨[], []⟩)
        (untilCollection ++ [.collect newYear2026 ⟨"free", 7⟩])).archiving.bucket
        (toLogEvent textFormats sampleEvent) := by
  have hsees : ∀ r, fullDisk.Sees r ↔ r = toLogEvent textFormats sampleEvent :=
    fun r => sees_single rfl
  have hrows : ∀ r, fullDisk.Sees r →
      Written sampleArchiver (fun id => { sampleEvent with id := id }) r := by
    intro r hr
    rw [(hsees r).mp hr]
    exact ⟨sampleEvent.id, rfl, rfl⟩
  have hgone : ∀ r, ¬ (run (Upkeep.step sampleArchiver dailyArchive) (.begin fullDisk ⟨[], []⟩)
      (untilCollection ++ [.collect newYear2026 ⟨"free", 7⟩])).archiving.store.Sees r := by
    refine not_sees_of_lengths (n := 1) ?_
    decide +kernel
  have hlast : (run (Upkeep.step sampleArchiver dailyArchive) (.begin fullDisk ⟨[], []⟩)
      untilCollection).last.map Began.cutoff = some (newYear2026 - 86400000000000) := by
    decide +kernel
  have hlength : (run (Upkeep.step sampleArchiver dailyArchive) (.begin fullDisk ⟨[], []⟩)
      untilCollection).archiving.store.engines.map (fun p => (memoryDb.visible p.2).length) = [1] := by
    decide +kernel
  -- the cycle only deletes, so a row that is left is the one there was
  have hkept : (∀ r, (run (Upkeep.step sampleArchiver dailyArchive) (.begin fullDisk ⟨[], []⟩)
        untilCollection).archiving.store.Sees r → fullDisk.Sees r) ∧
      ∀ b, (run (Upkeep.step sampleArchiver dailyArchive) (.begin fullDisk ⟨[], []⟩)
        untilCollection).last = some b → b.store = fullDisk := by
    obtain ⟨hshows, hbegan⟩ := sees_of_wake (s := .begin fullDisk ⟨[], []⟩) rfl rfl newYear2026 0
    rw [untilCollection, run_cons]
    exact sees_of_cycle (by simp [cleanCycle]) hshows hbegan
  have hfair : Allowed (Upkeep.step sampleArchiver dailyArchive)
      (Upkeep.Fair sampleArchiver fun id => { sampleEvent with id := id })
      (.begin fullDisk ⟨[], []⟩) (untilCollection ++ [.collect newYear2026 ⟨"free", 7⟩]) := by
    refine allowed_append.mpr ⟨⟨?_, ?_, allowed_of_forall fun s x hx => ?_⟩, ?_, trivial⟩
    · intro p hp
      obtain rfl := List.mem_singleton.mp hp
      show (MemoryEngine.visible _).length < _
      decide +kernel
    · intro key chunk todo acc _
      rw [Upkeep.step, Upkeep.bucket_wake]
      rfl
    · simp only [List.map_cons, List.map_nil, List.mem_cons, List.not_mem_nil, or_false] at hx
      rcases hx with rfl | rfl | rfl | rfl | rfl <;> trivial
    · intro r hr
      rw [run_append] at hgone
      exact absurd hr (hgone r)
  have hfirst : Allowed (Upkeep.step sampleArchiver dailyArchive) Upkeep.ArchivedFirst
      (.begin fullDisk ⟨[], []⟩) (untilCollection ++ [.collect newYear2026 ⟨"free", 7⟩]) := by
    refine allowed_append.mpr ⟨allowed_of_forall fun s x hx => ?_, ?_, trivial⟩
    · rcases List.mem_cons.mp hx with rfl | hx
      · trivial
      · obtain ⟨y, -, rfl⟩ := List.mem_map.mp hx
        trivial
    generalize run (Upkeep.step sampleArchiver dailyArchive) (.begin fullDisk ⟨[], []⟩)
      untilCollection = s at hlast hkept
    intro _ e r hget hr _
    obtain ⟨b, hb, hcutoff⟩ := Option.map_eq_some_iff.mp hlast
    refine ⟨b, hb, by rw [hcutoff]; decide, ?_⟩
    rw [hkept.2 b hb]
    exact hkept.1 r (KdbStore.sees_iff.mpr ⟨_, e, hget, hr⟩)
  refine ⟨hgone _, collected_events_are_archived memoryDb sampleArchiver dailyArchive _
    memoryDb_filtersAsDocumented memoryDb_gcAsDocumented fullDisk ⟨[], []⟩ hrows _ hfair hfirst
    untilCollection newYear2026 ⟨"free", 7⟩ [] rfl _ ?_ (hgone _)⟩
  generalize (run (Upkeep.step sampleArchiver dailyArchive) (.begin fullDisk ⟨[], []⟩)
    untilCollection).archiving.store = store at hlength hkept
  have hmem : 1 ∈ store.engines.map (fun p => (memoryDb.visible p.2).length) := by
    rw [hlength]
    exact List.mem_singleton.mpr rfl
  obtain ⟨p, hp, hlen⟩ := List.mem_map.mp hmem
  obtain ⟨r, hr⟩ := List.length_eq_one_iff.mp hlen
  have hshown : store.Sees r := ⟨p, hp, by rw [hr]; exact List.mem_singleton.mpr rfl⟩
  rw [← (hsees r).mp (hkept.1 r hshown)]
  exact hshown

/-- A cycle whose one upload is refused. -/
def refusedCycle : List (Archiving.Input memoryDb) :=
  [.prepare "01", .put (some "503 Service Unavailable"), .finish]

/-- A configuration that passes validation and archives after a day what it keeps for a week. When
the collection comes first, and when it comes after a cycle whose upload was refused, it takes the
event, and no manifest names it. -/
theorem collection_takes_unarchived :
    ServerConfig.validate (fun _ => false) {} = .ok () ∧
    (∀ t ∈ ({} : ServerConfig).retention.tiers, t.days ≠ 0 →
      dailyArchive.ageHours < t.days.toNat * 24) ∧
    (⟨"free", 7⟩ : RetentionTier) ∈ ({} : ServerConfig).retention.tiers ∧
    oneEvent.Sees (toLogEvent textFormats sampleEvent) ∧
    (∀ xs ∈ [[], .wake newYear2026 0 :: refusedCycle.map .work],
      ¬ (run (Upkeep.step sampleArchiver dailyArchive) (.begin oneEvent ⟨[], []⟩)
          (xs ++ [.collect newYear2026 ⟨"free", 7⟩])).archiving.store.Sees
        (toLogEvent textFormats sampleEvent) ∧
      ¬ Archived sampleArchiver (run (Upkeep.step sampleArchiver dailyArchive)
          (.begin oneEvent ⟨[], []⟩)
          (xs ++ [.collect newYear2026 ⟨"free", 7⟩])).archiving.bucket
        (toLogEvent textFormats sampleEvent)) := by
  refine ⟨by decide +kernel, fun t ht _ => ?_, List.mem_cons_self, (sees_single rfl).mpr rfl,
    fun xs hxs => ?_⟩
  · rcases List.mem_cons.mp ht with rfl | ht
    · decide
    · rw [List.mem_singleton.mp ht]
      decide
  have hempty : (run (Upkeep.step sampleArchiver dailyArchive) (.begin oneEvent ⟨[], []⟩)
        (xs ++ [.collect newYear2026 ⟨"free", 7⟩])).archiving.store.engines.map
          (fun p => (memoryDb.visible p.2).length) = [0] ∧
      (run (Upkeep.step sampleArchiver dailyArchive) (.begin oneEvent ⟨[], []⟩)
        (xs ++ [.collect newYear2026 ⟨"free", 7⟩])).archiving.bucket.manifests = [] := by
    rcases List.mem_cons.mp hxs with rfl | hxs
    · decide +kernel
    · rw [List.mem_singleton.mp hxs]
      decide +kernel
  refine ⟨not_sees_of_lengths (n := 1) hempty.1 _, ?_⟩
  rintro ⟨m, hm, -⟩
  rw [hempty.2] at hm
  cases hm

end Keplor.Server
