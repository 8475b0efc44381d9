import Keplor.Store.Reads

/-!
# How far a cycle has got

`archiving_loses_nothing` says that the archiver never loses what it was given. This module says
when it is through with it. A cycle fetches every visible event up to its cutoff
(`mem_queryEventsForArchive`); from then on an event waits in a chunk (`Stage.Holds`) until the
chunk's manifest is recorded, unless something fails in between (`Stage.fails`). A cycle that ends
without a failure has archived everything it fetched.
-/

set_option autoImplicit false

namespace Keplor.Store

open Keplor.Lib Keplor.Core

/-! ## What a cycle fetches -/

namespace KdbStore

variable {db : Keplordb} {s : KdbStore db} {tf : TextFormats}

theorem readTier_of_readTiers {qf : QueryFilter} {limit : Nat} {tiers : List String}
    {out : List LlmEvent} (h : s.readTiers tf qf limit tiers = pure out) {tier : String}
    (htier : tier ∈ tiers) : ∃ events, s.readTier tf qf limit tier = pure events ∧ events ⊆ out := by
  induction tiers generalizing out with
  | nil => cases htier
  | cons t tiers ih =>
    rw [readTiers] at h
    obtain ⟨events, hevents, h⟩ := Fallible.bind_eq_pure h
    obtain ⟨more, hmore, h⟩ := Fallible.bind_eq_pure h
    rw [← Fallible.pure_inj h]
    rcases List.mem_cons.mp htier with rfl | htier
    · exact ⟨events, hevents, List.subset_append_left _ _⟩
    · obtain ⟨events', hread, hsub⟩ := ih hmore htier
      exact ⟨events', hread, fun e he => List.mem_append_right _ (hsub he)⟩

/-- Every visible row up to the cutoff is fetched, as long as no engine has more rows than a
`usize` can count. -/
theorem mem_queryEventsForArchive (hdoc : db.FiltersAsDocumented)
    (hfew : ∀ p ∈ s.engines, (db.visible p.2).length < 2 ^ 64 - 1) {olderThanNs : Int64}
    {events : List LlmEvent} (h : s.queryEventsForArchive tf olderThanNs = pure events)
    {r : LogEvent} (hr : s.Sees r) (hts : r.tsNs ≤ olderThanNs) :
    ∃ e ∈ events, fromEventRef tf r = pure e := by
  rw [queryEventsForArchive] at h
  obtain ⟨out, hout, h⟩ := Fallible.bind_eq_pure h
  obtain ⟨t, eng, hget, hmem⟩ := sees_iff.mp hr
  rw [← readTiers_engines] at hout
  obtain ⟨read, hread, hsub⟩ := readTier_of_readTiers hout (mem_tiers_of_get hget)
  obtain ⟨rows, rest, hspec⟩ := readTier_spec hget hread
  have hadmits : db.admits { QueryFilter.empty with toTsNs := some olderThanNs } r = true := by
    rw [hdoc, MemoryEngine.admits]
    simp [QueryFilter.empty, hts]
  have hshort : read.length < 2 ^ 64 - 1 := by
    have hrows : (rows ++ rest).length ≤ (db.visible eng).length := by
      rw [← hspec.perm.length_eq]
      exact List.length_filter_le _ _
    have hlen := hfew (t, eng) (mem_of_lookup hget)
    rw [hspec.length_eq]
    rw [List.length_append] at hrows
    dsimp only at hlen
    omega
  obtain ⟨e, he, hre⟩ := hspec.exists_event rfl hshort hmem hadmits
  refine ⟨e, ?_, hre⟩
  rw [← Fallible.pure_inj h, List.mem_insertionSort]
  exact hsub he

end KdbStore

/-! ## What is still to be archived -/

/-- The event is in a chunk whose manifest is not recorded yet. -/
def Stage.Holds (e : LlmEvent) : Stage → Prop
  | .idle => False
  | .chunks todo _ | .recorded _ todo _ | .deleting _ _ todo _ => ∃ kc ∈ todo, e ∈ kc.2
  | .uploading u todo _ | .recording u todo _ => e ∈ u.chunk ∨ ∃ kc ∈ todo, e ∈ kc.2

/-- The step gives up the chunk at hand. -/
def Stage.fails {db : Keplordb} (a : Archiver) : Stage → Archiving.Input db → Bool
  | .chunks ((_, chunk) :: _) _, .prepare _ => !(prepare a chunk).isOk
  | .uploading _ _ _, .put error => error.isSome
  | .recording _ _ _, .record _ error => error.isSome
  | _, _ => false

namespace Archiving

section Progress

variable {db : Keplordb} {a : Archiver} {eventOf : EventId → LlmEvent} {s : Archiving db}
  {x : Input db}

variable (a eventOf) in
/-- What the archiver itself needs from outside: an archive id is new, and the rows are written ones.
Rows may go away. -/
def Sound (s : Archiving db) : Input db → Prop
  | .prepare archiveId => s.Fair a eventOf (.prepare archiveId)
  | .world store => ∀ r, store.Sees r → Written a eventOf r
  | _ => True

/-- The invariant does not depend on who else deletes. -/
theorem inv_of_sound (h : Inv a eventOf s) (hx : s.Sound a eventOf x) :
    Inv a eventOf (s.step a x) := by
  cases x with
  | world store => exact ⟨hx, h.stage⟩
  | prepare archiveId => exact (inv_step s (.prepare archiveId) h hx).1
  | start olderThanNs batchSize => exact (inv_step s (.start olderThanNs batchSize) h trivial).1
  | put error => exact (inv_step s (.put error) h trivial).1
  | record createdAt error => exact (inv_step s (.record createdAt error) h trivial).1
  | scope => exact (inv_step s .scope h trivial).1
  | delete => exact (inv_step s .delete h trivial).1
  | finish => exact (inv_step s .finish h trivial).1

/-- An object that was put stays as it is: new ones go under new paths. -/
theorem object_step (h : Inv a eventOf s) {path : String} {bytes : List UInt8}
    (hget : s.bucket.get path = some bytes) : (s.step a x).bucket.get path = some bytes := by
  have hstage := h.stage
  have heffect := effect a s x
  generalize s.step a x = s' at heffect ⊢
  cases heffect with
  | world store hx => exact hget
  | move hmove returned => exact hget
  | put hs hx =>
    rw [hs] at hstage
    have hne : path ≠ _ := fun hpath => by
      rw [hpath, hstage.1.2] at hget
      cases hget
    rw [Bucket.get, Bucket.put, List.lookup_cons, beq_false_of_ne hne]
    exact hget
  | record hs hx => exact hget
  | delete hs hx hnext => exact hget

/-- A manifest that was recorded stays recorded. -/
theorem manifests_step : s.bucket.manifests ⊆ (s.step a x).bucket.manifests := by
  have heffect := effect a s x
  generalize s.step a x = s' at heffect ⊢
  cases heffect with
  | world store hx => exact fun m hm => hm
  | move hmove returned => exact fun m hm => hm
  | put hs hx => exact fun m hm => hm
  | record hs hx => exact List.subset_append_left _ _
  | delete hs hx hnext => exact fun m hm => hm

/-- What is archived stays archived. -/
theorem archived_step (h : Inv a eventOf s) {r : LogEvent} (hr : Archived a s.bucket r) :
    Archived a (s.step a x).bucket r := by
  obtain ⟨m, hm, chunk, jsonl, compressed, hget, hrest⟩ := hr
  exact ⟨m, manifests_step hm, chunk, jsonl, compressed, object_step h hget, hrest⟩

/-- A visible row stays visible in its tier until it is archived. -/
theorem visible_step (h : Inv a eventOf s) {t : String} {e : db.Engine} {r : LogEvent}
    (hworld : ∀ store, x = .world store → ∃ e', store.get t = some e' ∧ r ∈ db.visible e')
    (hget : s.store.get t = some e) (hr : r ∈ db.visible e) :
    (∃ e', (s.step a x).store.get t = some e' ∧ r ∈ db.visible e') ∨
      Archived a (s.step a x).bucket r := by
  have hstage := h.stage
  have heffect := effect a s x
  generalize s.step a x = s' at heffect ⊢
  cases heffect with
  | world store hx => exact .inl (hworld store hx)
  | move hmove returned => exact .inl ⟨e, hget, hr⟩
  | put hs hx => exact .inl ⟨e, hget, hr⟩
  | record hs hx => exact .inl ⟨e, hget, hr⟩
  | delete hs hx hnext =>
    rw [hs] at hstage
    obtain ⟨e', hget', hr' | hid⟩ := KdbStore.visible_deleteFrom hget hr
    · exact .inl ⟨e', hget', hr'⟩
    · -- the chunk's manifest is recorded before its events are deleted
      exact .inr (hstage.1 r (h.rows r (KdbStore.sees_iff.mpr ⟨t, e, hget, hr⟩)) hid)

/-- The archiver shows nothing in a tier that was not visible there. -/
theorem visible_of_step {t : String} {e : db.Engine} {r : LogEvent}
    (hget : (s.step a x).store.get t = some e) (hr : r ∈ db.visible e) :
    (∃ e₀, s.store.get t = some e₀ ∧ r ∈ db.visible e₀) ∨
      ∃ store, x = .world store ∧ store.get t = some e := by
  have heffect := effect a s x
  generalize s.step a x = s' at heffect hget
  cases heffect with
  | world store hx => exact .inr ⟨store, hx, hget⟩
  | move hmove returned => exact .inl ⟨e, hget, hr⟩
  | put hs hx => exact .inl ⟨e, hget, hr⟩
  | record hs hx => exact .inl ⟨e, hget, hr⟩
  | delete hs hx hnext => exact .inl (KdbStore.visible_of_deleteFrom hget hr)

theorem sees_of_step {r : LogEvent} (hr : (s.step a x).store.Sees r) :
    s.store.Sees r ∨ ∃ store, x = .world store ∧ store.Sees r := by
  obtain ⟨t, e, hget, hvisible⟩ := KdbStore.sees_iff.mp hr
  rcases visible_of_step hget hvisible with ⟨e₀, hget₀, hr₀⟩ | ⟨store, hx, hget'⟩
  · exact .inl (KdbStore.sees_iff.mpr ⟨t, e₀, hget₀, hr₀⟩)
  · exact .inr ⟨store, hx, KdbStore.sees_iff.mpr ⟨t, e, hget', hvisible⟩⟩

/-- An event waits in a chunk because it did before, or because it was fetched from a visible row. -/
theorem holds_of_moves {store : KdbStore db} {stage stage' : Stage} {e : LlmEvent}
    (hmove : Moves a store stage x stage') (h : stage'.Holds e) :
    stage.Holds e ∨ ∃ r, store.Sees r ∧ fromEventRef a.formats r = pure e := by
  cases hmove with
  | stay => exact .inl h
  | fetch hquery hpos =>
    have hmem := (perm_cycleChunks (toNat_pos hpos) _).mem_iff.mp (List.mem_flatMap.mpr h)
    exact .inr (KdbStore.exists_row_of_mem_queryEventsForArchive hquery e hmem)
  | prepare hp =>
    rcases h with he | ⟨kc, hkc, he⟩
    · exact .inl ⟨_, List.mem_cons_self, he⟩
    · exact .inl ⟨kc, List.mem_cons_of_mem _ hkc, he⟩
  | unprepared hp =>
    obtain ⟨kc, hkc, he⟩ := h
    exact .inl ⟨kc, List.mem_cons_of_mem _ hkc, he⟩
  | notPut u todo acc e => exact .inl (.inr h)
  | notRecorded u todo acc createdAt e => exact .inl (.inr h)
  | scope u todo acc => exact .inl h
  | deleted u todo acc => exact .inl h
  | finish acc => exact h.elim

theorem holds_of_step {e : LlmEvent} (h : (s.step a x).stage.Holds e) :
    s.stage.Holds e ∨ ∃ r, s.store.Sees r ∧ fromEventRef a.formats r = pure e := by
  have heffect := effect a s x
  generalize s.step a x = s' at heffect h
  cases heffect with
  | world store hx => exact .inl h
  | move hmove returned => exact holds_of_moves hmove h
  | put hs hx =>
    rw [hs]
    exact .inl h
  | record hs hx =>
    rw [hs]
    exact .inl (.inr h)
  | delete hs hx hnext =>
    rw [hs]
    rcases hnext with rfl | rfl <;> exact .inl h

/-- A manifest is about to be recorded because its object has just been put. -/
theorem recording_of_step {u : Upload} {todo : List (GroupKey × List LlmEvent)} {acc : ArchiveResult}
    (h : (s.step a x).stage = .recording u todo acc) :
    s.stage = .recording u todo acc ∨ (s.stage = .uploading u todo acc ∧ x = .put none) := by
  have heffect := effect a s x
  generalize s.step a x = s' at heffect h
  cases heffect with
  | world store hx => exact .inl h
  | move hmove returned =>
    generalize hs : s.stage = now at hmove
    obtain rfl := h
    cases hmove
    exact .inl rfl
  | put hs hx =>
    cases h
    exact .inr ⟨hs, hx⟩
  | record hs hx => cases h
  | delete hs hx hnext => rcases hnext with rfl | rfl <;> cases h

/-- A row whose event waits in a chunk, or that is archived. -/
def Accounted (a : Archiver) (s : Archiving db) (r : LogEvent) : Prop :=
  Archived a s.bucket r ∨ ∃ e, fromEventRef a.formats r = pure e ∧ s.stage.Holds e

/-- A chunk that is not given up goes on waiting. -/
theorem holds_of_not_fails {store : KdbStore db} {stage stage' : Stage} {e : LlmEvent}
    (hmove : Moves a store stage x stage') (hfails : stage.fails a x = false)
    (hholds : stage.Holds e) : stage'.Holds e := by
  cases hmove with
  | stay => exact hholds
  | fetch hquery hpos => exact hholds.elim
  | prepare hp =>
    obtain ⟨kc, hkc, he⟩ := hholds
    rcases List.mem_cons.mp hkc with rfl | hkc
    · exact .inl he
    · exact .inr ⟨kc, hkc, he⟩
  | unprepared hp => simp [Stage.fails, hp, Except.isOk, Except.toBool] at hfails
  | notPut u todo acc e => cases hfails
  | notRecorded u todo acc createdAt e => cases hfails
  | scope u todo acc => exact hholds
  | deleted u todo acc => exact hholds
  | finish acc =>
    obtain ⟨kc, hkc, -⟩ := hholds
    cases hkc

/-- As long as nothing fails, a row stays accounted for. -/
theorem accounted_step (h : Inv a eventOf s) {r : LogEvent} (hw : Written a eventOf r)
    (hfails : s.stage.fails a x = false) (hr : Accounted a s r) : Accounted a (s.step a x) r := by
  rcases hr with hr | ⟨e, hread, hholds⟩
  · exact .inl (archived_step h hr)
  have hstage := h.stage
  have hid : r.id = a.formats.ulid.print e.id := (WrittenRow.print_id hw hread).symm
  have heffect := effect a s x
  generalize s.step a x = s' at heffect ⊢
  cases heffect with
  | world store hx => exact .inr ⟨e, hread, hholds⟩
  | move hmove returned => exact .inr ⟨e, hread, holds_of_not_fails hmove hfails hholds⟩
  | put hs hx =>
    rw [hs] at hholds
    exact .inr ⟨e, hread, hholds⟩
  | record hs hx =>
    rw [hs] at hstage hholds
    obtain ⟨⟨hu, hthere⟩, -⟩ := hstage
    rcases hholds with he | hholds
    · refine .inl (archived_of_record hu hthere _ hw ?_)
      obtain ⟨ls, hspec⟩ := toJsonl_spec (prepare_ok hu.prepared).1
      rw [hspec.ids_eq, hid]
      exact List.mem_map_of_mem (List.mem_map_of_mem he)
    · exact .inr ⟨e, hread, hholds⟩
  | delete hs hx hnext =>
    rw [hs] at hholds
    rcases hnext with rfl | rfl <;> exact .inr ⟨e, hread, hholds⟩

/-- A cycle that begins accounts for every visible row up to its cutoff. -/
theorem accounted_start (hdoc : db.FiltersAsDocumented)
    (hfew : ∀ p ∈ s.store.engines, (db.visible p.2).length < 2 ^ 64 - 1) {olderThanNs : Int64}
    {batchSize : UInt64} (hbegun : (s.start a olderThanNs batchSize).stage ≠ .idle)
    (hs : s.stage = .idle) {r : LogEvent} (hr : s.store.Sees r) (hts : r.tsNs ≤ olderThanNs) :
    Accounted a (s.start a olderThanNs batchSize) r := by
  revert hbegun
  rw [start]
  split
  · exact fun h => absurd hs h
  · exact fun h => absurd hs h
  · exact fun h => absurd hs h
  · rename_i events _ hquery
    split
    · exact fun h => absurd hs h
    · rename_i hpos
      intro _
      obtain ⟨e, he, hre⟩ := KdbStore.mem_queryEventsForArchive hdoc hfew hquery hr hts
      refine .inr ⟨e, hre, ?_⟩
      have hmem := (perm_cycleChunks (toNat_pos hpos) events).mem_iff.mpr he
      exact List.mem_flatMap.mp hmem

end Progress

end Archiving

end Keplor.Store
