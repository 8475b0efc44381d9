import Keplor.Server.Erase

/-!
# What an erasure reports

`Erase.lean` says what is gone when the handler returns. Here is what it returns: as long as no
further event of the user appears, the loop ends after a number of steps that the number of events
and of tiers bounds, and it reports exactly the events that were there.

The count goes through the loop as one equation (`Counts`): what is reported so far, what is being
deleted, and what is left add up to what there was. It rests on ids being unique, so that a batch
names as many rows as it is long.
-/

set_option autoImplicit false

namespace Keplor.Server

open Keplor.Lib Keplor.Core Keplor.Store

/-! ## A store that works -/

/-- Event ids are unique, and no call of an engine fails. -/
structure Healthy {db : Keplordb} (s : KdbStore db) : Prop where
  nodup : ∀ t e, s.get t = some e → ((db.visible e).map LogEvent.id).Nodup
  tier : ∀ t e t' e' r r', s.get t = some e → s.get t' = some e' → r ∈ db.visible e →
    r' ∈ db.visible e' → r.id = r'.id → t = t'
  queries : ∀ t e, s.get t = some e → ∀ qf n, ∃ rows, db.queryRecent e qf n = .ok rows
  deletes : ∀ t e, s.get t = some e → ∀ ids, (db.deleteEvents e ids).1 = .ok ()

section Count

variable {db : Keplordb} {c : EraseCall} {s s' : KdbStore db}

theorem mem_matchingRows (hdoc : db.FiltersAsDocumented) {r : LogEvent} :
    r ∈ s.matchingRows c.filter ↔ s.Sees r ∧ c.Owns r := by
  have hadmits : db.admits (toQueryFilter c.filter) r = true ↔ c.Owns r :=
    admits_user_iff hdoc c.user r
  rw [KdbStore.mem_matchingRows, hadmits]

theorem Healthy.nodup_matchingRows (h : Healthy s) (filter : EventFilter) :
    ((s.matchingRows filter).map LogEvent.id).Nodup := by
  have hget : ∀ p ∈ s.engines, s.get p.1 = some p.2 := fun p hp => lookup_of_mem s.nodup hp
  have hkeys := List.pairwise_map.mp s.nodup
  rw [KdbStore.matchingRows, List.map_flatMap, List.nodup_flatMap]
  constructor
  · intro p hp
    exact (h.nodup p.1 p.2 (hget p hp)).sublist (List.filter_sublist.map LogEvent.id)
  · apply hkeys.imp_of_mem
    intro p q hp hq hne id hid hid'
    obtain ⟨r, hr, hrid⟩ := List.mem_map.mp hid
    obtain ⟨r', hr', hrid'⟩ := List.mem_map.mp hid'
    exact hne (h.tier p.1 p.2 q.1 q.2 r r' (hget p hp) (hget q hq) (List.mem_of_mem_filter hr)
      (List.mem_of_mem_filter hr') (hrid.trans hrid'.symm))

/-- Stores that show the same rows of the user have equally many of them, also apart from some. -/
theorem length_filter_eq (hdoc : db.FiltersAsDocumented) (h : Healthy s) (h' : Healthy s')
    (keep : LogEvent → Bool)
    (hsame : ∀ r, c.Owns r → keep r = true → (s.Sees r ↔ s'.Sees r)) :
    ((s.matchingRows c.filter).filter keep).length = ((s'.matchingRows c.filter).filter keep).length := by
  refine List.Perm.length_eq ((List.perm_ext_iff_of_nodup ?_ ?_).mpr fun r => ?_)
  · exact (h.nodup_matchingRows c.filter).of_map.filter _
  · exact (h'.nodup_matchingRows c.filter).of_map.filter _
  · simp only [List.mem_filter, mem_matchingRows hdoc]
    constructor
    · rintro ⟨⟨hsees, howns⟩, hkeep⟩
      exact ⟨⟨(hsame r howns hkeep).mp hsees, howns⟩, hkeep⟩
    · rintro ⟨⟨hsees, howns⟩, hkeep⟩
      exact ⟨⟨(hsame r howns hkeep).mpr hsees, howns⟩, hkeep⟩

theorem length_matchingRows_eq (hdoc : db.FiltersAsDocumented) (h : Healthy s) (h' : Healthy s')
    (hsame : ∀ r, c.Owns r → (s.Sees r ↔ s'.Sees r)) :
    (s.matchingRows c.filter).length = (s'.matchingRows c.filter).length := by
  have hlen := length_filter_eq (c := c) hdoc h h' (fun _ => true) fun r howns _ => hsame r howns
  simpa using hlen

/-- Distinct ids of visible rows of the user split off as many rows as they are. -/
theorem length_split (hdoc : db.FiltersAsDocumented) (h : Healthy s) {ids : List String}
    (hids : ids.Nodup) (hvisible : ∀ id ∈ ids, ∃ r, s.Sees r ∧ c.Owns r ∧ r.id = id) :
    (s.matchingRows c.filter).length
      = ids.length + ((s.matchingRows c.filter).filter fun r => r.id ∉ ids).length := by
  have hnodup := h.nodup_matchingRows c.filter
  have hperm : (((s.matchingRows c.filter).filter fun r => r.id ∈ ids).map LogEvent.id).Perm ids := by
    refine (List.perm_ext_iff_of_nodup ?_ hids).mpr fun id => ?_
    · exact hnodup.sublist (List.filter_sublist.map LogEvent.id)
    · rw [List.mem_map]
      constructor
      · rintro ⟨r, hr, rfl⟩
        exact of_decide_eq_true (List.mem_filter.mp hr).2
      · intro hid
        obtain ⟨r, hsees, howns, rfl⟩ := hvisible id hid
        refine ⟨r, List.mem_filter.mpr ⟨(mem_matchingRows hdoc).mpr ⟨hsees, howns⟩, ?_⟩, rfl⟩
        exact decide_eq_true hid
  have hlen := hperm.length_eq
  rw [List.length_map] at hlen
  have hsplit := (List.filter_append_perm (fun r : LogEvent => decide (r.id ∈ ids))
    (s.matchingRows c.filter)).length_eq
  rw [List.length_append, hlen] at hsplit
  rw [← hsplit]
  simp only [decide_not]

end Count

/-! ## The equation -/

namespace Erasing

section Quiet

variable {db : Keplordb} (c : EraseCall) (eventOf : EventId → LlmEvent) (start : KdbStore db)
  (tiers count : Nat)

/-- The store works after the step, has so many tiers at most, and no further event of the user has
become visible. -/
def Quiet (s : Erasing db) (x : Input db) : Prop :=
  (Healthy (s.step c x).store ∧ (s.step c x).store.engines.length ≤ tiers) ∧
    ∀ r, c.Owns r → (s.step c x).store.Sees r → s.store.Sees r

/-- What is reported, what is about to be, and what is left make up `count`. -/
def Counts (store : KdbStore db) : EraseStage → Prop
  | .asking total => total + (store.matchingRows c.filter).length = count
  | .reading left out total =>
      total + (store.matchingRows c.filter).length = count ∧ left.Nodup ∧
        (out.map LlmEvent.id).Nodup ∧
        ∀ e ∈ out, ∃ t eng r, t ∉ left ∧ store.get t = some eng ∧ r ∈ db.visible eng ∧ c.Owns r ∧
          r.id = c.formats.ulid.print e.id
  | .listed ids total =>
      total + (store.matchingRows c.filter).length = count ∧ ids.Nodup ∧
        ids.length ≤ EraseCall.batch ∧
        ∀ id ∈ ids, ∃ r, store.Sees r ∧ c.Owns r ∧ r.id = c.formats.ulid.print id
  | .deleting ids left total =>
      total + ids.length + ((store.matchingRows c.filter).filter fun r =>
          r.id ∉ ids.map c.formats.ulid.print).length = count ∧ ids.length ≤ EraseCall.batch ∧
        (∀ id ∈ ids, ∃ r, start.Sees r ∧ r.id = c.formats.ulid.print id) ∧
        ∀ t e r, store.get t = some e → r ∈ db.visible e → r.id ∈ ids.map c.formats.ulid.print →
          t ∈ left
  | .done (.ok n) => n = count
  | .done (.error _) => False

/-- What the call keeps while nothing disturbs it. -/
structure Exact (s : Erasing db) : Prop where
  inv : Inv c eventOf start s
  healthy : Healthy s.store
  few : s.store.engines.length ≤ tiers
  old : ∀ r, c.Owns r → s.store.Sees r → start.Sees r
  counts : Counts c start count s.store s.stage

variable {c eventOf start tiers count}

/-- The rest of the world does not touch the user's rows. -/
theorem counts_world {s : Erasing db} (h : Exact c eventOf start tiers count s)
    (hdoc : db.FiltersAsDocumented) {store : KdbStore db} (hgrows : Grows c eventOf start s.store store)
    (hhealthy : Healthy store) (hquiet : ∀ r, c.Owns r → store.Sees r → s.store.Sees r) :
    Counts c start count store s.stage := by
  have hkeeps : ∀ r, s.store.Sees r → store.Sees r := by
    intro r hr
    obtain ⟨t, e, hget, hr⟩ := KdbStore.sees_iff.mp hr
    obtain ⟨e', hget', hkeeps⟩ := hgrows.keeps t e hget
    exact KdbStore.sees_iff.mpr ⟨t, e', hget', hkeeps r hr⟩
  have hsame : ∀ r, c.Owns r → (s.store.Sees r ↔ store.Sees r) :=
    fun r howns => ⟨hkeeps r, hquiet r howns⟩
  have hlen := length_matchingRows_eq hdoc h.healthy hhealthy hsame
  have hcounts := h.counts
  revert hcounts
  cases hs : s.stage with
  | asking total =>
    intro hcounts
    exact (congrArg (total + ·) hlen).symm.trans hcounts
  | reading left out total =>
    rintro ⟨hcount, hleft, hout, hrows⟩
    refine ⟨(congrArg (total + ·) hlen).symm.trans hcount, hleft, hout, fun e he => ?_⟩
    obtain ⟨t, eng, r, ht, hget, hr, hrest⟩ := hrows e he
    obtain ⟨eng', hget', hkeep⟩ := hgrows.keeps t eng hget
    exact ⟨t, eng', r, ht, hget', hkeep r hr, hrest⟩
  | listed ids total =>
    rintro ⟨hcount, hids, hle, hrows⟩
    refine ⟨(congrArg (total + ·) hlen).symm.trans hcount, hids, hle, fun id hid => ?_⟩
    obtain ⟨r, hr, hrest⟩ := hrows id hid
    exact ⟨r, hkeeps r hr, hrest⟩
  | deleting ids left total =>
    rintro ⟨hcount, hle, hold, hleft⟩
    have hrest := length_filter_eq hdoc h.healthy hhealthy
      (fun r => r.id ∉ ids.map c.formats.ulid.print) fun r howns _ => hsame r howns
    refine ⟨by rw [← hrest]; exact hcount, hle, hold, fun t e' r hget hr hid => ?_⟩
    rcases hgrows.fresh t e' r hget hr with ⟨e, hget₀, hr₀⟩ | hfresh
    · exact hleft t e r hget₀ hr₀ hid
    · obtain ⟨id, hmem, hprint⟩ := List.mem_map.mp hid
      obtain ⟨r₀, hstart, hid₀⟩ := hold id hmem
      exact absurd (hid₀.trans hprint) (hfresh r₀ hstart)
  | done r =>
    intro hcounts
    cases r <;> exact hcounts

/-- A query of a healthy engine returns, when the rows of the store can be read. -/
theorem readTier_isOk {s : KdbStore db} (hhealthy : Healthy s)
    (hrows : ∀ r, s.Sees r → ∃ e, fromEventRef c.formats r = pure e) (qf : QueryFilter) (limit : Nat)
    (tier : String) : ∃ events, s.readTier c.formats qf limit tier = pure events := by
  rw [KdbStore.readTier]
  cases hget : s.get tier with
  | none => exact ⟨[], rfl⟩
  | some eng =>
    obtain ⟨rows, hok⟩ := hhealthy.queries tier eng hget qf limit
    have hread : ∀ r ∈ rows, ∃ e, fromEventRef c.formats r = pure e := by
      intro r hr
      obtain ⟨rest, hperm, -⟩ := db.query_newest hok
      have hmem := List.mem_of_mem_filter (hperm.mem_iff.mpr (List.mem_append_left rest hr))
      exact hrows r (KdbStore.sees_iff.mpr ⟨tier, eng, hget, hmem⟩)
    have : Nonempty LlmEvent := ⟨sampleEvent⟩
    choose! f hf using hread
    refine ⟨rows.map f, ?_⟩
    simp only [hok, kdbErr, Except.mapError, Fallible.ofExcept_ok, pure_bind]
    exact Fallible.mapM_eq_pure fun r hr => KdbStore.readRow_eq_pure (hf r hr)

/-- What one engine contributes to a batch: distinct ids, each of a visible row of the user. -/
theorem nodup_read {s : Erasing db} (h : Exact c eventOf start tiers count s) {tier : String}
    {eng : db.Engine} {qf : QueryFilter} {limit : Nat} {rows rest : List LogEvent}
    {events : List LlmEvent} (hget : s.store.get tier = some eng)
    (hspec : KdbStore.ReadOf c.formats qf limit eng rows rest events) :
    (events.map LlmEvent.id).Nodup := by
  have hids : (events.map LlmEvent.id).map c.formats.ulid.print = rows.map LogEvent.id := by
    rw [List.map_map]
    have hmem : ∀ r ∈ rows, r ∈ db.visible eng := fun r hr =>
      List.mem_of_mem_filter (hspec.perm.mem_iff.mpr (List.mem_append_left rest hr))
    have hread := hspec.read
    clear hspec
    induction hread with
    | nil => rfl
    | @cons r e rows events hre _ ih =>
      have hw := h.inv.rows r (KdbStore.sees_iff.mpr ⟨tier, eng, hget, hmem r List.mem_cons_self⟩)
      rw [List.map_cons, List.map_cons, ih fun r hr => hmem r (List.mem_cons_of_mem _ hr)]
      exact congrArg (· :: _) (hw.print_id hre)
  have hnodup : (rows.map LogEvent.id).Nodup := by
    have hvisible := (h.healthy.nodup tier eng hget).sublist
      ((List.filter_sublist (p := fun r => db.admits qf r && qf.beforeCursor r)).map LogEvent.id)
    have hboth := ((hspec.perm.map LogEvent.id).nodup_iff).mp hvisible
    rw [List.map_append] at hboth
    exact hboth.sublist (List.sublist_append_left _ _)
  rw [← hids] at hnodup
  exact hnodup.of_map

theorem counts_read {s : Erasing db} (h : Exact c eventOf start tiers count s)
    (hdoc : db.FiltersAsDocumented) {tier : String} {left : List String}
    {out events : List LlmEvent} {total : Nat} (hs : s.stage = .reading (tier :: left) out total)
    (hread : s.store.readTier c.formats (buildQueryFilter c.filter none) EraseCall.batch tier
      = pure events) :
    Counts c start count s.store (.reading left (out ++ events) total) := by
  have hcounts := h.counts
  rw [hs] at hcounts
  obtain ⟨hcount, hleft, hout, hrows⟩ := hcounts
  obtain ⟨htier, hleft⟩ := List.nodup_cons.mp hleft
  have hkeep : ∀ e ∈ out, ∃ t eng r, t ∉ left ∧ s.store.get t = some eng ∧ r ∈ db.visible eng ∧
      c.Owns r ∧ r.id = c.formats.ulid.print e.id := by
    intro e he
    obtain ⟨t, eng, r, ht, hrest⟩ := hrows e he
    exact ⟨t, eng, r, fun hmem => ht (List.mem_cons_of_mem _ hmem), hrest⟩
  cases hget : s.store.get tier with
  | none =>
    rw [KdbStore.readTier, hget] at hread
    rw [← Fallible.pure_inj hread, List.append_nil]
    exact ⟨hcount, hleft, hout, hkeep⟩
  | some eng =>
    obtain ⟨rows, rest, hspec⟩ := KdbStore.readTier_spec hget hread
    have hnew : ∀ e ∈ events, ∃ r ∈ db.visible eng, c.Owns r ∧
        r.id = c.formats.ulid.print e.id := by
      intro e he
      obtain ⟨r, hr, hadmits, hre⟩ := hspec.exists_row he
      have hw := h.inv.rows r (KdbStore.sees_iff.mpr ⟨tier, eng, hget, hr⟩)
      exact ⟨r, hr, (admits_user_iff hdoc c.user r).mp hadmits, (hw.print_id hre).symm⟩
    refine ⟨hcount, hleft, ?_, fun e he => ?_⟩
    · rw [List.map_append]
      refine hout.append (nodup_read h hget hspec) fun id hid hid' => ?_
      -- an id in two batches would be visible in two tiers
      obtain ⟨e, he, rfl⟩ := List.mem_map.mp hid
      obtain ⟨e', he', heq⟩ := List.mem_map.mp hid'
      obtain ⟨t, eng₀, r, ht, hget₀, hr, -, hrid⟩ := hrows e he
      obtain ⟨r', hr', -, hrid'⟩ := hnew e' he'
      rw [heq] at hrid'
      have hsame := h.healthy.tier t eng₀ tier eng r r' hget₀ hget hr hr' (hrid.trans hrid'.symm)
      exact ht (hsame ▸ List.mem_cons_self)
    · rcases List.mem_append.mp he with he | he
      · exact hkeep e he
      · obtain ⟨r, hr, howns, hrid⟩ := hnew e he
        exact ⟨tier, eng, r, htier, hget, hr, howns, hrid⟩

/-- A row of the user that is still visible was there at the start, so it is covered. -/
theorem Exact.covered {s : Erasing db} (h : Exact c eventOf start tiers count s) {r : LogEvent}
    (hr : s.store.Sees r) (howns : c.Owns r) : ∃ t, Covers c t r s.stage := by
  obtain ⟨t, e, hget, hmem⟩ := KdbStore.sees_iff.mp hr
  exact ⟨t, h.inv.covers t e r hget hmem (h.old r howns hr) howns⟩

/-- Where the stage covers no row, nothing of the user is left. -/
theorem Exact.matchingRows_eq_nil {s : Erasing db} (h : Exact c eventOf start tiers count s)
    (hdoc : db.FiltersAsDocumented) (hnone : ∀ t r, ¬ Covers c t r s.stage) :
    s.store.matchingRows c.filter = [] := by
  rw [List.eq_nil_iff_forall_not_mem]
  intro r hr
  obtain ⟨hsees, howns⟩ := (mem_matchingRows hdoc).mp hr
  obtain ⟨t, hcov⟩ := h.covered hsees howns
  exact hnone t r hcov

theorem counts_page {s : Erasing db} (h : Exact c eventOf start tiers count s)
    (hdoc : db.FiltersAsDocumented) {out : List LlmEvent} {total : Nat}
    (hs : s.stage = .reading [] out total) :
    Counts c start count s.store (afterQuery c total
      (some (.ok ((out.insertionSort (Desc LlmEvent.tsNs)).take EraseCall.batch)))) := by
  have hperm := List.perm_insertionSort (Desc LlmEvent.tsNs) out
  generalize out.insertionSort (Desc LlmEvent.tsNs) = sorted at hperm
  have hcounts := h.counts
  rw [hs] at hcounts
  obtain ⟨hcount, -, hout, hrows⟩ := hcounts
  by_cases hempty : sorted.take EraseCall.batch = []
  · rw [hempty]
    have hnil : out = [] := by
      rw [← List.length_eq_zero_iff, ← hperm.length_eq]
      have hlen := congrArg List.length hempty
      rw [List.length_take, List.length_nil] at hlen
      have : 0 < EraseCall.batch := by decide
      omega
    have hnone : s.store.matchingRows c.filter = [] := by
      refine h.matchingRows_eq_nil hdoc fun t r hcov => ?_
      rw [hs, hnil] at hcov
      rcases hcov with hmem | hfull | hmem
      · cases hmem
      · exact absurd hfull (by decide)
      · cases hmem
    rw [hnone, List.length_nil, Nat.add_zero] at hcount
    exact hcount
  · rw [afterQuery_of_ne hempty]
    refine ⟨hcount, ?_, ?_, fun id hid => ?_⟩
    · have hnodup := ((hperm.map LlmEvent.id).nodup_iff).mpr hout
      exact hnodup.sublist ((List.take_sublist _ _).map LlmEvent.id)
    · rw [List.length_map, List.length_take]
      exact Nat.min_le_left _ _
    · obtain ⟨e, he, rfl⟩ := List.mem_map.mp hid
      obtain ⟨t, eng, r, -, hget, hr, hrest⟩ := hrows e (hperm.mem_iff.mp (List.mem_of_mem_take he))
      exact ⟨r, KdbStore.sees_iff.mpr ⟨t, eng, hget, hr⟩, hrest⟩

theorem counts_scope {s : Erasing db} (h : Exact c eventOf start tiers count s)
    (hdoc : db.FiltersAsDocumented) {ids : List EventId} {total : Nat}
    (hs : s.stage = .listed ids total) :
    Counts c start count s.store (.deleting ids (s.store.deleteScope ids) total) := by
  have hcounts := h.counts
  rw [hs] at hcounts
  obtain ⟨hcount, hids, hle, hrows⟩ := hcounts
  refine ⟨?_, hle, fun id hid => ?_, fun t e r hget _ hid => ?_⟩
  · have hprint : (ids.map c.formats.ulid.print).Nodup :=
      hids.map fun _ _ heq => print_injective heq
    have hsplit := length_split hdoc h.healthy hprint fun id hid => by
      obtain ⟨id, hmem, rfl⟩ := List.mem_map.mp hid
      exact hrows id hmem
    rw [hsplit, List.length_map] at hcount
    omega
  · obtain ⟨r, hsees, howns, hrid⟩ := hrows id hid
    exact ⟨r, h.old r howns hsees, hrid⟩
  · have hne : ids.isEmpty = false := by
      cases ids with
      | nil => cases hid
      | cons id ids => rfl
    rw [KdbStore.deleteScope, hne]
    exact KdbStore.mem_tiers_of_get hget

theorem counts_delete {s : Erasing db} (h : Exact c eventOf start tiers count s)
    (hdoc : db.FiltersAsDocumented) {ids : List EventId} {tier : String} {left : List String}
    {total : Nat} (hs : s.stage = .deleting ids (tier :: left) total) {store : KdbStore db}
    (hdel : s.store.deleteFrom (ids.map c.formats.ulid.print) tier = (.ok (), store))
    (hhealthy : Healthy store) :
    Counts c start count store (.deleting ids left total) := by
  have hcounts := h.counts
  rw [hs] at hcounts
  obtain ⟨hcount, hle, hold, hleft⟩ := hcounts
  have hstore : store = (s.store.deleteFrom (ids.map c.formats.ulid.print) tier).2 := by rw [hdel]
  have hrest := length_filter_eq (c := c) hdoc h.healthy hhealthy
    (fun r => r.id ∉ ids.map c.formats.ulid.print) fun r _ hkeep => ?_
  · refine ⟨by rw [← hrest]; exact hcount, hle, hold, fun t e r hget hr hid => ?_⟩
    have hget' := hget
    rw [hstore] at hget'
    obtain ⟨e₀, hget₀, hr₀⟩ := KdbStore.visible_of_deleteFrom hget' hr
    rcases List.mem_cons.mp (hleft t e₀ r hget₀ hr₀ hid) with rfl | hmem
    · exact absurd hid (KdbStore.id_notMem_of_deleteFrom hdel hget hr)
    · exact hmem
  · rw [hstore]
    constructor
    · intro hr
      exact (KdbStore.sees_deleteFrom hr).resolve_right (of_decide_eq_true hkeep)
    · exact KdbStore.sees_of_deleteFrom

theorem counts_end {s : Erasing db} (h : Exact c eventOf start tiers count s)
    (hdoc : db.FiltersAsDocumented) {ids : List EventId} {total : Nat}
    (hs : s.stage = .deleting ids [] total) :
    Counts c start count s.store (afterDelete total (.ok ids.length) ids) := by
  have hcounts := h.counts
  rw [hs] at hcounts
  obtain ⟨hcount, hle, hold, hleft⟩ := hcounts
  -- no id of the batch is visible any more
  have hall : ((s.store.matchingRows c.filter).filter fun r =>
      r.id ∉ ids.map c.formats.ulid.print) = s.store.matchingRows c.filter := by
    refine List.filter_eq_self.mpr fun r hr => decide_eq_true fun hid => ?_
    obtain ⟨t, e, hget, hmem⟩ := KdbStore.sees_iff.mp ((mem_matchingRows hdoc).mp hr).1
    cases hleft t e r hget hmem hid
  rw [hall] at hcount
  by_cases hshort : ids.length < EraseCall.batch
  · rw [afterDelete_short hshort]
    have hnone : s.store.matchingRows c.filter = [] := by
      refine h.matchingRows_eq_nil hdoc fun t r hcov => ?_
      rw [hs] at hcov
      rcases hcov with hfull | ⟨-, hmem⟩
      · omega
      · cases hmem
    rw [hnone, List.length_nil, Nat.add_zero] at hcount
    exact hcount
  · rw [afterDelete_full hshort]
    exact hcount

theorem deleteFrom_isOk {s : KdbStore db} (hhealthy : Healthy s) (ids : List String) (tier : String) :
    ∃ store, s.deleteFrom ids tier = (.ok (), store) := by
  rw [KdbStore.deleteFrom]
  cases hget : s.get tier with
  | none => exact ⟨s, rfl⟩
  | some eng =>
    refine ⟨s.put tier (db.deleteEvents eng ids).2, ?_⟩
    simp only [hhealthy.deletes tier eng hget ids]
    rfl

/-! ## Every step comes closer to the end -/

/-- How many steps are left at most. -/
def distance (tiers count : Nat) : EraseStage → Nat
  | .asking total => ((count - total) / EraseCall.batch + 1) * (2 * tiers + 4)
  | .reading left _ total =>
      (count - total) / EraseCall.batch * (2 * tiers + 4) + (left.length + tiers + 3)
  | .listed _ total => (count - total) / EraseCall.batch * (2 * tiers + 4) + (tiers + 2)
  | .deleting _ left total =>
      (count - total) / EraseCall.batch * (2 * tiers + 4) + (left.length + 1)
  | .done _ => 0

/-- The next full batch takes one round off. -/
theorem distance_asking {ids : List EventId} {total rest : Nat}
    (hcount : total + ids.length + rest = count) (hfull : ¬ ids.length < EraseCall.batch)
    (hle : ids.length ≤ EraseCall.batch) :
    distance tiers count (.asking (total + ids.length))
      = (count - total) / EraseCall.batch * (2 * tiers + 4) := by
  have hlen : ids.length = EraseCall.batch := by omega
  have hsub : count - total = count - (total + ids.length) + EraseCall.batch := by omega
  have hdiv : (count - total) / EraseCall.batch
      = (count - (total + ids.length)) / EraseCall.batch + 1 := by
    rw [hsub]
    exact Nat.add_div_right _ (by decide)
  rw [distance, hdiv]

/-- A step of the call keeps the equation, and there are fewer left. -/
theorem exact_advance {s : Erasing db} (h : Exact c eventOf start tiers count s)
    (hdoc : db.FiltersAsDocumented) (hreads : ∀ id, MetadataReads c.formats (eventOf id))
    (hhealthy : Healthy (s.advance c).store) :
    Counts c start count (s.advance c).store (s.advance c).stage ∧
      ((∀ r, s.stage ≠ .done r) →
        distance tiers count (s.advance c).stage < distance tiers count s.stage) := by
  have hrows : ∀ r, s.store.Sees r → ∃ e, fromEventRef c.formats r = pure e := by
    intro r hr
    obtain ⟨id, -, rfl⟩ := h.inv.rows r hr
    exact ⟨_, fromEventRef_toLogEvent (hreads id)⟩
  have hcounts := h.counts
  cases hs : s.stage with
  | asking total =>
    rw [hs] at hcounts
    rw [advance_asking hs]
    refine ⟨⟨hcounts, s.store.nodup, List.nodup_nil, fun e he => by cases he⟩, fun _ => ?_⟩
    have hfew := h.few
    simp only [distance, List.length_map, Nat.add_mul, Nat.one_mul]
    omega
  | reading left out total =>
    cases left with
    | nil =>
      rw [advance_page hs]
      refine ⟨counts_page h hdoc hs, fun _ => ?_⟩
      by_cases hempty : (out.insertionSort (Desc LlmEvent.tsNs)).take EraseCall.batch = []
      · rw [hempty]
        simp only [afterQuery, List.isEmpty_nil, if_true, distance]
        omega
      · rw [afterQuery_of_ne hempty]
        simp only [distance, List.length_nil]
        omega
    | cons tier left =>
      -- on a healthy store a tier can always be read and, further down, deleted from
      obtain ⟨events, hread⟩ := readTier_isOk (c := c) h.healthy hrows
        (buildQueryFilter c.filter none) EraseCall.batch tier
      rw [advance_read hs hread]
      refine ⟨counts_read h hdoc hs hread, fun _ => ?_⟩
      simp only [distance, List.length_cons]
      omega
  | listed ids total =>
    rw [advance_scope hs]
    refine ⟨counts_scope h hdoc hs, fun _ => ?_⟩
    have hscope : (s.store.deleteScope ids).length ≤ tiers := by
      have hfew := h.few
      rw [KdbStore.deleteScope]
      split
      · exact Nat.zero_le _
      · rwa [List.length_map]
    simp only [distance]
    omega
  | deleting ids left total =>
    cases left with
    | nil =>
      rw [hs] at hcounts
      obtain ⟨hcount, hle, -⟩ := hcounts
      rw [advance_end hs]
      refine ⟨counts_end h hdoc hs, fun _ => ?_⟩
      by_cases hshort : ids.length < EraseCall.batch
      · rw [afterDelete_short hshort]
        simp only [distance]
        omega
      · -- a full batch asks again, but there is a batch less to delete
        rw [afterDelete_full hshort, distance_asking hcount hshort hle]
        simp only [distance]
        omega
    | cons tier left =>
      obtain ⟨store, hdel⟩ := deleteFrom_isOk h.healthy (ids.map c.formats.ulid.print) tier
      rw [advance_delete hs hdel] at hhealthy ⊢
      refine ⟨counts_delete h hdoc hs hdel hhealthy, fun _ => ?_⟩
      simp only [distance, List.length_cons]
      omega
  | done r =>
    rw [advance_done hs]
    exact ⟨hcounts, fun hne => absurd rfl (hne r)⟩

/-- A step of anyone keeps the equation. -/
theorem exact_step (hdoc : db.FiltersAsDocumented)
    (hreads : ∀ id, MetadataReads c.formats (eventOf id)) (s : Erasing db) (x : Input db)
    (h : Exact c eventOf start tiers count s)
    (hx : s.World c eventOf start x ∧ s.Quiet c tiers x) :
    Exact c eventOf start tiers count (s.step c x) := by
  obtain ⟨hworld, ⟨hhealthy, hfew⟩, hquiet⟩ := hx
  refine ⟨inv_step hdoc s x h.inv hworld, hhealthy, hfew,
    fun r howns hr => h.old r howns (hquiet r howns hr), ?_⟩
  cases x with
  | world store => exact counts_world h hdoc hworld hhealthy hquiet
  | advance => exact (exact_advance h hdoc hreads hhealthy).1

theorem distance_step (hdoc : db.FiltersAsDocumented)
    (hreads : ∀ id, MetadataReads c.formats (eventOf id)) (s : Erasing db) (x : Input db)
    (h : Exact c eventOf start tiers count s)
    (hx : s.World c eventOf start x ∧ s.Quiet c tiers x) (hown : x.own = true)
    (hend : ¬ ∃ r, s.stage = .done r) :
    distance tiers count (s.step c x).stage < distance tiers count s.stage := by
  cases x with
  | world store => cases hown
  | advance =>
    exact (exact_advance h hdoc hreads hx.2.1.1).2 fun r hr => hend ⟨r, hr⟩

theorem done_step (s : Erasing db) (x : Input db) (h : ∃ r, s.stage = .done r) :
    ∃ r, (s.step c x).stage = .done r := by
  obtain ⟨r, hr⟩ := h
  cases x with
  | world store => exact ⟨r, hr⟩
  | advance =>
    refine ⟨r, ?_⟩
    rw [step, advance_done hr]
    exact hr

/-- An undisturbed call has returned after so many steps of its own. -/
theorem run_ends (hdoc : db.FiltersAsDocumented)
    (hreads : ∀ id, MetadataReads c.formats (eventOf id)) {s : Erasing db}
    (h : Exact c eventOf start tiers count s) {xs : List (Input db)}
    (hxs : Allowed (step c) (fun s x => s.World c eventOf start x ∧ s.Quiet c tiers x) s xs)
    (henough : distance tiers count s.stage ≤ xs.countP Input.own) :
    ∃ r, (run (step c) s xs).stage = .done r := by
  refine run_reaches (fun s => ∃ r, s.stage = .done r) Input.own
    (fun s => distance tiers count s.stage) (exact_step hdoc hreads) done_step
    (distance_step hdoc hreads) (fun s x _ _ hother => ?_) (fun s _ hzero => ?_) h hxs henough
  · cases x with
    | advance => cases hother
    | world store => exact Nat.le_refl _
  · cases hs : s.stage with
    | done r => exact ⟨r, rfl⟩
    | asking total => simp [hs, distance] at hzero
    | reading left out total => simp [hs, distance] at hzero
    | listed ids total => simp [hs, distance] at hzero
    | deleting ids left total => simp [hs, distance] at hzero

end Quiet

end Erasing

/-- How many events of the user are visible. -/
def EraseCall.visibleEvents {db : Keplordb} (c : EraseCall) (s : KdbStore db) : Nat :=
  (s.engines.flatMap fun p => db.visible p.2).countP fun r => r.dims DIM_USER_ID = c.user

theorem length_matchingRows {db : Keplordb} (hdoc : db.FiltersAsDocumented) (c : EraseCall)
    (s : KdbStore db) : (s.matchingRows c.filter).length = c.visibleEvents s := by
  have hadmits : db.admits (toQueryFilter c.filter)
      = fun r => decide (r.dims DIM_USER_ID = c.user) := by
    funext r
    rw [Bool.eq_iff_iff, decide_eq_true_iff]
    exact admits_user_iff hdoc c.user r
  rw [KdbStore.matchingRows, EraseCall.visibleEvents, List.countP_eq_length_filter,
    List.filter_flatMap, hadmits]

/-- For every user id the handler accepts, and whatever appends, rotations and newly opened tiers
come in between: when it returns `Ok`, no event of the user that was visible at the start is visible,
then or later; no event of another user that was visible at any time is hidden. And when ids are
unique, no engine fails and no further event of the user becomes visible, it reports the number of
the user's visible events at the start, and it does return after at most so many steps. -/
theorem erasure_is_complete_and_exact (db : Keplordb) (c : EraseCall) (q : DeleteEventsQuery)
    (haccepted : bulkTarget q = .ok (.user c.user)) (eventOf : EventId → LlmEvent)
    (hdoc : db.FiltersAsDocumented) (start : KdbStore db)
    (hrows : ∀ r, start.Sees r → WrittenRow c.formats eventOf r) (xs : List (Erasing.Input db))
    (hworld : Allowed (Erasing.step c) (Erasing.World c eventOf start) (Erasing.begin start) xs) :
    ((∃ n, (run (Erasing.step c) (.begin start) xs).stage = .done (.ok n)) →
      ∀ e : LlmEvent, e.userId = some c.user → start.Sees (toLogEvent c.formats e) →
        ¬ (run (Erasing.step c) (.begin start) xs).store.Sees (toLogEvent c.formats e)) ∧
    (∀ ys zs, xs = ys ++ zs → ∀ e : LlmEvent, e.userId ≠ some c.user →
      (run (Erasing.step c) (.begin start) ys).store.Sees (toLogEvent c.formats e) →
        (run (Erasing.step c) (.begin start) xs).store.Sees (toLogEvent c.formats e)) ∧
    ∀ tiers, Healthy start → start.engines.length ≤ tiers →
      (∀ id, MetadataReads c.formats (eventOf id)) →
      Allowed (Erasing.step c) (Erasing.Quiet c tiers) (Erasing.begin start) xs →
      (∀ result, (run (Erasing.step c) (.begin start) xs).stage = .done result →
        result = .ok (c.visibleEvents start)) ∧
      ((c.visibleEvents start / 1000 + 1) * (2 * tiers + 4) ≤ xs.countP Erasing.Input.own →
        (run (Erasing.step c) (.begin start) xs).stage = .done (.ok (c.visibleEvents start))) := by
  have hne := ne_empty_of_bulkTarget haccepted
  have howns : ∀ e : LlmEvent, c.Owns (toLogEvent c.formats e) ↔ e.userId = some c.user := by
    intro e
    rw [EraseCall.Owns, dims_user_toLogEvent]
    cases e.userId with
    | none => exact iff_of_false (fun h => hne h.symm) (by simp)
    | some u => simp
  have hinit := Erasing.inv_begin hrows
  have hinv := run_invariant (Erasing.inv_step hdoc) hinit hworld
  refine ⟨fun hdone e huser hstart hsees => ?_, fun ys zs hsplit e huser hsees => ?_,
    fun tiers hhealthy hfew hreads hquiet => ?_⟩
  · obtain ⟨n, hn⟩ := hdone
    obtain ⟨t, eng, hget, hr⟩ := KdbStore.sees_iff.mp hsees
    have hcov := hinv.covers t eng _ hget hr hstart ((howns e).mpr huser)
    rw [hn] at hcov
    exact hcov
  · subst hsplit
    obtain ⟨hys, hzs⟩ := allowed_append.mp hworld
    rw [run_append]
    exact Erasing.sees_run hdoc (run_invariant (Erasing.inv_step hdoc) hinit hys) hzs hsees
      fun h => huser ((howns e).mp h)
  · have hcount := length_matchingRows hdoc c start
    have hexact : Erasing.Exact c eventOf start tiers (c.visibleEvents start) (.begin start) :=
      ⟨hinit, hhealthy, hfew, fun _ _ h => h, by rw [← hcount]; exact Nat.zero_add _⟩
    have hxs := allowed_and.mpr ⟨hworld, hquiet⟩
    have hend := run_invariant (Erasing.exact_step hdoc hreads) hexact hxs
    have hresult : ∀ result, (run (Erasing.step c) (.begin start) xs).stage = .done result →
        result = .ok (c.visibleEvents start) := by
      intro result hdone
      have hcounts := hend.counts
      rw [hdone] at hcounts
      cases result with
      | ok n => exact congrArg Except.ok hcounts
      | error e => exact hcounts.elim
    refine ⟨hresult, fun henough => ?_⟩
    obtain ⟨r, hr⟩ := Erasing.run_ends hdoc hreads hexact hxs henough
    rw [hr, hresult r hr]

/-- A store of one engine in memory, not full, in which no id occurs twice. -/
def oneSoundEngine (s : KdbStore memoryDb) : Bool :=
  match s.engines with
  | [(_, e)] => !e.full && decide ((MemoryEngine.visible e).map LogEvent.id).Nodup
  | _ => false

theorem healthy_of_oneSoundEngine {s : KdbStore memoryDb} (h : oneSoundEngine s = true) :
    Healthy s ∧ s.engines.length ≤ 1 := by
  unfold oneSoundEngine at h
  split at h
  · rename_i tier e hengines
    obtain ⟨hroom, hids⟩ := Bool.and_eq_true _ _ ▸ h
    have hget : ∀ {t e'}, s.get t = some e' → t = tier ∧ e' = e := by
      intro t e' hget
      have hmem := mem_of_lookup hget
      rw [hengines] at hmem
      cases List.mem_singleton.mp hmem
      exact ⟨rfl, rfl⟩
    refine ⟨⟨fun t e' ht => ?_, fun t e₁ t' e₂ r r' ht ht' _ _ _ => ?_, fun _ _ _ _ _ => ⟨_, rfl⟩,
      fun t e' ht ids => ?_⟩, by rw [hengines]; exact Nat.le_refl 1⟩
    · rw [(hget ht).2]
      exact of_decide_eq_true hids
    · rw [(hget ht).1, (hget ht').1]
    · rw [(hget ht).2]
      simp [memoryDb, Bool.not_eq_true' .. ▸ hroom]
  · cases h

/-- Two events of one instant, of two users. -/
def eventOfUser (id : EventId) : LlmEvent :=
  { sampleEvent with
    id := id
    userId := if id = ⟨2#128⟩ then some "bob" else some "alice"
    metadata := none }

/-- A store with one event of each. -/
def twoUsers : KdbStore memoryDb where
  engines := [("free", { segs := [[toLogEvent textFormats (eventOfUser ⟨1#128⟩),
    toLogEvent textFormats (eventOfUser ⟨2#128⟩)]] })]

/-- Alice asks to be forgotten. -/
def eraseAlice : EraseCall :=
  { formats := textFormats, user := "alice", joinErrorText := "task 7 panicked" }

/-- Her event goes, Bob's stays, and one event is reported. -/
theorem erasure_of_alice :
    (run (Erasing.step eraseAlice) (.begin twoUsers) (List.replicate 6 .advance)).stage
        = .done (.ok 1) ∧
      ¬ (run (Erasing.step eraseAlice) (.begin twoUsers) (List.replicate 6 .advance)).store.Sees
        (toLogEvent textFormats (eventOfUser ⟨1#128⟩)) ∧
      (run (Erasing.step eraseAlice) (.begin twoUsers) (List.replicate 6 .advance)).store.Sees
        (toLogEvent textFormats (eventOfUser ⟨2#128⟩)) := by
  have hsees : ∀ r, twoUsers.Sees r ↔ r = toLogEvent textFormats (eventOfUser ⟨1#128⟩) ∨
      r = toLogEvent textFormats (eventOfUser ⟨2#128⟩) := by
    intro r
    constructor
    · rintro ⟨p, hp, hr⟩
      obtain rfl := List.mem_singleton.mp hp
      simpa [memoryDb, MemoryEngine.visible] using hr
    · intro hr
      exact ⟨_, List.mem_singleton.mpr rfl, by simpa [memoryDb, MemoryEngine.visible] using hr⟩
  have hrows : ∀ r, twoUsers.Sees r → WrittenRow eraseAlice.formats eventOfUser r := by
    intro r hr
    rcases (hsees r).mp hr with rfl | rfl
    · exact ⟨⟨1#128⟩, rfl, rfl⟩
    · exact ⟨⟨2#128⟩, rfl, rfl⟩
  have hsound : Allowed (Erasing.step eraseAlice)
      (fun s x => x.own = true ∧ oneSoundEngine (s.step eraseAlice x).store = true)
      (.begin twoUsers) (List.replicate 6 .advance) := by decide +kernel
  have hworld : Allowed (Erasing.step eraseAlice) (Erasing.World eraseAlice eventOfUser twoUsers)
      (.begin twoUsers) (List.replicate 6 .advance) := by
    refine hsound.mono fun s x hx => ?_
    cases x with
    | advance => trivial
    | world store => cases hx.1
  obtain ⟨hgone, hkept, hcount⟩ := erasure_is_complete_and_exact memoryDb eraseAlice
    { userId := some "alice" } rfl eventOfUser memoryDb_filtersAsDocumented twoUsers hrows
    (List.replicate 6 .advance) hworld
  have hend := (hcount 1 (healthy_of_oneSoundEngine (by decide +kernel)).1 (Nat.le_refl 1)
    (fun id v hv => by cases hv) (hsound.mono fun s x hx => ?_)).2 (by decide +kernel)
  · have hone : eraseAlice.visibleEvents twoUsers = 1 := by decide +kernel
    rw [hone] at hend
    refine ⟨hend, hgone ⟨1, hend⟩ (eventOfUser ⟨1#128⟩) rfl ((hsees _).mpr (.inl rfl)), ?_⟩
    exact hkept [] _ rfl (eventOfUser ⟨2#128⟩) (by decide) ((hsees _).mpr (.inr rfl))
  · cases x with
    | world store => cases hx.1
    | advance =>
      refine ⟨healthy_of_oneSoundEngine hx.2, fun r _ hr => ?_⟩
      rcases Erasing.store_advance (c := eraseAlice) s with hsame | ⟨ids, tier, _, _, -, hstore⟩
      · rwa [Erasing.step, hsame] at hr
      · rw [Erasing.step, hstore] at hr
        exact KdbStore.sees_of_deleteFrom hr

end Keplor.Server
