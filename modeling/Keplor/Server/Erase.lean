import Keplor.Server.Pipeline
import Keplor.Server.Schema
import Keplor.Store.Reads

/-!
# `DELETE /v1/events?user_id=…` — erasing a user

The handler repeats a query for the user's newest thousand events and a deletion of what it found,
until a batch comes back short. Neither half is atomic: the query asks one engine after the other,
the deletion visits one engine after the other, and in between other requests append, engines
rotate and tiers are opened for the first time.

`Erasing` is that loop with a step for every access to an engine. A short batch ends it, and that is
sound for a reason that has to be carried through the whole batch (`Covers`): an engine that returned
fewer rows than asked for had no others at that moment, and a row that was visible before the call
does not move to another engine, nor come back.
-/

set_option autoImplicit false

namespace Keplor.Server

open Keplor.Lib Keplor.Core Keplor.Store

/-! ## The request -/

/-- `DeleteEventsQuery` -/
structure DeleteEventsQuery where
  olderThanDays : Option UInt32 := none
  userId : Option String := none

/-- What a bulk deletion is about. -/
inductive BulkTarget where
  | olderThan (days : UInt32)
  | user (userId : String)

/-- The checks at the head of `delete_events_bulk`. -/
def bulkTarget (q : DeleteEventsQuery) : Except ServerError BulkTarget :=
  match q.olderThanDays, q.userId with
  | some _, some _ => throw (.validation "older_than_days and user_id are mutually exclusive")
  | none, none => throw (.validation "one of older_than_days or user_id is required")
  | some days, none =>
    if days = 0 then throw (.validation "older_than_days must be > 0") else return .olderThan days
  | none, some userId =>
    if (trim userId.toList).isEmpty then throw (.validation "user_id must not be empty")
    else return .user userId

/-- An accepted user id is not empty. -/
theorem ne_empty_of_bulkTarget {q : DeleteEventsQuery} {user : String}
    (h : bulkTarget q = .ok (.user user)) : user ≠ "" := by
  rintro rfl
  unfold bulkTarget at h
  split at h
  · cases h
  · cases h
  · split at h <;> cases h
  · rename_i userId _
    split at h
    · cases h
    · rename_i hne
      cases h
      exact hne rfl

/-! ## The loop -/

/-- A call of the handler: the formats of the store, the user, and what the runtime says of a
blocking task that panicked. -/
structure EraseCall where
  formats : TextFormats
  user : String
  joinErrorText : String

/-- `BATCH` -/
def EraseCall.batch : Nat := 1000

/-- The filter of every batch. -/
def EraseCall.filter (c : EraseCall) : EventFilter := { userId := some c.user }

/-- Where the call is: what it has deleted so far, and what is under way. -/
inductive EraseStage where
  /-- about to list the engines for a query -/
  | asking (total : Nat)
  /-- reading from the engines that are left -/
  | reading (tiers : List String) (out : List LlmEvent) (total : Nat)
  /-- about to list the engines for a deletion -/
  | listed (ids : List EventId) (total : Nat)
  /-- deleting from the engines that are left -/
  | deleting (ids : List EventId) (tiers : List String) (total : Nat)
  | done (result : Except ServerError Nat)

/-- The store and the call. -/
structure Erasing (db : Keplordb) where
  store : KdbStore db
  stage : EraseStage

namespace Erasing

variable {db : Keplordb}

/-- The call takes its next step, or the store changes for reasons of its own. -/
inductive Input (db : Keplordb) where
  | advance
  | world (store : KdbStore db)

/-- `Input.advance` -/
def Input.own : Input db → Bool
  | .advance => true
  | .world _ => false

/-- Before the first batch. -/
def begin (store : KdbStore db) : Erasing db := ⟨store, .asking 0⟩

/-- What the handler makes of a query's result. -/
def afterQuery (c : EraseCall) (total : Nat) :
    Option (Except StoreError (List LlmEvent)) → EraseStage
  | none => .done (.error (.internal c.joinErrorText))
  | some (.error e) => .done (.error (.store e))
  | some (.ok events) =>
    if events.isEmpty then .done (.ok total) else .listed (events.map LlmEvent.id) total

theorem afterQuery_of_ne {c : EraseCall} {total : Nat} {events : List LlmEvent} (h : events ≠ []) :
    afterQuery c total (some (.ok events)) = .listed (events.map LlmEvent.id) total :=
  if_neg (by rwa [List.isEmpty_iff])

/-- What it makes of a deletion's result. -/
def afterDelete (total : Nat) : Except StoreError Nat → List EventId → EraseStage
  | .error e, _ => .done (.error (.store e))
  | .ok deleted, ids =>
    if deleted = 0 ∨ ids.length < EraseCall.batch then .done (.ok (total + deleted))
    else .asking (total + deleted)

theorem afterDelete_short {total : Nat} {ids : List EventId} (h : ids.length < EraseCall.batch) :
    afterDelete total (.ok ids.length) ids = .done (.ok (total + ids.length)) :=
  if_pos (.inr h)

theorem afterDelete_full {total : Nat} {ids : List EventId} (h : ¬ ids.length < EraseCall.batch) :
    afterDelete total (.ok ids.length) ids = .asking (total + ids.length) := by
  refine if_neg fun hend => hend.elim (fun hnone => ?_) h
  rw [hnone] at h
  exact h (by decide)

/-- The next step of the call. -/
def advance (c : EraseCall) (s : Erasing db) : Erasing db :=
  match s.stage with
  | .asking total => { s with stage := .reading (s.store.engines.map Prod.fst) [] total }
  | .reading [] out total =>
    let page := (out.insertionSort (Desc LlmEvent.tsNs)).take EraseCall.batch
    { s with stage := afterQuery c total (some (.ok page)) }
  | .reading (tier :: tiers) out total =>
    match (s.store.readTier c.formats (buildQueryFilter c.filter none) EraseCall.batch tier).run with
    | some (.ok events) => { s with stage := .reading tiers (out ++ events) total }
    | some (.error e) => { s with stage := afterQuery c total (some (.error e)) }
    | none => { s with stage := afterQuery c total none }
  | .listed ids total => { s with stage := .deleting ids (s.store.deleteScope ids) total }
  | .deleting ids [] total => { s with stage := afterDelete total (.ok ids.length) ids }
  | .deleting ids (tier :: tiers) total =>
    match s.store.deleteFrom (ids.map c.formats.ulid.print) tier with
    | (.error e, store) => { store := store, stage := afterDelete total (.error e) ids }
    | (.ok (), store) => { store := store, stage := .deleting ids tiers total }
  | .done _ => s

section Equations

variable {c : EraseCall} {s : Erasing db} {ids : List EventId} {tier : String} {tiers : List String}
  {out events : List LlmEvent} {total : Nat} {store : KdbStore db}

theorem advance_asking (hs : s.stage = .asking total) : s.advance c
    = { s with stage := .reading (s.store.engines.map Prod.fst) [] total } := by
  unfold advance
  rw [hs]

theorem advance_page (hs : s.stage = .reading [] out total) : s.advance c = { s with
    stage := afterQuery c total
      (some (.ok ((out.insertionSort (Desc LlmEvent.tsNs)).take EraseCall.batch))) } := by
  unfold advance
  rw [hs]

theorem advance_read (hs : s.stage = .reading (tier :: tiers) out total)
    (hread : s.store.readTier c.formats (buildQueryFilter c.filter none) EraseCall.batch tier
      = pure events) : s.advance c = { s with stage := .reading tiers (out ++ events) total } := by
  unfold advance
  rw [hs]
  simp only [hread, ExceptT.run_pure]
  rfl

theorem advance_scope (hs : s.stage = .listed ids total) : s.advance c
    = { s with stage := .deleting ids (s.store.deleteScope ids) total } := by
  unfold advance
  rw [hs]

theorem advance_delete (hs : s.stage = .deleting ids (tier :: tiers) total)
    (hdel : s.store.deleteFrom (ids.map c.formats.ulid.print) tier = (.ok (), store)) :
    s.advance c = { store := store, stage := .deleting ids tiers total } := by
  unfold advance
  rw [hs]
  simp only [hdel]

theorem advance_end (hs : s.stage = .deleting ids [] total) : s.advance c
    = { s with stage := afterDelete total (.ok ids.length) ids } := by
  unfold advance
  rw [hs]

theorem advance_done {r : Except ServerError Nat} (hs : s.stage = .done r) : s.advance c = s := by
  unfold advance
  rw [hs]

end Equations

/-- One step of the call, or of the world. -/
def step (c : EraseCall) (s : Erasing db) : Input db → Erasing db
  | .advance => s.advance c
  | .world store => { s with store := store }

end Erasing

/-! ## What the rest of the world does -/

section Erasure

variable {db : Keplordb} (c : EraseCall) (eventOf : EventId → LlmEvent) (start : KdbStore db)

/-- The row is one of the user's. -/
def EraseCall.Owns (r : LogEvent) : Prop := r.dims DIM_USER_ID = c.user

/-- Appends, rotations and newly opened tiers, while a call that began at `start` is under way: no
tier goes away, no row is hidden, and a row that appears in a tier is an event with an id of its
own, not one that was in use when the call began. -/
structure Grows (s s' : KdbStore db) : Prop where
  keeps : ∀ t e, s.get t = some e →
    ∃ e', s'.get t = some e' ∧ ∀ r ∈ db.visible e, r ∈ db.visible e'
  written : ∀ r, s'.Sees r → WrittenRow c.formats eventOf r
  fresh : ∀ t e' r, s'.get t = some e' → r ∈ db.visible e' →
    (∃ e, s.get t = some e ∧ r ∈ db.visible e) ∨ ∀ r₀, start.Sees r₀ → r₀.id ≠ r.id

namespace Erasing

/-- Nothing else happens to the store. -/
def World (s : Erasing db) : Input db → Prop
  | .advance => True
  | .world store => Grows c eventOf start s.store store

/-- The id belongs to an event of the user. -/
def OwnId (id : EventId) : Prop :=
  ∃ r, WrittenRow c.formats eventOf r ∧ r.id = c.formats.ulid.print id ∧ c.Owns r

/-- The call only ever holds ids of the user. -/
def HoldsOwn : EraseStage → Prop
  | .reading _ out _ => ∀ e ∈ out, OwnId c eventOf e.id
  | .listed ids _ | .deleting ids _ _ => ∀ id ∈ ids, OwnId c eventOf id
  | .asking _ | .done _ => True

/-- A row of the user in a tier, old enough to count, will still be deleted: this batch gets to it,
or the batch is full and another one follows. -/
def Covers (t : String) (r : LogEvent) : EraseStage → Prop
  | .asking _ => True
  | .reading tiers out _ =>
      t ∈ tiers ∨ EraseCall.batch ≤ out.length ∨
        r.id ∈ out.map fun e => c.formats.ulid.print e.id
  | .listed ids _ => EraseCall.batch ≤ ids.length ∨ r.id ∈ ids.map c.formats.ulid.print
  | .deleting ids tiers _ =>
      EraseCall.batch ≤ ids.length ∨ (r.id ∈ ids.map c.formats.ulid.print ∧ t ∈ tiers)
  | .done (.ok _) => False
  | .done (.error _) => True

/-- What the call keeps. -/
structure Inv (s : Erasing db) : Prop where
  rows : ∀ r, s.store.Sees r → WrittenRow c.formats eventOf r
  own : HoldsOwn c eventOf s.stage
  covers : ∀ t e r, s.store.get t = some e → r ∈ db.visible e → start.Sees r → c.Owns r →
    Covers c t r s.stage

variable {c eventOf start}

theorem inv_begin (h : ∀ r, start.Sees r → WrittenRow c.formats eventOf r) :
    Inv c eventOf start (begin start) :=
  ⟨h, trivial, fun _ _ _ _ _ _ _ => trivial⟩

/-- A step that does not touch the store. -/
theorem Inv.of_stage {s : Erasing db} (h : Inv c eventOf start s) {stage : EraseStage}
    (hown : HoldsOwn c eventOf stage)
    (hcovers : ∀ t e r, s.store.get t = some e → r ∈ db.visible e → c.Owns r →
      Covers c t r s.stage → Covers c t r stage) :
    Inv c eventOf start { s with stage := stage } :=
  ⟨h.rows, hown, fun t e r hget hr hstart howns =>
    hcovers t e r hget hr howns (h.covers t e r hget hr hstart howns)⟩

theorem inv_world {s : Erasing db} (h : Inv c eventOf start s) {store : KdbStore db}
    (hgrows : Grows c eventOf start s.store store) :
    Inv c eventOf start { s with store := store } := by
  refine ⟨hgrows.written, h.own, fun t e' r hget hr hstart howns => ?_⟩
  rcases hgrows.fresh t e' r hget hr with ⟨e, hget₀, hr₀⟩ | hfresh
  · exact h.covers t e r hget₀ hr₀ hstart howns
  · exact absurd rfl (hfresh r hstart)

/-- One engine is read. Either it had fewer rows of the user than asked for, and they are all here,
or the batch is full. -/
theorem inv_read {s : Erasing db} (h : Inv c eventOf start s) (hdoc : db.FiltersAsDocumented)
    {tier : String} {tiers : List String} {out events : List LlmEvent} {total : Nat}
    (hs : s.stage = .reading (tier :: tiers) out total)
    (hread : s.store.readTier c.formats (buildQueryFilter c.filter none) EraseCall.batch tier
      = pure events) :
    Inv c eventOf start { s with stage := .reading tiers (out ++ events) total } := by
  have hown := h.own
  rw [hs] at hown
  refine h.of_stage (fun e he => ?_) fun t e r hget hr howns hcov => ?_
  · rcases List.mem_append.mp he with he | he
    · exact hown e he
    · cases hget : s.store.get tier with
      | none =>
        rw [KdbStore.readTier, hget] at hread
        rw [← Fallible.pure_inj hread] at he
        cases he
      | some eng =>
        obtain ⟨rows, rest, hspec⟩ := KdbStore.readTier_spec hget hread
        obtain ⟨r, hr, hadmits, hre⟩ := hspec.exists_row he
        have hw := h.rows r (KdbStore.sees_iff.mpr ⟨tier, eng, hget, hr⟩)
        exact ⟨r, hw, (hw.print_id hre).symm, (admits_user_iff hdoc c.user r).mp hadmits⟩
  · rw [hs] at hcov
    rcases hcov with hmem | hfull | hid
    · rcases List.mem_cons.mp hmem with rfl | hmem
      · obtain ⟨rows, rest, hspec⟩ := KdbStore.readTier_spec hget hread
        by_cases hshort : events.length < EraseCall.batch
        · obtain ⟨e', he', hre⟩ := hspec.exists_event rfl hshort hr
            ((admits_user_iff hdoc c.user r).mpr howns)
          have hw := h.rows r (KdbStore.sees_iff.mpr ⟨t, e, hget, hr⟩)
          refine .inr (.inr (List.mem_map.mpr ⟨e', ?_, hw.print_id hre⟩))
          exact List.mem_append_right _ he'
        · refine .inr (.inl ?_)
          rw [List.length_append]
          omega
      · exact .inl hmem
    · refine .inr (.inl ?_)
      rw [List.length_append]
      omega
    · refine .inr (.inr ?_)
      rw [List.map_append]
      exact List.mem_append_left _ hid

/-- All engines are read, and the newest thousand are kept. -/
theorem inv_page {s : Erasing db} (h : Inv c eventOf start s) {out : List LlmEvent} {total : Nat}
    (hs : s.stage = .reading [] out total) :
    Inv c eventOf start { s with
      stage := afterQuery c total
        (some (.ok ((out.insertionSort (Desc LlmEvent.tsNs)).take EraseCall.batch))) } := by
  have hperm := List.perm_insertionSort (Desc LlmEvent.tsNs) out
  generalize hsorted : out.insertionSort (Desc LlmEvent.tsNs) = sorted at hperm
  have hown := h.own
  rw [hs] at hown
  -- what the batch says about a row of the user
  have hpage : ∀ t r, Covers c t r s.stage →
      EraseCall.batch ≤ (sorted.take EraseCall.batch).length ∨
        r.id ∈ (sorted.take EraseCall.batch).map fun e => c.formats.ulid.print e.id := by
    intro t r hcov
    rw [hs] at hcov
    rw [List.length_take, hperm.length_eq]
    rcases hcov with hnone | hfull | hid
    · cases hnone
    · exact .inl (by omega)
    · by_cases hlen : out.length < EraseCall.batch
      · refine .inr ?_
        rw [List.take_of_length_le (by rw [hperm.length_eq]; omega)]
        exact (hperm.map _).mem_iff.mpr hid
      · exact .inl (by omega)
  by_cases hempty : sorted.take EraseCall.batch = []
  · rw [hempty]
    refine h.of_stage trivial fun t e r _ _ _ hcov => ?_
    have hcov := hpage t r hcov
    rw [hempty] at hcov
    rcases hcov with hfull | hid
    · exact absurd hfull (by decide)
    · cases hid
  · rw [afterQuery_of_ne hempty]
    refine h.of_stage (fun id hid => ?_) fun t e r _ _ _ hcov => ?_
    · obtain ⟨e, he, rfl⟩ := List.mem_map.mp hid
      exact hown e (hperm.mem_iff.mp (List.mem_of_mem_take he))
    · show EraseCall.batch ≤ _ ∨ _
      rw [List.length_map, List.map_map]
      exact hpage t r hcov

/-- One engine has deleted. -/
theorem inv_delete {s : Erasing db} (h : Inv c eventOf start s) {ids : List EventId}
    {tier : String} {tiers : List String} {total : Nat}
    (hs : s.stage = .deleting ids (tier :: tiers) total) {store : KdbStore db}
    (hdel : s.store.deleteFrom (ids.map c.formats.ulid.print) tier = (.ok (), store)) :
    Inv c eventOf start { store := store, stage := .deleting ids tiers total } := by
  have hstore : store = (s.store.deleteFrom (ids.map c.formats.ulid.print) tier).2 := by rw [hdel]
  have hown := h.own
  rw [hs] at hown
  refine ⟨fun r hr => ?_, hown, fun t e r hget hr hstart howns => ?_⟩
  · rw [hstore] at hr
    exact h.rows r (KdbStore.sees_of_deleteFrom hr)
  · have hget' := hget
    rw [hstore] at hget'
    obtain ⟨e₀, hget₀, hr₀⟩ := KdbStore.visible_of_deleteFrom hget' hr
    have hcov := h.covers t e₀ r hget₀ hr₀ hstart howns
    rw [hs] at hcov
    rcases hcov with hfull | ⟨hid, hmem⟩
    · exact .inl hfull
    · rcases List.mem_cons.mp hmem with rfl | hmem
      · exact absurd hid (KdbStore.id_notMem_of_deleteFrom hdel hget hr)
      · exact .inr ⟨hid, hmem⟩

theorem inv_advance (hdoc : db.FiltersAsDocumented) {s : Erasing db} (h : Inv c eventOf start s) :
    Inv c eventOf start (s.advance c) := by
  unfold advance
  have hown := h.own
  split
  · refine h.of_stage (fun e he => by cases he) fun t e r hget _ _ _ => ?_
    exact .inl (KdbStore.mem_tiers_of_get hget)
  · rename_i out total hs
    exact inv_page h hs
  · rename_i tier tiers out total hs
    split
    · rename_i events hread
      exact inv_read h hdoc hs hread
    · exact h.of_stage trivial fun _ _ _ _ _ _ _ => trivial
    · exact h.of_stage trivial fun _ _ _ _ _ _ _ => trivial
  · rename_i ids total hs
    rw [hs] at hown
    refine h.of_stage hown fun t e r hget _ _ hcov => ?_
    rw [hs] at hcov
    rcases hcov with hfull | hid
    · exact .inl hfull
    · refine .inr ⟨hid, ?_⟩
      have hne : ids.isEmpty = false := by
        cases ids with
        | nil => cases hid
        | cons id ids => rfl
      rw [KdbStore.deleteScope, hne]
      exact KdbStore.mem_tiers_of_get hget
  · rename_i ids total hs
    by_cases hshort : ids.length < EraseCall.batch
    · rw [afterDelete_short hshort]
      refine h.of_stage trivial fun t e r _ _ _ hcov => ?_
      rw [hs] at hcov
      rcases hcov with hfull | ⟨-, hnone⟩
      · omega
      · cases hnone
    · rw [afterDelete_full hshort]
      exact h.of_stage trivial fun _ _ _ _ _ _ _ => trivial
  · rename_i ids tier tiers total hs
    split
    · rename_i e store hdel
      have hstore : store = (s.store.deleteFrom (ids.map c.formats.ulid.print) tier).2 := by
        rw [hdel]
      refine ⟨fun r hr => ?_, trivial, fun _ _ _ _ _ _ _ => trivial⟩
      rw [hstore] at hr
      exact h.rows r (KdbStore.sees_of_deleteFrom hr)
    · rename_i store hdel
      exact inv_delete h hs hdel
  · exact h

/-- Every step keeps the invariant. -/
theorem inv_step (hdoc : db.FiltersAsDocumented) (s : Erasing db) (x : Input db)
    (h : Inv c eventOf start s) (hx : s.World c eventOf start x) :
    Inv c eventOf start (s.step c x) := by
  cases x with
  | world store => exact inv_world h hx
  | advance => exact inv_advance hdoc h

/-- The only step that changes the store is a deletion in one engine. -/
theorem store_advance (s : Erasing db) : (s.advance c).store = s.store ∨
    ∃ ids tier tiers total, s.stage = .deleting ids (tier :: tiers) total ∧
      (s.advance c).store = (s.store.deleteFrom (ids.map c.formats.ulid.print) tier).2 := by
  unfold advance
  split
  · exact .inl rfl
  · exact .inl rfl
  · split <;> exact .inl rfl
  · exact .inl rfl
  · exact .inl rfl
  · rename_i ids tier tiers total hs
    refine .inr ⟨ids, tier, tiers, total, hs, ?_⟩
    split <;> rename_i hdel <;> rw [hdel]
  · exact .inl rfl

/-- No step hides a row of anybody else. -/
theorem sees_step {s : Erasing db} {x : Input db} (h : Inv c eventOf start s)
    (hx : s.World c eventOf start x) {r : LogEvent} (hr : s.store.Sees r) (hother : ¬ c.Owns r) :
    (s.step c x).store.Sees r := by
  cases x with
  | world store =>
    obtain ⟨t, e, hget, hr⟩ := KdbStore.sees_iff.mp hr
    obtain ⟨e', hget', hkeeps⟩ := Grows.keeps hx t e hget
    exact KdbStore.sees_iff.mpr ⟨t, e', hget', hkeeps r hr⟩
  | advance =>
    show (s.advance c).store.Sees r
    rcases store_advance s with hsame | ⟨ids, tier, tiers, total, hs, hstore⟩
    · rwa [hsame]
    · rw [hstore]
      refine (KdbStore.sees_deleteFrom hr).resolve_right fun hid => hother ?_
      have hown := h.own
      rw [hs] at hown
      -- a row with a deleted id is the row the id was read from
      obtain ⟨id, hmem, hprint⟩ := List.mem_map.mp hid
      obtain ⟨r', hw', hid', howns⟩ := hown id hmem
      have heq := (h.rows r hr).eq_of_id hw' (hprint.symm.trans hid'.symm)
      rwa [heq]

/-- No run hides a row of anybody else. -/
theorem sees_run (hdoc : db.FiltersAsDocumented) {s : Erasing db} (h : Inv c eventOf start s)
    {xs : List (Input db)} (hxs : Allowed (step c) (World c eventOf start) s xs) {r : LogEvent}
    (hr : s.store.Sees r) (hother : ¬ c.Owns r) : (run (step c) s xs).store.Sees r := by
  have hstep : ∀ s x, Inv c eventOf start s ∧ s.store.Sees r → s.World c eventOf start x →
      Inv c eventOf start (s.step c x) ∧ (s.step c x).store.Sees r :=
    fun s x hs hx => ⟨inv_step hdoc s x hs.1 hx, sees_step hs.1 hx hs.2 hother⟩
  exact (run_invariant hstep ⟨h, hr⟩ hxs).2

/-! ## The steps are the source's functions -/

theorem run_done {s : Erasing db} {r : Except ServerError Nat} (hs : s.stage = .done r) (n : Nat) :
    run (step c) s (List.replicate n .advance) = s := by
  induction n with
  | zero => rfl
  | succ n ih =>
    have hstep : s.step c .advance = s := advance_done hs
    rw [List.replicate_succ, run_cons, hstep, ih]

theorem run_readTiers {tiers : List String} {total : Nat} :
    ∀ {s : Erasing db} {out : List LlmEvent}, s.stage = .reading tiers out total →
      run (step c) s (List.replicate (tiers.length + 1) .advance) = { s with
        stage := afterQuery c total (((s.store.readTiers c.formats (buildQueryFilter c.filter none)
          EraseCall.batch tiers).run).map (·.map fun more =>
            ((out ++ more).insertionSort (Desc LlmEvent.tsNs)).take EraseCall.batch)) } := by
  induction tiers with
  | nil =>
    intro s out hs
    have hstep : s.step c .advance = { s with
        stage := afterQuery c total
          (some (.ok ((out.insertionSort (Desc LlmEvent.tsNs)).take EraseCall.batch))) } :=
      advance_page hs
    rw [List.length_nil, List.replicate_one, run_cons, run_nil, hstep]
    simp [KdbStore.readTiers, ExceptT.run, pure, ExceptT.pure, ExceptT.mk, Except.map]
  | cons tier tiers ih =>
    intro s out hs
    rw [List.length_cons, List.replicate_succ, run_cons, KdbStore.readTiers]
    rcases hread : (s.store.readTier c.formats (buildQueryFilter c.filter none) EraseCall.batch
      tier).run with _ | e | events
    · have hstep : s.step c .advance = { s with stage := afterQuery c total none } := by
        unfold step advance
        rw [hs]
        simp only [hread]
      rw [hstep, run_done rfl]
      have hnone : s.store.readTier c.formats (buildQueryFilter c.filter none) EraseCall.batch tier
          = ExceptT.mk none := hread
      rw [hnone]
      rfl
    · have hstep : s.step c .advance = { s with stage := afterQuery c total (some (.error e)) } := by
        unfold step advance
        rw [hs]
        simp only [hread]
      rw [hstep, run_done rfl]
      have herr : s.store.readTier c.formats (buildQueryFilter c.filter none) EraseCall.batch tier
          = throw e := hread
      rw [herr]
      rfl
    · have hok : s.store.readTier c.formats (buildQueryFilter c.filter none) EraseCall.batch tier
          = pure events := hread
      have hstep : s.step c .advance
          = { s with stage := .reading tiers (out ++ events) total } := advance_read hs hok
      rw [hstep, ih rfl, hok, pure_bind]
      simp only [ExceptT.run_bind, ExceptT.run_pure]
      rcases (s.store.readTiers c.formats (buildQueryFilter c.filter none) EraseCall.batch
        tiers).run with _ | e | more
      · rfl
      · rfl
      · simp [Except.map, List.append_assoc]

/-- Listing the engines and reading each is `KdbStore::query`. -/
theorem run_query {s : Erasing db} {total : Nat} (hs : s.stage = .asking total) :
    run (step c) s (List.replicate (s.store.engines.length + 2) .advance) = { s with
      stage := afterQuery c total (s.store.query c.formats c.filter EraseCall.batch none).run } := by
  have hstep : s.step c .advance
      = { s with stage := .reading (s.store.engines.map Prod.fst) [] total } := advance_asking hs
  have hlen : s.store.engines.length = (s.store.engines.map Prod.fst).length := by
    rw [List.length_map]
  rw [List.replicate_succ, run_cons, hstep, hlen, run_readTiers rfl, KdbStore.readTiers_engines,
    KdbStore.query]
  simp only [ExceptT.run_bind, ExceptT.run_pure]
  rcases (KdbStore.collectRecent c.formats (buildQueryFilter c.filter none) EraseCall.batch
    s.store.engines).run with _ | e | out <;> rfl

theorem run_deleteTiers {ids : List EventId} {tiers : List String} {total : Nat} :
    ∀ {s : Erasing db}, s.stage = .deleting ids tiers total →
      let r := KdbStore.deleteTiers (ids.map c.formats.ulid.print) tiers s.store
      run (step c) s (List.replicate (tiers.length + 1) .advance)
        = { store := r.2, stage := afterDelete total (r.1.map fun _ => ids.length) ids } := by
  induction tiers with
  | nil =>
    intro s hs
    have hstep : s.step c .advance
        = { s with stage := afterDelete total (.ok ids.length) ids } := advance_end hs
    rw [List.length_nil, List.replicate_one, run_cons, run_nil, hstep]
    rfl
  | cons tier tiers ih =>
    intro s hs
    rw [KdbStore.deleteTiers, List.length_cons, List.replicate_succ, run_cons]
    rcases hd : s.store.deleteFrom (ids.map c.formats.ulid.print) tier with ⟨e | _, store⟩
    · have hstep : s.step c .advance
          = { store := store, stage := afterDelete total (.error e) ids } := by
        unfold step advance
        rw [hs]
        simp only [hd]
      rw [hstep, run_done rfl]
      rfl
    · have hstep : s.step c .advance = { store := store, stage := .deleting ids tiers total } :=
        advance_delete hs hd
      rw [hstep]
      exact ih rfl

/-- Listing the engines and deleting from each is `KdbStore::delete_events_by_ids`. -/
theorem run_deleteEventsByIds {s : Erasing db} {ids : List EventId} {total : Nat}
    (hs : s.stage = .listed ids total) :
    let r := s.store.deleteEventsByIds c.formats ids
    run (step c) s (List.replicate ((s.store.deleteScope ids).length + 2) .advance)
      = { store := r.2, stage := afterDelete total r.1 ids } := by
  have hstep : s.step c .advance
      = { s with stage := .deleting ids (s.store.deleteScope ids) total } := advance_scope hs
  rw [List.replicate_succ, run_cons, hstep]
  exact run_deleteTiers rfl

end Erasing

end Erasure

end Keplor.Server
