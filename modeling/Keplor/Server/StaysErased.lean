import Keplor.Server.InView
import Keplor.Server.Merge
import Keplor.Store.Deletion

/-!
# An erased event, and the archiver

A deletion leaves tombstones in the engines. A cycle of the archiver works on events it fetched from
the engines at its start, and nobody tells it of tombstones that came later: it uploads a deleted
event with the rest of its chunk and records a manifest, and from then on the event is back in every
answer that includes archived events.

The system is the one of `Viewing.lean` with any number of deletion calls next to the archiver and the
request. Two things are kept that the code does not keep, to say what is at stake: the ids the
engines have ever shown, and the ids in the objects that were put. An id that is out of the engines and
not in a chunk under way is out for good (`Quiet`): what the engines do not show, the next cycle does
not fetch.
-/

set_option autoImplicit false

namespace Keplor.Server

open Keplor.Lib Keplor.Core Keplor.Store

/-! ## The system -/

/-- The archiver with its store and bucket, the request under way, and the deletions. -/
structure Deleting (db : Keplordb) where
  viewing : Viewing db
  request : EventQuery
  calls : List DeleteRun
  /-- the ids of all rows that were visible at some time -/
  seen : List String
  /-- the ids of all events in objects that were put -/
  uploaded : List EventId

/-- The ids a store shows. -/
def shownIds {db : Keplordb} (store : KdbStore db) : List String :=
  store.engines.flatMap fun p => (db.visible p.2).map LogEvent.id

/-- The ids that a step of the archiver puts into the bucket. -/
def uploads {db : Keplordb} (stage : Store.Stage) (x : Archiving.Input db) : List EventId :=
  match stage, x with
  | .uploading u _ _, .put none => u.chunk.map LlmEvent.id
  | _, _ => []

namespace Deleting

variable {db : Keplordb}

/-- The store as it is. -/
def store (s : Deleting db) : KdbStore db := s.viewing.archiving.store

/-- Nothing but a store has happened yet. -/
def start (store : KdbStore db) : Deleting db where
  viewing := ⟨⟨store, ⟨[], []⟩, .idle, []⟩, .asking, 0⟩
  request := {}
  calls := []
  seen := shownIds store
  uploaded := []

/-- What happens next: a step of the archiver or of the rest of the world, a deletion that begins or
goes on, a request that begins or goes on. -/
inductive Input (db : Keplordb) where
  | archive (x : Archiving.Input db)
  | begin (call : DeleteCall)
  | turn (i : Nat)
  | ask (q : EventQuery)
  | look (error : Option StoreError)

/-- A step of the archiver or of the world. -/
def archive (a : Archiver) (s : Deleting db) (x : Archiving.Input db) : Deleting db :=
  let next := s.viewing.archiving.step a x
  { s with
    viewing := { s.viewing with archiving := next }
    seen := s.seen ++ shownIds next.store
    uploaded := s.uploaded ++ uploads s.viewing.archiving.stage x }

/-- One step of the system. -/
def step (pt : PointAccess db) (a : Archiver) (joinErrorText : String) (s : Deleting db) :
    Input db → Deleting db
  | .archive x => s.archive a x
  | .begin call => { s with calls := s.calls ++ [DeleteRun.begin call s.seen s.store] }
  | .turn i =>
    match s.calls[i]? with
    | none => s
    | some c =>
      let r := c.advance pt a.formats s.store
      { s.archive a (.world r.2) with calls := s.calls.set i { c with stage := r.1 } }
  | .ask q => { s with viewing := { s.viewing with view := .asking }, request := q }
  | .look error => { s with viewing := s.viewing.look ⟨a, s.request, joinErrorText⟩ error }

/-- A request and nothing else: the first steps of it. -/
def asks (q : EventQuery) (n : Nat) : List (Input db) := .ask q :: List.replicate n (.look none)

theorem viewing_run_looks (pt : PointAccess db) (a : Archiver) (joinErrorText : String) (n : Nat) :
    ∀ s : Deleting db, (run (step pt a joinErrorText) s (List.replicate n (.look none))).viewing =
      run (Viewing.step ⟨a, s.request, joinErrorText⟩) s.viewing (Viewing.looks n) := by
  induction n with
  | zero => exact fun s => rfl
  | succ n ih =>
    intro s
    rw [List.replicate_succ, run_cons, ih]
    rfl

/-- Done without a pause, a request is `query_events`. -/
theorem run_asks (pt : PointAccess db) (a : Archiver) (joinErrorText : String) (s : Deleting db)
    {q : EventQuery} (hinclude : q.includeArchived = true) :
    ∃ n, (run (step pt a joinErrorText) s (asks q n)).viewing.view =
      .done ((queryEvents a.formats joinErrorText (some a) s.store s.viewing.archiving.bucket q).map
        EventListResponse.events) := by
  have hask : (s.step pt a joinErrorText (.ask q)).viewing.view = .asking := rfl
  obtain ⟨n, hn⟩ := Viewing.run_looks (c := ⟨a, q, joinErrorText⟩) hask hinclude
  refine ⟨n, ?_⟩
  rw [asks, run_cons, viewing_run_looks]
  exact hn

end Deleting

/-! ## Tiers -/

/-- Rows with one id are in one tier. -/
def OneTier {db : Keplordb} (store : KdbStore db) : Prop :=
  ∀ t t' r r', InTier store t r → InTier store t' r' → r.id = r'.id → t = t'

/-- The second store shows nothing in a tier that the first did not show there. -/
def Shrinks {db : Keplordb} (store store' : KdbStore db) : Prop :=
  ∀ t r, InTier store' t r → InTier store t r

section Tiers

variable {db : Keplordb} {store store' : KdbStore db} {pt : PointAccess db} {tf : TextFormats}

theorem sees_iff_inTier {r : LogEvent} : store.Sees r ↔ ∃ t, InTier store t r := KdbStore.sees_iff

theorem Shrinks.refl (store : KdbStore db) : Shrinks store store := fun _ _ h => h

theorem Shrinks.sees (h : Shrinks store store') {r : LogEvent} (hr : store'.Sees r) : store.Sees r := by
  obtain ⟨t, ht⟩ := sees_iff_inTier.mp hr
  exact sees_iff_inTier.mpr ⟨t, h t r ht⟩

theorem OneTier.shrink (h : OneTier store) (hs : Shrinks store store') : OneTier store' :=
  fun t t' r r' hr hr' hid => h t t' r r' (hs t r hr) (hs t' r' hr') hid

theorem mem_shownIds {r : LogEvent} (hr : store.Sees r) : r.id ∈ shownIds store := by
  obtain ⟨p, hp, hr⟩ := hr
  exact List.mem_flatMap.mpr ⟨p, hp, List.mem_map_of_mem hr⟩

theorem shrinks_deleteFrom (store : KdbStore db) (ids : List String) (tier : String) :
    Shrinks store (store.deleteFrom ids tier).2 :=
  fun _ _ ⟨_, hget, hr⟩ => KdbStore.visible_of_deleteFrom hget hr

theorem shrinks_deleteIn (store : KdbStore db) (pt : PointAccess db) (id tier : String) :
    Shrinks store (store.deleteIn pt id tier).2 :=
  fun _ _ ⟨_, hget, hr⟩ => KdbStore.visible_of_deleteIn hget hr

/-- A deletion call only ever takes rows away. -/
theorem shrinks_advance (c : DeleteRun) : Shrinks store (c.advance pt tf store).2 := by
  unfold DeleteRun.advance
  split
  · exact Shrinks.refl store
  · split <;> exact Shrinks.refl store
  · rename_i id tier tiers _ _
    have hs := shrinks_deleteIn store pt (tf.ulid.print id) tier
    split <;> rename_i hdel <;> rw [hdel] at hs <;> exact hs
  · exact Shrinks.refl store
  · rename_i ids tier tiers existed _ _
    have hs := shrinks_deleteFrom store (ids.map tf.ulid.print) tier
    split <;> rename_i hdel <;> rw [hdel] at hs <;> exact hs
  · exact Shrinks.refl store

end Tiers

/-! ## What a deletion has achieved -/

section Calls

variable {db : Keplordb} (tf : TextFormats)

/-- The id was visible at some time, and now it is in the given tiers at most. -/
def Confined (store : KdbStore db) (seen tiers : List String) (id : EventId) : Prop :=
  tf.ulid.print id ∈ seen ∧ ∀ t r, InTier store t r → r.id = tf.ulid.print id → t ∈ tiers

/-- How far a call has got with its ids: they can be in the tiers it has not been to, and for
`delete_event`, which may not know the id, in the tier where it found it. -/
def CallOk (store : KdbStore db) (seen : List String) (c : DeleteRun) : Prop :=
  match c.call, c.stage with
  | .event id, .turns _ existed => existed = true → Confined tf store seen [] id
  | .event id, .found tier _ => Confined tf store seen [tier] id
  | .event id, .done r => r = .ok (.existed true) → Confined tf store seen [] id
  | .byIds ids, .turns tiers _ =>
      ∀ id ∈ ids, tf.ulid.print id ∈ c.shown → Confined tf store seen tiers id
  | .byIds ids, .done r =>
      ∀ n, r = .ok (.count n) → ∀ id ∈ ids, tf.ulid.print id ∈ c.shown → Confined tf store seen [] id
  | .byIds _, .found _ _ => True

/-- The call has returned and has deleted the event: `delete_event` found it, or it is one of the ids
of `delete_events_by_ids` that the store had shown. -/
def Deleted (c : DeleteRun) (id : EventId) : Prop :=
  match c.call, c.stage with
  | .event id', .done (.ok (.existed true)) => id' = id
  | .byIds ids, .done (.ok (.count _)) => id ∈ ids ∧ tf.ulid.print id ∈ c.shown
  | _, _ => False

variable {tf} {store store' : KdbStore db} {seen seen' tiers : List String} {id : EventId}
  {c : DeleteRun}

/-- A deleted event is nowhere. -/
theorem confined_of_deleted (h : CallOk tf store seen c) (hd : Deleted tf c id) :
    Confined tf store seen [] id := by
  obtain ⟨call, shown, stage⟩ := c
  unfold CallOk at h
  unfold Deleted at hd
  cases call with
  | event id' =>
    rcases stage with _ | _ | e | (_ | _) | n
    · exact hd.elim
    · exact hd.elim
    · exact hd.elim
    · exact hd.elim
    · subst hd
      exact h rfl
    · exact hd.elim
  | byIds ids =>
    rcases stage with _ | _ | e | b | n
    · exact hd.elim
    · exact hd.elim
    · exact hd.elim
    · exact hd.elim
    · exact h n rfl id hd.1 hd.2

/-- What comes back to a tier has an id that was never seen. -/
theorem Confined.mono (h : Confined tf store seen tiers id) (hseen : seen ⊆ seen')
    (hback : ∀ t r, InTier store' t r → InTier store t r ∨ r.id ∉ seen) :
    Confined tf store' seen' tiers id := by
  refine ⟨hseen h.1, fun t r hr hid => ?_⟩
  rcases hback t r hr with hr | hnew
  · exact h.2 t r hr hid
  · exact absurd (hid ▸ h.1) hnew

theorem CallOk.mono (h : CallOk tf store seen c) (hseen : seen ⊆ seen')
    (hback : ∀ t r, InTier store' t r → InTier store t r ∨ r.id ∉ seen) :
    CallOk tf store' seen' c := by
  obtain ⟨call, shown, stage⟩ := c
  unfold CallOk at h ⊢
  cases call with
  | event id =>
    cases stage with
    | turns tiers existed => exact fun he => (h he).mono hseen hback
    | found tier tiers => exact h.mono hseen hback
    | done r => exact fun hr => (h hr).mono hseen hback
  | byIds ids =>
    cases stage with
    | turns tiers existed => exact fun id hid hshown => (h id hid hshown).mono hseen hback
    | found tier tiers => trivial
    | done r => exact fun n hr id hid hshown => (h n hr id hid hshown).mono hseen hback

/-- Where the id has been deleted from its tier, there is one tier less to think of. -/
theorem Confined.deleted {tier : String} (h : Confined tf store seen (tier :: tiers) id)
    (hs : Shrinks store store')
    (hgone : ∀ r, InTier store' tier r → r.id ≠ tf.ulid.print id) :
    Confined tf store' seen tiers id := by
  refine ⟨h.1, fun t r hr hid => ?_⟩
  rcases List.mem_cons.mp (h.2 t r (hs t r hr) hid) with rfl | ht
  · exact absurd hid (hgone r hr)
  · exact ht

theorem callOk_begin (call : DeleteCall) : CallOk tf store seen (DeleteRun.begin call seen store) := by
  cases call with
  | event id => exact fun h => absurd h Bool.false_ne_true
  | byIds ids =>
    intro id hid hshown
    refine ⟨hshown, fun t r hr _ => ?_⟩
    obtain ⟨e, hget, -⟩ := hr
    have hne : ids.isEmpty = false := by
      rw [List.isEmpty_eq_false_iff]
      exact List.ne_nil_of_mem hid
    rw [KdbStore.deleteScope, hne]
    exact KdbStore.mem_tiers_of_get hget

/-- A call that goes on keeps what it has achieved. -/
theorem callOk_advance (pt : PointAccess db) (hone : OneTier store)
    (hshown : ∀ r, store.Sees r → r.id ∈ seen) (h : CallOk tf store seen c) :
    CallOk tf (c.advance pt tf store).2 seen { c with stage := (c.advance pt tf store).1 } := by
  obtain ⟨call, shown, stage⟩ := c
  unfold DeleteRun.advance
  cases call with
  | event id =>
    rcases stage with ⟨_ | ⟨tier, tiers⟩, existed⟩ | ⟨tier, tiers⟩ | r
    · intro hr
      cases hr
      exact h rfl
    · dsimp only
      split
      · exact fun hr => by cases hr
      · exact h
      · rename_i r hlook
        -- found in this tier, the event is in no other: the call need not look further
        obtain ⟨e, hget, hr, hid⟩ := KdbStore.visible_of_lookIn hlook
        have hin : InTier store tier r := ⟨e, hget, hr⟩
        refine ⟨hid ▸ hshown r (sees_iff_inTier.mpr ⟨tier, hin⟩), fun t r' hr' hid' => ?_⟩
        rw [List.mem_singleton]
        exact hone t tier r' r hr' hin (hid'.trans hid.symm)
    · dsimp only
      have hs := shrinks_deleteIn store pt (tf.ulid.print id) tier
      split
      · exact fun hr => by cases hr
      · rename_i store' hdel
        rw [hdel] at hs
        refine fun _ => Confined.deleted h hs fun r hr => ?_
        obtain ⟨e, hget, hr⟩ := hr
        exact KdbStore.id_ne_of_deleteIn hdel hget hr
    · exact h
  | byIds ids =>
    rcases stage with ⟨_ | ⟨tier, tiers⟩, existed⟩ | ⟨tier, tiers⟩ | r
    · exact fun n _ => h
    · dsimp only
      have hs := shrinks_deleteFrom store (ids.map tf.ulid.print) tier
      split
      · exact fun n hr => by cases hr
      · rename_i store' hdel
        rw [hdel] at hs
        intro id hid hshown
        refine Confined.deleted (h id hid hshown) hs fun r hr heq => ?_
        obtain ⟨e, hget, hr⟩ := hr
        refine KdbStore.id_notMem_of_deleteFrom hdel hget hr ?_
        rw [heq]
        exact List.mem_map_of_mem hid
    · trivial
    · exact h

end Calls

namespace Deleting

/-! ## The invariant -/

section Invariant

variable {db : Keplordb} (pt : PointAccess db) (a : Archiver) (joinErrorText : String)
  (eventOf : EventId → LlmEvent)

/-- What comes from outside: archive ids are new, rows are of events, an id is in one tier, and an id
that was visible once is not written again. -/
def World (s : Deleting db) : Input db → Prop
  | .archive x => s.viewing.archiving.Sound a eventOf x ∧ ∀ store, x = .world store →
      OneTier store ∧ ∀ t r, InTier store t r → InTier s.store t r ∨ r.id ∉ s.seen
  | _ => True

/-- All files that can be found, and the one that is about to be, hold uploaded events. -/
structure Inv (s : Deleting db) : Prop where
  archiving : Archiving.Inv a eventOf s.viewing.archiving
  shown : ∀ r, s.store.Sees r → r.id ∈ s.seen
  oneTier : OneTier s.store
  recorded : ∀ m ∈ s.viewing.archiving.bucket.manifests, ∃ chunk,
    RecordedAs a eventOf s.viewing.archiving.bucket m chunk ∧ ∀ e ∈ chunk, e.id ∈ s.uploaded
  recording : ∀ u todo acc, s.viewing.archiving.stage = .recording u todo acc →
    ∀ e ∈ u.chunk, e.id ∈ s.uploaded
  calls : ∀ c ∈ s.calls, CallOk a.formats s.store s.seen c

variable {pt a joinErrorText eventOf} {s : Deleting db} {x : Archiving.Input db}

/-- What a step of the archiver or the world brings back to a tier was never seen. -/
theorem back_of_archive
    (hworld : ∀ store, x = .world store →
      ∀ t r, InTier store t r → InTier s.store t r ∨ r.id ∉ s.seen) :
    ∀ t r, InTier (s.archive a x).store t r → InTier s.store t r ∨ r.id ∉ s.seen := by
  intro t r hr
  obtain ⟨e, hget, hr⟩ := hr
  rcases Archiving.visible_of_step hget hr with hkept | ⟨store, hx, hget'⟩
  · exact .inl hkept
  · exact hworld store hx t r ⟨e, hget', hr⟩

theorem inv_archive (h : Inv a eventOf s) (hsound : s.viewing.archiving.Sound a eventOf x)
    (hone : ∀ store, x = .world store → OneTier store)
    (hworld : ∀ store, x = .world store →
      ∀ t r, InTier store t r → InTier s.store t r ∨ r.id ∉ s.seen) :
    Inv a eventOf (s.archive a x) where
  archiving := Archiving.inv_of_sound h.archiving hsound
  shown r hr := List.mem_append_right _ (mem_shownIds hr)
  oneTier := by
    by_cases hx : ∃ store, x = .world store
    · obtain ⟨store, rfl⟩ := hx
      exact hone store rfl
    · refine h.oneTier.shrink fun t r hr => ?_
      obtain ⟨e, hget, hr⟩ := hr
      rcases Archiving.visible_of_step hget hr with hkept | ⟨store, hx', -⟩
      · exact hkept
      · exact absurd ⟨store, hx'⟩ hx
  recorded m hm := by
    rcases manifest_of_step hm with hm | ⟨u, todo, acc, createdAt, hs, rfl⟩
    · obtain ⟨chunk, hchunk, hup⟩ := h.recorded m hm
      exact ⟨chunk, recordedAs_step h.archiving hchunk, fun e he => List.mem_append_left _ (hup e he)⟩
    · have hstage := h.archiving.stage
      rw [hs] at hstage
      refine ⟨u.chunk, recordedAs_step h.archiving (recordedAs_upload hstage.1.1 hstage.1.2 createdAt),
        fun e he => ?_⟩
      exact List.mem_append_left _ (h.recording u todo acc hs e he)
  recording u todo acc hs e he := by
    rcases Archiving.recording_of_step hs with hs' | ⟨hs', rfl⟩
    · exact List.mem_append_left _ (h.recording u todo acc hs' e he)
    · apply List.mem_append_right
      rw [hs']
      exact List.mem_map_of_mem he
  calls c hc := (h.calls c hc).mono (List.subset_append_left _ _) (back_of_archive hworld)

theorem step_turn_none {i : Nat} (hc : s.calls[i]? = none) : s.step pt a joinErrorText (.turn i) = s := by
  simp only [step, hc]

theorem step_turn {i : Nat} {c : DeleteRun} (hc : s.calls[i]? = some c) :
    s.step pt a joinErrorText (.turn i) =
      { s.archive a (.world (c.advance pt a.formats s.store).2) with
        calls := s.calls.set i { c with stage := (c.advance pt a.formats s.store).1 } } := by
  simp only [step, hc]

theorem inv_turn (h : Inv a eventOf s) (i : Nat) :
    Inv a eventOf (s.step pt a joinErrorText (.turn i)) := by
  cases hc : s.calls[i]? with
  | none =>
    rw [step_turn_none hc]
    exact h
  | some c =>
    have hs : Shrinks s.store (c.advance pt a.formats s.store).2 := shrinks_advance c
    have hinv : Inv a eventOf (s.archive a (.world (c.advance pt a.formats s.store).2)) := by
      refine inv_archive h (fun r hr => h.archiving.rows r (hs.sees hr)) (fun store hx => ?_)
        fun store hx t r hr => ?_
      · cases hx
        exact h.oneTier.shrink hs
      · cases hx
        exact .inl (hs t r hr)
    rw [step_turn hc]
    refine ⟨hinv.archiving, hinv.shown, hinv.oneTier, hinv.recorded, hinv.recording, fun c' hc' => ?_⟩
    rcases List.mem_or_eq_of_mem_set hc' with hc' | rfl
    · exact hinv.calls c' hc'
    · have hok := callOk_advance pt h.oneTier h.shown (h.calls c (List.mem_of_getElem? hc))
      exact hok.mono (List.subset_append_left _ _) fun t r hr => .inl hr

theorem inv_step (h : Inv a eventOf s) (x : Input db) (hx : s.World a eventOf x) :
    Inv a eventOf (s.step pt a joinErrorText x) := by
  cases x with
  | archive x =>
    exact inv_archive h hx.1 (fun store hs => (hx.2 store hs).1) fun store hs => (hx.2 store hs).2
  | begin call =>
    refine ⟨h.archiving, h.shown, h.oneTier, h.recorded, h.recording, fun c hc => ?_⟩
    rcases List.mem_append.mp hc with hc | hc
    · exact h.calls c hc
    · rw [List.mem_singleton.mp hc]
      exact callOk_begin call
  | turn i => exact inv_turn h i
  | ask q => exact ⟨h.archiving, h.shown, h.oneTier, h.recorded, h.recording, h.calls⟩
  | look error =>
    have hsame : (s.viewing.look ⟨a, s.request, joinErrorText⟩ error).archiving = s.viewing.archiving :=
      Viewing.archiving_look
    refine ⟨?_, ?_, ?_, ?_, ?_, ?_⟩ <;> simp only [step, store, hsame]
    · exact h.archiving
    · exact h.shown
    · exact h.oneTier
    · exact h.recorded
    · exact h.recording
    · exact h.calls

theorem inv_start {store : KdbStore db} (hrows : ∀ r, store.Sees r → Written a eventOf r)
    (hone : OneTier store) : Inv a eventOf (start store) where
  archiving := ⟨hrows, trivial⟩
  shown _ hr := mem_shownIds hr
  oneTier := hone
  recorded _ hm := (List.not_mem_nil hm).elim
  recording _ _ _ hs := by cases hs
  calls _ hc := (List.not_mem_nil hc).elim

end Invariant

/-! ## Out for good -/

section Quiet

variable {db : Keplordb} (pt : PointAccess db) (a : Archiver) (joinErrorText : String)
  (eventOf : EventId → LlmEvent) (id : EventId)

/-- The cycle under way has the event in a chunk that is not put yet. -/
def Held (s : Deleting db) : Prop := ∃ e, s.viewing.archiving.stage.Holds e ∧ e.id = id

/-- The event is nowhere: not in an engine, not in a chunk under way, not in an object. -/
structure Quiet (s : Deleting db) : Prop where
  gone : Confined a.formats s.store s.seen [] id
  free : ¬ s.Held id
  absent : id ∉ s.uploaded

/-- The request has not come across the event. -/
def Clean (b : Bucket) : ViewStage → Prop
  | .asking => True
  | .reading _ out => ∀ e ∈ out, e.id ≠ id
  | .listing page => ∀ x ∈ page, x.id ≠ a.formats.ulid.print id
  | .fetching left fetched page =>
      left ⊆ b.manifests ∧ (∀ e ∈ fetchedEvents fetched, e.id ≠ id) ∧
        ∀ x ∈ page, x.id ≠ a.formats.ulid.print id
  | .done r => ∀ xs, r = .ok xs → ∀ x ∈ xs, x.id ≠ a.formats.ulid.print id

variable {pt a joinErrorText eventOf id} {s : Deleting db} {x : Archiving.Input db}

theorem Quiet.not_sees (h : Quiet a id s) {r : LogEvent} (hr : s.store.Sees r) :
    r.id ≠ a.formats.ulid.print id := by
  intro hid
  obtain ⟨t, ht⟩ := sees_iff_inTier.mp hr
  cases h.gone.2 t r ht hid

/-- An event that is read from a visible row is another one. -/
theorem Quiet.id_ne (h : Quiet a id s) (hinv : Inv a eventOf s) {r : LogEvent} {e : LlmEvent}
    (hr : s.store.Sees r) (hread : fromEventRef a.formats r = pure e) : e.id ≠ id := by
  rintro rfl
  exact h.not_sees hr (WrittenRow.print_id (hinv.archiving.rows r hr) hread).symm

/-- What is put was held. -/
theorem holds_of_mem_uploads {stage : Store.Stage} (h : id ∈ uploads stage x) :
    ∃ e, stage.Holds e ∧ e.id = id := by
  unfold uploads at h
  split at h
  · obtain ⟨e, he, hid⟩ := List.mem_map.mp h
    exact ⟨e, .inl he, hid⟩
  · cases h

theorem quiet_archive (h : Quiet a id s) (hinv : Inv a eventOf s)
    (hworld : ∀ store, x = .world store →
      ∀ t r, InTier store t r → InTier s.store t r ∨ r.id ∉ s.seen) : Quiet a id (s.archive a x) where
  gone := h.gone.mono (List.subset_append_left _ _) (back_of_archive hworld)
  free := by
    rintro ⟨e, he, hid⟩
    -- the snapshot of a new cycle is taken from the engines, which do not show the event
    rcases Archiving.holds_of_step he with he | ⟨r, hr, hread⟩
    · exact h.free ⟨e, he, hid⟩
    · exact h.id_ne hinv hr hread hid
  absent := by
    intro hmem
    rcases List.mem_append.mp hmem with hmem | hmem
    · exact h.absent hmem
    · exact h.free (holds_of_mem_uploads hmem)

theorem quiet_step (h : Quiet a id s) (hinv : Inv a eventOf s) (x : Input db)
    (hx : s.World a eventOf x) : Quiet a id (s.step pt a joinErrorText x) := by
  cases x with
  | archive x => exact quiet_archive h hinv fun store hs => (hx.2 store hs).2
  | begin call => exact ⟨h.gone, h.free, h.absent⟩
  | turn i =>
    cases hc : s.calls[i]? with
    | none =>
      rw [step_turn_none hc]
      exact h
    | some c =>
      rw [step_turn hc]
      have hquiet : Quiet a id (s.archive a (.world (c.advance pt a.formats s.store).2)) := by
        refine quiet_archive h hinv fun store hx t r hr => ?_
        cases hx
        exact .inl (shrinks_advance c t r hr)
      exact ⟨hquiet.gone, hquiet.free, hquiet.absent⟩
  | ask q => exact ⟨h.gone, h.free, h.absent⟩
  | look error =>
    have hsame : (s.viewing.look ⟨a, s.request, joinErrorText⟩ error).archiving = s.viewing.archiving :=
      Viewing.archiving_look
    refine ⟨?_, ?_, ?_⟩ <;> simp only [step, store, Held, hsame]
    · exact h.gone
    · exact h.free
    · exact h.absent

/-! ## What the request gets to see -/

/-- No file that can be found has the event. -/
theorem Quiet.fetchOne_ne (h : Quiet a id s) (hinv : Inv a eventOf s) {m : ArchiveManifest}
    (hm : m ∈ s.viewing.archiving.bucket.manifests) {events : List LlmEvent}
    (hfetch : fetchOne a s.viewing.archiving.bucket m = .ok events) : ∀ e ∈ events, e.id ≠ id := by
  rintro e he rfl
  obtain ⟨chunk, hchunk, hup⟩ := hinv.recorded m hm
  obtain ⟨e', he', metadata, rfl⟩ := hchunk.exists_mem hfetch he
  exact h.absent (hup e' he')

theorem Quiet.fetch_ne (h : Quiet a id s) (hinv : Inv a eventOf s) {m : ArchiveManifest}
    (hm : m ∈ s.viewing.archiving.bucket.manifests) {q : EventQuery} {error : Option StoreError} :
    ∀ e ∈ fetchedEvents [Viewing.fetch ⟨a, q, joinErrorText⟩ s.viewing.archiving.bucket error m],
      e.id ≠ id := by
  intro e he
  rw [fetchedEvents, List.flatMap_singleton] at he
  cases hfetch : Viewing.fetch ⟨a, q, joinErrorText⟩ s.viewing.archiving.bucket error m with
  | error m =>
    rw [hfetch] at he
    cases he
  | ok events =>
    rw [hfetch] at he
    cases error with
    | some m => cases hfetch
    | none => exact h.fetchOne_ne hinv hm hfetch e he

/-- Nor has what an engine returns. -/
theorem Quiet.readTier_ne (h : Quiet a id s) (hinv : Inv a eventOf s) {qf : QueryFilter} {limit : Nat}
    {tier : String} {events : List LlmEvent}
    (hread : s.store.readTier a.formats qf limit tier = pure events) : ∀ e ∈ events, e.id ≠ id := by
  intro e he
  cases hget : s.store.get tier with
  | none =>
    rw [KdbStore.readTier, hget] at hread
    rw [← Fallible.pure_inj hread] at he
    cases he
  | some eng =>
    obtain ⟨rows, rest, hspec⟩ := KdbStore.readTier_spec hget hread
    obtain ⟨r, hr, -, hre⟩ := hspec.exists_row he
    exact h.id_ne hinv (KdbStore.sees_iff.mpr ⟨tier, eng, hget, hr⟩) hre

theorem print_ne {e : LlmEvent} (h : e.id ≠ id) :
    a.formats.ulid.print e.id ≠ a.formats.ulid.print id :=
  fun heq => h (print_injective heq)

theorem mem_of_mem_pageOf {c : ViewCall} {out : List LlmEvent} {y : EventResponse}
    (hy : y ∈ Viewing.pageOf c out) : ∃ e ∈ out, y.id = c.archiver.formats.ulid.print e.id := by
  rw [Viewing.pageOf, livePage] at hy
  obtain ⟨summary, hsummary, rfl⟩ := List.mem_map.mp hy
  obtain ⟨e, he, rfl⟩ := List.mem_map.mp (List.mem_of_mem_take hsummary)
  refine ⟨e, ?_, rfl⟩
  rw [← List.mem_insertionSort (Desc LlmEvent.tsNs)]
  exact List.mem_of_mem_take he

theorem mem_of_mem_merged {c : ViewCall} {page : List EventResponse}
    {fetched : List (Except StoreError (List LlmEvent))} {y : EventResponse}
    (hy : y ∈ Viewing.merged c page fetched) :
    y ∈ page ∨ ∃ e ∈ fetchedEvents fetched, y.id = c.archiver.formats.ulid.print e.id := by
  rw [Viewing.merged, mergeFetched] at hy
  have hmem := List.mem_of_mem_take hy
  rw [List.mem_insertionSort] at hmem
  rcases List.mem_append.mp hmem with hmem | hmem
  · exact .inl hmem
  · obtain ⟨e, he, rfl⟩ := List.mem_map.mp hmem
    exact .inr ⟨e, List.mem_of_mem_filter he, rfl⟩

/-- What a tier is read into stays clean. -/
theorem clean_read (h : Quiet a id s) (hinv : Inv a eventOf s) {c : ViewCall} {tier : String}
    {tiers : List String} {out : List LlmEvent} (hout : ∀ e ∈ out, e.id ≠ id) (b : Bucket)
    {filter : QueryFilter} {limit : Nat} :
    Clean a id b (Viewing.ofQuery c
      (s.viewing.archiving.store.readTier a.formats filter limit tier).run
      fun events => .reading tiers (out ++ events)) := by
  rcases hread : (s.viewing.archiving.store.readTier a.formats filter limit tier).run
    with _ | m | events
  · exact fun xs hxs => by cases hxs
  · exact fun xs hxs => by cases hxs
  · intro e he
    rcases List.mem_append.mp he with he | he
    · exact hout e he
    · exact h.readTier_ne hinv hread e he

theorem clean_look (h : Quiet a id s) (hinv : Inv a eventOf s)
    (hclean : Clean a id s.viewing.archiving.bucket s.viewing.view) (error : Option StoreError) :
    Clean a id s.viewing.archiving.bucket
      (s.viewing.look ⟨a, s.request, joinErrorText⟩ error).view := by
  cases hs : s.viewing.view with
  | asking =>
    rw [Viewing.look_asking hs]
    exact fun e he => by cases he
  | reading tiers out =>
    rw [hs] at hclean
    cases tiers with
    | nil =>
      rw [Viewing.look_page hs]
      intro y hy
      obtain ⟨e, he, hid⟩ := mem_of_mem_pageOf hy
      rw [hid]
      exact print_ne (hclean e he)
    | cons tier tiers =>
      rw [Viewing.look_read hs]
      exact clean_read h hinv hclean _
  | listing page =>
    rw [hs] at hclean
    -- whether the listing failed or found nothing, the page goes out as it is
    have hdone : Clean a id s.viewing.archiving.bucket (.done (.ok page)) := by
      rintro xs ⟨⟩
      exact hclean
    cases error with
    | some e =>
      rw [Viewing.look_failed hs]
      exact hdone
    | none =>
      by_cases hnil : Viewing.manifestsOf ⟨a, s.request, joinErrorText⟩ s.viewing.archiving.bucket = []
      · rw [Viewing.look_none hs hnil]
        exact hdone
      · rw [Viewing.look_listed hs hnil]
        refine ⟨fun m hm => (mem_of_mem_listArchives hm).1, ?_, hclean⟩
        intro e he
        cases he
  | fetching left fetched page =>
    rw [hs] at hclean
    obtain ⟨hleft, hfetched, hpage⟩ := hclean
    cases left with
    | nil =>
      rw [Viewing.look_merge hs]
      rintro xs ⟨⟩ y hy
      rcases mem_of_mem_merged hy with hy | ⟨e, he, hid⟩
      · exact hpage y hy
      · rw [hid]
        exact print_ne (hfetched e he)
    | cons m left =>
      rw [Viewing.look_fetch hs]
      refine ⟨fun m' hm' => hleft (List.mem_cons_of_mem _ hm'), fun e he => ?_, hpage⟩
      rw [Viewing.fetchedEvents_append] at he
      rcases List.mem_append.mp he with he | he
      · exact hfetched e he
      · exact h.fetch_ne hinv (hleft List.mem_cons_self) e he
  | done r =>
    rw [hs] at hclean
    rw [Viewing.look_done hs, hs]
    exact hclean

/-- Manifests that were listed stay recorded. -/
theorem Clean.mono {b b' : Bucket} (hm : b.manifests ⊆ b'.manifests) {view : ViewStage}
    (h : Clean a id b view) : Clean a id b' view := by
  cases view with
  | asking => trivial
  | reading tiers out => exact h
  | listing page => exact h
  | fetching left fetched page => exact ⟨fun m hleft => hm (h.1 hleft), h.2⟩
  | done r => exact h

theorem clean_step (h : Quiet a id s) (hinv : Inv a eventOf s)
    (hclean : Clean a id s.viewing.archiving.bucket s.viewing.view) (x : Input db) :
    Clean a id (s.step pt a joinErrorText x).viewing.archiving.bucket
      (s.step pt a joinErrorText x).viewing.view := by
  cases x with
  | archive x => exact hclean.mono Archiving.manifests_step
  | begin call => exact hclean
  | turn i =>
    cases hc : s.calls[i]? with
    | none =>
      rw [step_turn_none hc]
      exact hclean
    | some c =>
      rw [step_turn hc]
      exact hclean
  | ask q => trivial
  | look error =>
    simp only [step, Viewing.archiving_look]
    exact clean_look h hinv hclean error

/-- From the state after a deletion on, whatever happens. -/
theorem quiet_run (h : Quiet a id s) (hinv : Inv a eventOf s) {ys : List (Input db)}
    (hys : Allowed (step pt a joinErrorText) (World a eventOf) s ys) :
    Quiet a id (run (step pt a joinErrorText) s ys) ∧
      Inv a eventOf (run (step pt a joinErrorText) s ys) := by
  have hstep : ∀ (s : Deleting db) x, Quiet a id s ∧ Inv a eventOf s → s.World a eventOf x →
      Quiet a id (s.step pt a joinErrorText x) ∧ Inv a eventOf (s.step pt a joinErrorText x) :=
    fun s x h hx => ⟨quiet_step h.1 h.2 x hx, inv_step h.2 x hx⟩
  exact run_invariant hstep ⟨h, hinv⟩ hys

/-- And for a request that is made then. -/
theorem clean_run (h : Quiet a id s) (hinv : Inv a eventOf s)
    (hclean : Clean a id s.viewing.archiving.bucket s.viewing.view) {ys : List (Input db)}
    (hys : Allowed (step pt a joinErrorText) (World a eventOf) s ys) :
    Clean a id (run (step pt a joinErrorText) s ys).viewing.archiving.bucket
      (run (step pt a joinErrorText) s ys).viewing.view := by
  have hstep : ∀ (s : Deleting db) x, (Quiet a id s ∧ Inv a eventOf s) ∧
      Clean a id s.viewing.archiving.bucket s.viewing.view → s.World a eventOf x →
      (Quiet a id (s.step pt a joinErrorText x) ∧ Inv a eventOf (s.step pt a joinErrorText x)) ∧
        Clean a id (s.step pt a joinErrorText x).viewing.archiving.bucket
          (s.step pt a joinErrorText x).viewing.view :=
    fun s x h hx => ⟨⟨quiet_step h.1.1 h.1.2 x hx, inv_step h.1.2 x hx⟩, clean_step h.1.1 h.1.2 h.2 x⟩
  exact (run_invariant hstep ⟨⟨h, hinv⟩, hclean⟩ hys).2

theorem Quiet.query_ne (h : Quiet a id s) (hinv : Inv a eventOf s) {f : EventFilter} {limit : Nat}
    {cursor : Option Int64} {events : List LlmEvent}
    (hquery : s.store.query a.formats f limit cursor = pure events) : ∀ e ∈ events, e.id ≠ id := by
  intro e he
  rw [KdbStore.query] at hquery
  obtain ⟨out, hout, hquery⟩ := Fallible.bind_eq_pure hquery
  rw [← Fallible.pure_inj hquery] at he
  have hmem := List.mem_of_mem_take he
  rw [List.mem_insertionSort] at hmem
  obtain ⟨p, hp, r, hr, hread⟩ := KdbStore.exists_row_of_mem_collectRecent hout e hmem
  exact h.id_ne hinv ⟨p, hp, hr⟩ hread

end Quiet

end Deleting

/-- Any number of cycles, deletions and requests, in any order of their steps and with any failures:
if a deletion of an event has returned, no object with the event has been put, and no cycle under way
holds the event, then from there on neither `get_event` nor `query` returns it, and no request with
`include_archived=true` that is made later has it in its answer. -/
theorem erased_stays_erased (db : Keplordb) (pt : PointAccess db) (a : Archiver)
    (joinErrorText : String) (eventOf : EventId → LlmEvent) (store : KdbStore db)
    (hrows : ∀ r, store.Sees r → Written a eventOf r) (hone : OneTier store)
    (xs ys : List (Deleting.Input db))
    (hworld : Allowed (Deleting.step pt a joinErrorText) (Deleting.World a eventOf) (.start store)
      (xs ++ ys))
    (id : EventId) (c : DeleteRun)
    (hc : c ∈ (run (Deleting.step pt a joinErrorText) (.start store) xs).calls)
    (hdeleted : Deleted a.formats c id)
    (hbefore : id ∉ (run (Deleting.step pt a joinErrorText) (.start store) xs).uploaded)
    (hfree : ¬ (run (Deleting.step pt a joinErrorText) (.start store) xs).Held id) :
    let s := run (Deleting.step pt a joinErrorText) (.start store) (xs ++ ys)
    (∀ e, s.store.getEvent pt a.formats id ≠ pure (some e)) ∧
    (∀ f limit cursor events, s.store.query a.formats f limit cursor = pure events →
      ∀ e ∈ events, e.id ≠ id) ∧
    ∀ ys₁ q ys₂, ys = ys₁ ++ .ask q :: ys₂ → ∀ page, s.viewing.view.answer = some page →
      ∀ y ∈ page, y.id ≠ a.formats.ulid.print id := by
  obtain ⟨hxs, hys⟩ := allowed_append.mp hworld
  have hstep : ∀ (s : Deleting db) x, Deleting.Inv a eventOf s → s.World a eventOf x →
      Deleting.Inv a eventOf (s.step pt a joinErrorText x) :=
    fun s x h hx => Deleting.inv_step h x hx
  have hinv := run_invariant hstep (Deleting.inv_start hrows hone) hxs
  have hquiet : Deleting.Quiet a id (run (Deleting.step pt a joinErrorText) (.start store) xs) :=
    ⟨confined_of_deleted (hinv.calls c hc) hdeleted, hfree, hbefore⟩
  obtain ⟨hquiet', hinv'⟩ := Deleting.quiet_run hquiet hinv hys
  rw [← run_append] at hquiet' hinv'
  refine ⟨fun e he => ?_, fun f limit cursor events => hquiet'.query_ne hinv', ?_⟩
  · obtain ⟨r, hr, hid⟩ := KdbStore.exists_row_of_getEvent he
    exact hquiet'.not_sees hr hid
  · rintro ys₁ q ys₂ rfl page hpage
    obtain ⟨hys₁, hask, hys₂⟩ := allowed_append.mp hys
    obtain ⟨hquiet₁, hinv₁⟩ := Deleting.quiet_run hquiet hinv hys₁
    -- the request starts with nothing read, and all it reads it reads after the deletion
    have hclean := Deleting.clean_run (Deleting.quiet_step hquiet₁ hinv₁ (.ask q) hask)
      (Deleting.inv_step hinv₁ (.ask q) hask) trivial hys₂
    rw [← run_cons, ← run_append, ← run_append] at hclean
    rw [ViewStage.answer_eq_some.mp hpage] at hclean
    exact hclean page rfl

/-! ## And one that does not -/

section Held

variable {db : Keplordb} {pt : PointAccess db} {a : Archiver} {joinErrorText : String}
  {eventOf : EventId → LlmEvent} {s : Deleting db}

/-- No chunk is given up. -/
def Deleting.uploadsAll (a : Archiver) (s : Deleting db) : Deleting.Input db → Bool
  | .archive x => !s.viewing.archiving.stage.fails a x
  | _ => true

theorem Deleting.accounted_step (h : Deleting.Inv a eventOf s) {r : LogEvent} (hw : Written a eventOf r)
    (hr : Archiving.Accounted a s.viewing.archiving r) (x : Deleting.Input db)
    (hx : s.uploadsAll a x = true) :
    Archiving.Accounted a (s.step pt a joinErrorText x).viewing.archiving r := by
  cases x with
  | archive x =>
    refine Archiving.accounted_step h.archiving hw ?_ hr
    simpa [Deleting.uploadsAll] using hx
  | begin call => exact hr
  | turn i =>
    cases hc : s.calls[i]? with
    | none =>
      rw [Deleting.step_turn_none hc]
      exact hr
    | some c =>
      rw [Deleting.step_turn hc]
      exact hr
  | ask q => exact hr
  | look error =>
    simp only [Deleting.step, Viewing.archiving_look]
    exact hr

/-- An event that a cycle holds when it is deleted is archived all the same, once the cycle is
through with its chunks. -/
theorem archived_of_held (h : Deleting.Inv a eventOf s) {r : LogEvent} {e : LlmEvent}
    (hw : Written a eventOf r) (hread : fromEventRef a.formats r = pure e)
    (hheld : s.viewing.archiving.stage.Holds e) {ys : List (Deleting.Input db)}
    (hworld : Allowed (Deleting.step pt a joinErrorText) (Deleting.World a eventOf) s ys)
    (hall : Allowed (Deleting.step pt a joinErrorText) (fun s x => s.uploadsAll a x = true) s ys)
    (hidle : (run (Deleting.step pt a joinErrorText) s ys).viewing.archiving.stage = .idle) :
    Archived a (run (Deleting.step pt a joinErrorText) s ys).viewing.archiving.bucket r := by
  have hstep : ∀ (s : Deleting db) x,
      Deleting.Inv a eventOf s ∧ Archiving.Accounted a s.viewing.archiving r →
      s.World a eventOf x ∧ s.uploadsAll a x = true →
      Deleting.Inv a eventOf (s.step pt a joinErrorText x) ∧
        Archiving.Accounted a (s.step pt a joinErrorText x).viewing.archiving r :=
    fun s x h hx => ⟨Deleting.inv_step h.1 x hx.1, Deleting.accounted_step h.1 hw h.2 x hx.2⟩
  have hend := run_invariant hstep ⟨h, .inr ⟨e, hread, hheld⟩⟩ (allowed_and.mpr ⟨hworld, hall⟩)
  rcases hend.2 with harchived | ⟨e', -, hholds⟩
  · exact harchived
  · rw [hidle] at hholds
    exact hholds.elim

end Held

/-! ## Before and after the snapshot -/

/-- The one event of a store is deleted. -/
def deletion : List (Deleting.Input memoryDb) :=
  [.begin (.event sampleEvent.id), .turn 0, .turn 0, .turn 0]

/-- A cycle begins. -/
def snapshot : List (Deleting.Input memoryDb) := [.archive (.start 1800000000000000000 1000)]

/-- It uploads its first chunk, if it has one. -/
def firstChunk : List (Deleting.Input memoryDb) :=
  [.archive (.prepare "01"), .archive (.put none), .archive (.record 1800000000 none)]

/-- Everything is asked for. -/
def everything (n : Nat) : List (Deleting.Input memoryDb) := Deleting.asks { includeArchived := true } n

/-- The system over a store with one event. -/
def deletingAfter (xs : List (Deleting.Input memoryDb)) : Deleting memoryDb :=
  run (Deleting.step memoryPoints sampleArchiver "task panicked") (.start oneEvent) xs

theorem oneTier_oneEvent : OneTier oneEvent := by
  have htier : ∀ t r, InTier oneEvent t r → t = "free" := by
    rintro t r ⟨e, hget, -⟩
    exact List.mem_singleton.mp (KdbStore.mem_tiers_of_get hget)
  intro t t' r r' hr hr' _
  rw [htier t r hr, htier t' r' hr']

/-- Everything but a change from outside and a new archive id. -/
def tame {db : Keplordb} : Deleting.Input db → Bool
  | .archive (.world _) => false
  | .archive (.prepare _) => false
  | _ => true

theorem world_of_tame {db : Keplordb} {a : Archiver} {eventOf : EventId → LlmEvent} (s : Deleting db)
    {x : Deleting.Input db} (h : tame x = true) : s.World a eventOf x := by
  rcases x with x | call | i | q | error
  · cases x with
    | world store => cases h
    | prepare archiveId => cases h
    | start olderThanNs batchSize => exact ⟨trivial, nofun⟩
    | put error => exact ⟨trivial, nofun⟩
    | record createdAt error => exact ⟨trivial, nofun⟩
    | scope => exact ⟨trivial, nofun⟩
    | delete => exact ⟨trivial, nofun⟩
    | finish => exact ⟨trivial, nofun⟩
  · trivial
  · trivial
  · trivial
  · trivial

/-- A run with one upload to an empty bucket. -/
theorem allowed_around {eventOf : EventId → LlmEvent} {archiveId : String}
    (xs zs : List (Deleting.Input memoryDb)) (hxs : xs.all tame = true) (hzs : zs.all tame = true)
    (hfree : (deletingAfter xs).viewing.archiving.bucket.objects.length = 0) :
    Allowed (Deleting.step memoryPoints sampleArchiver "task panicked")
      (Deleting.World sampleArchiver eventOf) (.start oneEvent)
      (xs ++ .archive (.prepare archiveId) :: zs) := by
  rw [List.all_eq_true] at hxs hzs
  refine allowed_append.mpr ⟨allowed_of_forall fun s x hx => world_of_tame s (hxs x hx),
    ⟨fun key chunk todo acc _ => ?_, nofun⟩, allowed_of_forall fun s x hx => world_of_tame s (hzs x hx)⟩
  have hnil : (deletingAfter xs).viewing.archiving.bucket.objects = [] := List.length_eq_zero_iff.mp hfree
  show (deletingAfter xs).viewing.archiving.bucket.get _ = none
  rw [Bucket.get, hnil]
  rfl

theorem notMem_uploaded {xs : List (Deleting.Input memoryDb)} (id : EventId)
    (h : (deletingAfter xs).uploaded.length = 0) : id ∉ (deletingAfter xs).uploaded := by
  rw [List.length_eq_zero_iff.mp h]
  exact List.not_mem_nil

/-- The call of `deletion` found the event. -/
theorem exists_deleted {calls : List DeleteRun} {id : EventId}
    (h : (calls.any fun c => match c.call, c.stage with
      | .event id', .done (.ok (.existed true)) => decide (id' = id)
      | _, _ => false) = true) : ∃ c ∈ calls, Deleted textFormats c id := by
  obtain ⟨c, hc, h⟩ := List.any_eq_true.mp h
  refine ⟨c, hc, ?_⟩
  unfold Deleted
  split at h
  · rename_i hcall hstage
    rw [hcall, hstage]
    exact of_decide_eq_true h
  · cases h

/-- An event that is deleted before the cycle begins is not in the answer. -/
theorem deleted_before_snapshot : ∃ page,
    (deletingAfter (deletion ++ (snapshot ++ firstChunk ++ everything 6))).viewing.view.answer = some page ∧
      ∀ y ∈ page, y.id ≠ textFormats.ulid.print sampleEvent.id := by
  obtain ⟨c, hc, hdeleted⟩ : ∃ c ∈ (deletingAfter deletion).calls, Deleted textFormats c sampleEvent.id := by
    apply exists_deleted
    decide +kernel
  have hanswer : (deletingAfter (deletion ++
      (snapshot ++ firstChunk ++ everything 6))).viewing.view.answer.isSome = true := by
    decide +kernel
  have habsent : sampleEvent.id ∉ (deletingAfter deletion).uploaded := by
    apply notMem_uploaded
    decide +kernel
  have hfree : ¬ (deletingAfter deletion).Held sampleEvent.id := by
    rintro ⟨e, he, -⟩
    exact he
  have hworld : Allowed (Deleting.step memoryPoints sampleArchiver "task panicked")
      (Deleting.World sampleArchiver fun _ => sampleEvent) (.start oneEvent)
      (deletion ++ (snapshot ++ firstChunk ++ everything 6)) :=
    allowed_around (deletion ++ snapshot) _ (by decide) (by decide) (by decide +kernel)
  obtain ⟨page, hpage⟩ := Option.isSome_iff_exists.mp hanswer
  refine ⟨page, hpage, ?_⟩
  exact (erased_stays_erased memoryDb memoryPoints sampleArchiver "task panicked" (fun _ => sampleEvent)
    oneEvent written_beforeArchiving oneTier_oneEvent deletion (snapshot ++ firstChunk ++ everything 6)
    hworld sampleEvent.id c hc hdeleted habsent hfree).2.2 (snapshot ++ firstChunk)
    { includeArchived := true } _ rfl page hpage

theorem tame_everything (n : Nat) : (everything n).all tame = true := by
  rw [everything, Deleting.asks, List.all_cons, Bool.and_eq_true, List.all_eq_true]
  refine ⟨rfl, fun x hx => ?_⟩
  rw [List.eq_of_mem_replicate hx]
  rfl

theorem allowed_deleted_after (n : Nat) :
    Allowed (Deleting.step memoryPoints sampleArchiver "task panicked")
      (Deleting.World sampleArchiver fun _ => sampleEvent) (.start oneEvent)
      (snapshot ++ deletion ++ (firstChunk ++ everything n)) := by
  refine allowed_around (snapshot ++ deletion)
    ([.archive (.put none), .archive (.record 1800000000 none)] ++ everything n) (by decide) ?_
    (by decide +kernel)
  rw [List.all_append, tame_everything]
  rfl

/-- The cycle goes on after the deletion as if nothing had happened. -/
def afterUpload : Deleting memoryDb := deletingAfter (snapshot ++ deletion ++ firstChunk)

theorem inv_afterUpload : Deleting.Inv sampleArchiver (fun _ => sampleEvent) afterUpload := by
  have hstep : ∀ (s : Deleting memoryDb) x, Deleting.Inv sampleArchiver (fun _ => sampleEvent) s →
      s.World sampleArchiver (fun _ => sampleEvent) x → Deleting.Inv sampleArchiver (fun _ => sampleEvent)
        (s.step memoryPoints sampleArchiver "task panicked" x) :=
    fun s x h hx => Deleting.inv_step h x hx
  have hallowed := allowed_deleted_after 0
  rw [← List.append_assoc] at hallowed
  exact run_invariant hstep (Deleting.inv_start written_beforeArchiving oneTier_oneEvent)
    (allowed_append.mp hallowed).1

theorem onlyArchived_afterUpload :
    OnlyArchived afterUpload.store afterUpload.viewing.archiving.bucket := by
  refine onlyArchived_of_size (not_sees_of_lengths (n := 1) ?_) (fun m hm => ?_) ?_
  · decide +kernel
  · obtain ⟨chunk, hchunk, -⟩ := inv_afterUpload.recorded m hm
    exact ⟨chunk, hchunk⟩
  · decide +kernel

/-- An event that is deleted while a cycle has it waiting is: the call returns that it existed and no
object has been put, and later a request is answered with the event. -/
theorem deleted_after_snapshot : ∃ n,
    Allowed (Deleting.step memoryPoints sampleArchiver "task panicked")
      (Deleting.World sampleArchiver fun _ => sampleEvent) (.start oneEvent)
      (snapshot ++ deletion ++ (firstChunk ++ everything n)) ∧
    (∃ c ∈ (deletingAfter (snapshot ++ deletion)).calls, Deleted textFormats c sampleEvent.id) ∧
    sampleEvent.id ∉ (deletingAfter (snapshot ++ deletion)).uploaded ∧
    ∃ page, (deletingAfter (snapshot ++ deletion ++ (firstChunk ++ everything n))).viewing.view.answer
        = some page ∧
      ∃ y ∈ page, y.id = textFormats.ulid.print sampleEvent.id := by
  obtain ⟨n, hn⟩ := Deleting.run_asks memoryPoints sampleArchiver "task panicked" afterUpload
    (q := { includeArchived := true }) rfl
  obtain ⟨resp, hresp, hy⟩ := onlyArchived_afterUpload.exists_answer (q := { includeArchived := true })
    rfl rfl (by decide) (by decide) "task panicked"
  have hdeleted : ∃ c ∈ (deletingAfter (snapshot ++ deletion)).calls,
      Deleted textFormats c sampleEvent.id := by
    apply exists_deleted
    decide +kernel
  have habsent : sampleEvent.id ∉ (deletingAfter (snapshot ++ deletion)).uploaded := by
    apply notMem_uploaded
    decide +kernel
  have hrun : deletingAfter (snapshot ++ deletion ++ (firstChunk ++ everything n)) =
      run (Deleting.step memoryPoints sampleArchiver "task panicked") afterUpload
        (Deleting.asks { includeArchived := true } n) := by
    rw [← List.append_assoc]
    exact run_append _ _
  refine ⟨n, allowed_deleted_after n, hdeleted, habsent, resp.events, ?_, hy⟩
  rw [hrun, ViewStage.answer_eq_some, hn]
  exact congrArg (fun r => ViewStage.done (r.map EventListResponse.events)) hresp

end Keplor.Server
