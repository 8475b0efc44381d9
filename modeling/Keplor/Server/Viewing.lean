import Keplor.Server.Events

/-!
# Reading while the archiver is at work

A request with `include_archived=true` reads the engines one by one, then lists the manifests, then
fetches the files one by one. An archiver that is at work meanwhile moves events the other way: it
puts the object, records the manifest, and only then deletes from the engines one by one. So an
event that is gone from an engine when the request gets there has its manifest recorded already, and
the listing, which comes later still, has it (`Found`).

The two halves may both return an event. Nothing removes the second copy, and the page is cut after
the merge: the page has to have room for all that was read, copies included. `matched` counts it.
-/

set_option autoImplicit false

namespace Keplor.Server

open Keplor.Lib Keplor.Core Keplor.Store

/-! ## The request, step by step -/

/-- A request, the archiver that serves it, and what the runtime says of a blocking task that
panicked. -/
structure ViewCall where
  archiver : Archiver
  query : EventQuery
  joinErrorText : String

/-- The filter of the live half. -/
def ViewCall.queryFilter (c : ViewCall) : QueryFilter :=
  buildQueryFilter c.query.filter c.query.cursor

/-- The check of the archived half. -/
def ViewCall.keeps (c : ViewCall) : LlmEvent → Bool :=
  keepsArchived c.query.userId c.query.fromTs c.query.toTs

/-- Where the request is. -/
inductive ViewStage where
  /-- about to list the engines -/
  | asking
  /-- reading from the engines that are left -/
  | reading (tiers : List String) (out : List LlmEvent)
  /-- about to list the manifests -/
  | listing (page : List EventResponse)
  /-- fetching the files that are left -/
  | fetching (left : List ArchiveManifest) (fetched : List (Except StoreError (List LlmEvent)))
      (page : List EventResponse)
  | done (result : Except ServerError (List EventResponse))

/-- The events of the response, once there is one. -/
def ViewStage.answer : ViewStage → Option (List EventResponse)
  | .done (.ok xs) => some xs
  | _ => none

theorem ViewStage.answer_eq_some {view : ViewStage} {xs : List EventResponse} :
    view.answer = some xs ↔ view = .done (.ok xs) := by
  constructor
  · intro h
    rcases view with _ | _ | _ | _ | _ | ys
    · cases h
    · cases h
    · cases h
    · cases h
    · cases h
    · rw [Option.some.inj h]
  · intro h
    rw [h]
    rfl

/-- The archiver with its store and bucket, and the request. -/
structure Viewing (db : Keplordb) where
  archiving : Archiving db
  view : ViewStage
  /-- the matching rows of the engines and the matching events of the files, each counted when the
  engine or the file was read -/
  matched : Nat

namespace Viewing

variable {db : Keplordb}

/-- A step of the archiver or of the rest of the world, or one of the request. The error is what the
listing or the fetch fails with. -/
inductive Input (db : Keplordb) where
  | archive (x : Archiving.Input db)
  | look (error : Option StoreError)

/-- The matching rows of a tier. -/
def matchingIn (c : ViewCall) (store : KdbStore db) (tier : String) : Nat :=
  match store.get tier with
  | none => 0
  | some eng => ((db.visible eng).filter (db.admits (toQueryFilter c.query.filter))).length

/-- The matching events of a file. -/
def matchingOf (c : ViewCall) (r : Except StoreError (List LlmEvent)) : Nat :=
  ((fetchedEvents [r]).filter c.keeps).length

/-- The page of the live half, from what the engines returned. -/
def pageOf (c : ViewCall) (out : List LlmEvent) : List EventResponse :=
  livePage c.archiver.formats c.query
    ((out.insertionSort (Desc LlmEvent.tsNs)).take (c.query.pageLimit + 1))

/-- A fetch of one file. -/
def fetch (c : ViewCall) (b : Bucket) (error : Option StoreError) (m : ArchiveManifest) :
    Except StoreError (List LlmEvent) :=
  match error with
  | some e => .error e
  | none => fetchOne c.archiver b m

/-- The manifests the request is about. -/
def manifestsOf (c : ViewCall) (b : Bucket) : List ArchiveManifest :=
  listArchives b c.query.userId c.query.fromTs c.query.toTs

/-- What the request answers when every file has been asked for. -/
def merged (c : ViewCall) (page : List EventResponse)
    (fetched : List (Except StoreError (List LlmEvent))) : List EventResponse :=
  mergeFetched c.archiver.formats page fetched c.query.userId c.query.fromTs c.query.toTs
    c.query.pageLimit

/-- The next stage after a query: a failure ends the request. -/
def ofQuery (c : ViewCall) (r : Option (Except StoreError (List LlmEvent)))
    (next : List LlmEvent → ViewStage) : ViewStage :=
  match r with
  | none => .done (.error (.internal c.joinErrorText))
  | some (.error e) => .done (.error (.store e))
  | some (.ok events) => next events

/-- The next step of the request. -/
def look (c : ViewCall) (s : Viewing db) (error : Option StoreError) : Viewing db :=
  match s.view with
  | .asking => { s with view := .reading (s.archiving.store.engines.map Prod.fst) [] }
  | .reading [] out => { s with view := .listing (pageOf c out) }
  | .reading (tier :: tiers) out =>
    let r := s.archiving.store.readTier c.archiver.formats c.queryFilter (c.query.pageLimit + 1) tier
    { s with
      view := ofQuery c r.run fun events => .reading tiers (out ++ events)
      matched := s.matched + matchingIn c s.archiving.store tier }
  | .listing page =>
    match error with
    -- the failure is logged, and the page goes out without the archived events
    | some _ => { s with view := .done (.ok page) }
    | none =>
      let manifests := manifestsOf c s.archiving.bucket
      if manifests.isEmpty then { s with view := .done (.ok page) }
      else { s with view := .fetching manifests [] page }
  | .fetching [] fetched page => { s with view := .done (.ok (merged c page fetched)) }
  | .fetching (m :: left) fetched page =>
    let r := fetch c s.archiving.bucket error m
    { s with
      view := .fetching left (fetched ++ [r]) page
      matched := s.matched + matchingOf c r }
  | .done _ => s

/-- One step of the system. -/
def step (c : ViewCall) (s : Viewing db) : Input db → Viewing db
  | .archive x => { s with archiving := s.archiving.step c.archiver x }
  | .look error => s.look c error

section Equations

variable {c : ViewCall} {s : Viewing db} {tier : String} {tiers : List String}
  {out events : List LlmEvent} {page : List EventResponse} {m : ArchiveManifest}
  {left : List ArchiveManifest} {fetched : List (Except StoreError (List LlmEvent))}
  {error : Option StoreError}

theorem step_look : s.step c (.look error) = s.look c error := rfl

theorem look_asking (hs : s.view = .asking) : s.look c error
    = { s with view := .reading (s.archiving.store.engines.map Prod.fst) [] } := by
  unfold look
  rw [hs]

theorem look_read (hs : s.view = .reading (tier :: tiers) out) : s.look c error = { s with
    view := ofQuery c (s.archiving.store.readTier c.archiver.formats c.queryFilter
      (c.query.pageLimit + 1) tier).run fun events => .reading tiers (out ++ events)
    matched := s.matched + matchingIn c s.archiving.store tier } := by
  unfold look
  rw [hs]

theorem look_page (hs : s.view = .reading [] out) :
    s.look c error = { s with view := .listing (pageOf c out) } := by
  unfold look
  rw [hs]

theorem look_listed (hs : s.view = .listing page)
    (hne : manifestsOf c s.archiving.bucket ≠ []) : s.look c none
      = { s with view := .fetching (manifestsOf c s.archiving.bucket) [] page } := by
  unfold look
  rw [hs]
  exact if_neg (by rwa [List.isEmpty_iff])

theorem look_none (hs : s.view = .listing page) (hnil : manifestsOf c s.archiving.bucket = []) :
    s.look c none = { s with view := .done (.ok page) } := by
  unfold look
  rw [hs]
  exact if_pos (by rwa [List.isEmpty_iff])

theorem look_failed (hs : s.view = .listing page) (e : StoreError) :
    s.look c (some e) = { s with view := .done (.ok page) } := by
  unfold look
  rw [hs]

theorem look_fetch (hs : s.view = .fetching (m :: left) fetched page) : s.look c error = { s with
    view := .fetching left (fetched ++ [fetch c s.archiving.bucket error m]) page
    matched := s.matched + matchingOf c (fetch c s.archiving.bucket error m) } := by
  unfold look
  rw [hs]

theorem look_merge (hs : s.view = .fetching [] fetched page) :
    s.look c error = { s with view := .done (.ok (merged c page fetched)) } := by
  unfold look
  rw [hs]

theorem look_done {r : Except ServerError (List EventResponse)} (hs : s.view = .done r) :
    s.look c error = s := by
  unfold look
  rw [hs]

/-- The request changes nothing. -/
theorem archiving_look : (s.look c error).archiving = s.archiving := by
  cases hs : s.view with
  | asking => rw [look_asking hs]
  | reading tiers out =>
    cases tiers with
    | nil => rw [look_page hs]
    | cons tier tiers => rw [look_read hs]
  | listing page =>
    cases error with
    | some e => rw [look_failed hs]
    | none =>
      by_cases hnil : manifestsOf c s.archiving.bucket = []
      · rw [look_none hs hnil]
      · rw [look_listed hs hnil]
  | fetching left fetched page =>
    cases left with
    | nil => rw [look_merge hs]
    | cons m left => rw [look_fetch hs]
  | done r => rw [look_done hs]

end Equations

/-! ## The steps are the source's handler -/

section Handler

variable {c : ViewCall}

/-- The request's steps, with nothing in between and no failure. -/
def looks (n : Nat) : List (Input db) := List.replicate n (.look none)

theorem run_looks_done {r : Except ServerError (List EventResponse)} {s : Viewing db}
    (hs : s.view = .done r) (n : Nat) : run (step c) s (looks n) = s := by
  induction n with
  | zero => rfl
  | succ n ih =>
    have hstep : s.step c (.look none) = s := by rw [step_look, look_done hs]
    rw [looks, List.replicate_succ, run_cons, hstep]
    exact ih

theorem archiving_run_looks (s : Viewing db) (n : Nat) :
    (run (step c) s (looks n)).archiving = s.archiving := by
  induction n generalizing s with
  | zero => rfl
  | succ n ih =>
    rw [looks, List.replicate_succ, run_cons]
    exact (ih (s.step c (.look none))).trans archiving_look

/-- What the turns over the engines come to. -/
theorem run_looks_reading {tiers : List String} :
    ∀ {s : Viewing db} {out : List LlmEvent}, s.view = .reading tiers out →
      (run (step c) s (looks (tiers.length + 1))).view = ofQuery c
        (s.archiving.store.readTiers c.archiver.formats c.queryFilter (c.query.pageLimit + 1) tiers).run
        fun events => .listing (pageOf c (out ++ events)) := by
  induction tiers with
  | nil =>
    intro s out hs
    show (s.look c none).view = .listing (pageOf c (out ++ []))
    rw [look_page hs, List.append_nil]
  | cons tier tiers ih =>
    intro s out hs
    obtain ⟨s', hs', hview⟩ : ∃ s', s' = s.step c (.look none) ∧ s'.view = ofQuery c
        (s.archiving.store.readTier c.archiver.formats c.queryFilter (c.query.pageLimit + 1) tier).run
        fun events => .reading tiers (out ++ events) := by
      refine ⟨_, rfl, ?_⟩
      rw [step_look, look_read hs]
    have hsame : s'.archiving = s.archiving := by
      rw [hs', step_look, archiving_look]
    rw [List.length_cons, looks, List.replicate_succ, run_cons, ← hs', ← looks, KdbStore.readTiers,
      ExceptT.run_bind]
    rcases hread : (s.archiving.store.readTier c.archiver.formats c.queryFilter
      (c.query.pageLimit + 1) tier).run with _ | e | events
    · rw [hread] at hview
      rw [run_looks_done hview, hview]
      rfl
    · rw [hread] at hview
      rw [run_looks_done hview, hview]
      rfl
    · rw [hread] at hview
      rw [ih hview, hsame]
      show _ = ofQuery c (ExceptT.run (_ >>= _)) _
      rw [ExceptT.run_bind]
      rcases (s.archiving.store.readTiers c.archiver.formats c.queryFilter
        (c.query.pageLimit + 1) tiers).run with _ | e | more
      · rfl
      · rfl
      · exact congrArg (fun o => ViewStage.listing (pageOf c o)) (List.append_assoc out events more)

/-- What the fetches come to. -/
theorem run_looks_fetching {left : List ArchiveManifest} :
    ∀ {s : Viewing db} {fetched : List (Except StoreError (List LlmEvent))}
      {page : List EventResponse}, s.view = .fetching left fetched page →
      (run (step c) s (looks (left.length + 1))).view = .done (.ok (merged c page
        (fetched ++ left.map (fetchOne c.archiver s.archiving.bucket)))) := by
  induction left with
  | nil =>
    intro s fetched page hs
    show (s.look c none).view = _
    rw [look_merge hs, List.map_nil, List.append_nil]
  | cons m left ih =>
    intro s fetched page hs
    have hstep : s.step c (.look none) = { s with
        view := .fetching left (fetched ++ [fetchOne c.archiver s.archiving.bucket m]) page
        matched := s.matched + matchingOf c (fetchOne c.archiver s.archiving.bucket m) } := by
      rw [step_look, look_fetch hs]
      rfl
    rw [List.length_cons, looks, List.replicate_succ, run_cons, ← looks, hstep, ih rfl,
      List.map_cons, List.append_assoc, List.singleton_append]

/-- What the merge comes to, from the listing on. -/
theorem run_looks_listing {s : Viewing db} {page : List EventResponse} (hs : s.view = .listing page) :
    (run (step c) s (looks ((manifestsOf c s.archiving.bucket).length + 2))).view =
      .done (.ok (mergeArchivedEvents (some c.archiver) s.archiving.bucket page c.query.userId
        c.query.fromTs c.query.toTs c.query.pageLimit)) := by
  rw [looks, List.replicate_succ, run_cons, ← looks]
  show (run (step c) (s.look c none) _).view = _
  by_cases hnil : manifestsOf c s.archiving.bucket = []
  · rw [look_none hs hnil, run_looks_done rfl, mergeArchivedEvents]
    exact congrArg (fun x => ViewStage.done (.ok x)) (if_pos (by rwa [List.isEmpty_iff])).symm
  · rw [look_listed hs hnil, run_looks_fetching rfl, mergeArchivedEvents]
    exact congrArg (fun x => ViewStage.done (.ok x)) (if_neg (by rwa [List.isEmpty_iff])).symm

theorem ofQuery_query {store : KdbStore db} {next : List LlmEvent → ViewStage} :
    ofQuery c (store.query c.archiver.formats c.query.filter (c.query.pageLimit + 1)
      c.query.cursor).run next =
    ofQuery c (KdbStore.collectRecent c.archiver.formats c.queryFilter (c.query.pageLimit + 1)
      store.engines).run fun out =>
        next ((out.insertionSort (Desc LlmEvent.tsNs)).take (c.query.pageLimit + 1)) := by
  rw [KdbStore.query, ← ViewCall.queryFilter, ExceptT.run_bind]
  rcases (KdbStore.collectRecent c.archiver.formats c.queryFilter (c.query.pageLimit + 1)
    store.engines).run with _ | e | out <;> rfl

theorem done_queryEvents (hinclude : c.query.includeArchived = true) (store : KdbStore db) (b : Bucket) :
    .done ((queryEvents c.archiver.formats c.joinErrorText (some c.archiver) store b c.query).map
      EventListResponse.events) =
    ofQuery c (store.query c.archiver.formats c.query.filter (c.query.pageLimit + 1)
      c.query.cursor).run fun events => .done (.ok (mergeArchivedEvents (some c.archiver) b
        (livePage c.archiver.formats c.query events) c.query.userId c.query.fromTs c.query.toTs
        c.query.pageLimit)) := by
  rw [queryEvents]
  rcases (store.query c.archiver.formats c.query.filter (c.query.pageLimit + 1)
    c.query.cursor).run with _ | e | events
  · rfl
  · rfl
  · exact congrArg (fun x => ViewStage.done (.ok x)) (if_pos hinclude)

/-- Done without a pause, the steps are `query_events`. -/
theorem run_looks {s : Viewing db} (hs : s.view = .asking) (hinclude : c.query.includeArchived = true) :
    ∃ n, (run (step c) s (looks n)).view = .done ((queryEvents c.archiver.formats c.joinErrorText
      (some c.archiver) s.archiving.store s.archiving.bucket c.query).map EventListResponse.events) := by
  obtain ⟨s', hs', hask⟩ : ∃ s', s' = s.step c (.look none) ∧
      s'.view = .reading (s.archiving.store.engines.map Prod.fst) [] := by
    refine ⟨_, rfl, ?_⟩
    rw [step_look, look_asking hs]
  have hsame : s'.archiving = s.archiving := by
    rw [hs', step_look, archiving_look]
  have hread := run_looks_reading (c := c) hask
  rw [hsame, KdbStore.readTiers_engines] at hread
  generalize (s.archiving.store.engines.map Prod.fst).length + 1 = n at hread
  have hafter : run (step c) s (looks (n + 1)) = run (step c) s' (looks n) := by
    rw [looks, List.replicate_succ, run_cons, ← hs', ← looks]
  rw [done_queryEvents hinclude, ofQuery_query]
  rw [← hafter] at hread
  rcases hout : (KdbStore.collectRecent c.archiver.formats c.queryFilter (c.query.pageLimit + 1)
    s.archiving.store.engines).run with _ | e | out
  · rw [hout] at hread
    exact ⟨n + 1, hread⟩
  · rw [hout] at hread
    exact ⟨n + 1, hread⟩
  · rw [hout] at hread
    have hmerge := run_looks_listing (c := c) hread
    rw [archiving_run_looks] at hmerge
    refine ⟨n + 1 + ((manifestsOf c s.archiving.bucket).length + 2), ?_⟩
    rw [looks, List.replicate_add, run_append, ← looks, ← looks, hmerge]
    rfl

end Handler

end Viewing

/-! ## What matches -/

/-- The response shows the event of the row; the metadata may have changed on the way. -/
def Shows (tf : TextFormats) (r : LogEvent) (x : EventResponse) : Prop :=
  ∃ e metadata, fromEventRef tf r = pure e ∧ x = { llmEventToResponse tf e with metadata := metadata }

theorem shows_summary {tf : TextFormats} {r : LogEvent} {e : LlmEvent}
    (h : fromEventRef tf r = pure e) : Shows tf r (summaryToResponse tf (llmToSummary tf e)) :=
  ⟨e, _, h, summaryToResponse_llmToSummary tf e⟩

section Matching

variable {db : Keplordb} {q : EventQuery} {tf : TextFormats} {r : LogEvent} {e : LlmEvent}

/-- What the live filter says of a row's user and time. -/
theorem of_admits (hdoc : db.FiltersAsDocumented)
    (h : db.admits (toQueryFilter q.filter) r = true) :
    (∀ u, q.userId = some u → r.dims DIM_USER_ID = u) ∧
      (∀ t, q.fromTs = some t → t ≤ r.tsNs) ∧ ∀ t, q.toTs = some t → r.tsNs ≤ t := by
  rw [hdoc, MemoryEngine.admits] at h
  simp only [Bool.and_eq_true, List.all_eq_true] at h
  obtain ⟨⟨⟨⟨hdims, hfrom⟩, hto⟩, -⟩, -⟩ := h
  refine ⟨fun u hu => ?_, fun t ht => ?_, fun t ht => ?_⟩
  · have huser := hdims DIM_USER_ID (List.mem_finRange _)
    have hcol : (toQueryFilter q.filter).dims DIM_USER_ID = some u := hu
    rw [hcol] at huser
    exact (beq_iff_eq.mp huser).symm
  · have hcol : (toQueryFilter q.filter).fromTsNs = some t := ht
    rw [hcol] at hfrom
    exact of_decide_eq_true hfrom
  · have hcol : (toQueryFilter q.filter).toTsNs = some t := ht
    rw [hcol] at hto
    exact of_decide_eq_true hto

/-- A row of a user who has a name reads as an event of that user. -/
theorem userId_of_dims {u : String} (hu : u ≠ "") (hread : fromEventRef tf r = pure e)
    (h : r.dims DIM_USER_ID = u) : e.userId = some u := by
  rw [(columns_of_fromEventRef hread).2.1, h, optSmol]
  exact if_neg (by simpa using hu)

/-- An event that matches live passes the check of the archived half. -/
theorem keepsArchived_of_admits (hdoc : db.FiltersAsDocumented)
    (h : db.admits (toQueryFilter q.filter) r = true) (hname : q.userId ≠ some "")
    (hread : fromEventRef tf r = pure e) :
    keepsArchived q.userId q.fromTs q.toTs e = true := by
  obtain ⟨huser, hfrom, hto⟩ := of_admits hdoc h
  rw [keepsArchived_iff, (fields_of_fromEventRef hread).2.1]
  refine ⟨fun u hq => ?_, hfrom, hto⟩
  have hu : u ≠ "" := fun hu => hname (hu ▸ hq)
  exact userId_of_dims hu hread (huser u hq)

/-- And its manifest is one of the user and the window. -/
theorem overlaps_of_admits (hdoc : db.FiltersAsDocumented)
    (h : db.admits (toQueryFilter q.filter) r = true) {a : Archiver} {b : Bucket}
    {m : ArchiveManifest} (hr : ArchivedIn a b m r) :
    m.overlaps q.named q.fromTs q.toTs = true := by
  obtain ⟨huser, hfrom, hto⟩ := of_admits hdoc h
  obtain ⟨-, -, -, -, -, -, e, -, hread, hgroup, hmin, hmax⟩ := hr
  rw [(fields_of_fromEventRef hread).2.1] at hmin hmax
  refine ArchiveManifest.overlaps_iff.mpr ⟨fun u hq => ?_, fun t ht => ?_, fun t ht => ?_⟩
  · obtain ⟨hq, hu⟩ := EventQuery.of_named hq
    have hkey := congrArg GroupKey.user hgroup
    rw [groupKey, userId_of_dims hu hread (huser u hq)] at hkey
    exact hkey.symm
  · exact Int64.le_trans (hfrom t ht) hmax
  · exact Int64.le_trans hmin (hto t ht)

end Matching

end Keplor.Server
