import Keplor.Core.Formats
import Keplor.Lib.Int64
import Keplor.Lib.Paging
import Keplor.Store.MemoryEngine
import Keplor.Store.RowRoundTrip

/-!
# `KdbStore::query` and `KdbStore::export_events`

A query asks every engine for its newest matching rows and merges them. It returns a page of the
union in the sense of `Lib/Paging.lean` (`query_isPage`), whatever order the engines are met in
(`query_is_top_of_union`), so what is true of a walk over pages is true of the export, which asks
for pages of a thousand and uses the timestamp of the last event of one page as the cursor of the
next.

The export therefore always ends. It is complete exactly when no two matching events with one
timestamp fall on different sides of a page's end (`export_complete_iff`); where they do, the later
ones are never reported.
-/

set_option autoImplicit false

namespace Keplor.Store

open Keplor.Lib Keplor.Core

/-! ## Filters -/

/-- `EventFilter` -/
structure EventFilter where
  userId : Option String := none
  apiKeyId : Option String := none
  model : Option String := none
  provider : Option String := none
  source : Option String := none
  fromTsNs : Option Int64 := none
  toTsNs : Option Int64 := none
  httpStatusMin : Option UInt16 := none
  httpStatusMax : Option UInt16 := none
  metaUserTag : Option String := none
  metaSessionTag : Option String := none
  deriving DecidableEq, Repr

/-- `to_query_filter` -/
def toQueryFilter (f : EventFilter) : QueryFilter where
  dims := assign (fun _ => none)
    [ (DIM_USER_ID, f.userId),
      (DIM_API_KEY_ID, f.apiKeyId),
      (DIM_MODEL, f.model),
      (DIM_PROVIDER, f.provider),
      (DIM_SOURCE, f.source),
      (DIM_USER_TAG, f.metaUserTag),
      (DIM_SESSION_TAG, f.metaSessionTag) ]
  fromTsNs := f.fromTsNs
  toTsNs := f.toTsNs
  statusMin := f.httpStatusMin
  statusMax := f.httpStatusMax
  cursor := none

/-- `build_query_filter` -/
def buildQueryFilter (f : EventFilter) (cursor : Option Int64) : QueryFilter :=
  { toQueryFilter f with cursor := cursor }

/-! ## Queries -/

/-- The error's text. -/
def MappingError.display : MappingError → String
  | .invalidEventId s => "invalid event id: " ++ s
  | .invalidTraceId s => "invalid trace id: " ++ s
  | .invalidIp s => "invalid client ip: " ++ s
  | .invalidError s => "invalid error payload: " ++ s
  | .invalidMetadata s => "invalid metadata: " ++ s
  | .invalidMethod s => "invalid http method: " ++ s

/-- `from_event_ref`, its error turned into the store's by `map_err`. -/
def readRow (tf : TextFormats) (r : LogEvent) : Fallible StoreError LlmEvent :=
  (fromEventRef tf r).adapt fun e => .other e.display

namespace KdbStore

variable {db : Keplordb}

/-- What `query` collects from the engines, before it sorts. -/
def collectRecent (tf : TextFormats) (qf : QueryFilter) (limit : Nat) :
    List (String × db.Engine) → Fallible StoreError (List LlmEvent)
  | [] => pure []
  | (_, eng) :: rest => do
    let rows ← Fallible.ofExcept (kdbErr (db.queryRecent eng qf limit))
    let events ← rows.mapM (readRow tf)
    let more ← collectRecent tf qf limit rest
    return events ++ more

/-- `KdbStore::query`; the sort is stable. -/
def query (s : KdbStore db) (tf : TextFormats) (filter : EventFilter) (limit : Nat)
    (cursor : Option Int64) : Fallible StoreError (List LlmEvent) := do
  let out ← collectRecent tf (buildQueryFilter filter cursor) limit s.engines
  return (out.insertionSort (Desc LlmEvent.tsNs)).take limit

end KdbStore

/-! ## The export -/

/-- `EventSummary` -/
structure EventSummary where
  id : EventId
  tsNs : Int64
  userId : Option String
  apiKeyId : Option String
  provider : String
  model : String
  endpoint : String
  httpStatus : Option UInt16
  inputTokens : UInt32
  outputTokens : UInt32
  cacheReadInputTokens : UInt32
  cacheCreationInputTokens : UInt32
  reasoningTokens : UInt32
  costNanodollars : Int64
  ttftMs : Option UInt32
  totalMs : UInt32
  streaming : Bool
  source : Option String
  errorType : Option String
  metadataJson : Option String
  clientIp : Option String
  userAgent : Option String
  deriving DecidableEq, Repr

/-- `llm_to_summary` -/
def llmToSummary (tf : TextFormats) (ev : LlmEvent) : EventSummary where
  id := ev.id
  tsNs := ev.tsNs
  userId := ev.userId
  apiKeyId := ev.apiKeyId
  provider := ev.provider.idKey
  model := ev.model
  endpoint := ev.endpoint
  httpStatus := ev.httpStatus
  inputTokens := ev.usage.inputTokens
  outputTokens := ev.usage.outputTokens
  cacheReadInputTokens := ev.usage.cacheReadInputTokens
  cacheCreationInputTokens := ev.usage.cacheCreationInputTokens
  reasoningTokens := ev.usage.reasoningTokens
  costNanodollars := ev.costNanodollars
  ttftMs := ev.latency.ttftMs
  totalMs := ev.latency.totalMs
  streaming := has ev.flags.bits EventFlags.STREAMING
  source := ev.source
  errorType := ev.error.map providerErrorTypeKey
  metadataJson := ev.metadata.map tf.toJson
  clientIp := ev.clientIp.map tf.ip.print
  userAgent := ev.userAgent

namespace KdbStore

variable {db : Keplordb}

/-- The page size of the export. -/
def exportPage : Nat := 1000

/-- The loop of `export_events`: the calls made to the callback so far, and the cursor. `none` when
the fuel ends before the loop does. -/
def exportLoop (s : KdbStore db) (tf : TextFormats) (filter : EventFilter) :
    Nat → Option Int64 → List EventSummary → Fallible StoreError (Option (List EventSummary))
  | 0, _, _ => pure none
  | fuel + 1, cursor, calls => do
    let rows ← s.query tf filter exportPage cursor
    match rows.getLast? with
    | none => return some calls
    | some last =>
      exportLoop s tf filter fuel (some last.tsNs) (calls ++ rows.map (llmToSummary tf))

/-- `KdbStore::export_events`: the calls of the callback, in order. -/
def exportEvents (s : KdbStore db) (tf : TextFormats) (filter : EventFilter) (fuel : Nat) :
    Fallible StoreError (Option (List EventSummary)) :=
  s.exportLoop tf filter fuel none []

/-- The visible rows of all engines that satisfy a filter. -/
def matchingRows (s : KdbStore db) (filter : EventFilter) : List LogEvent :=
  s.engines.flatMap fun p => (db.visible p.2).filter (db.admits (toQueryFilter filter))

/-! ## A query returns a page -/

theorem readRow_eq_pure {tf : TextFormats} {r : LogEvent} {ev : LlmEvent}
    (h : fromEventRef tf r = pure ev) : readRow tf r = pure ev := by
  rw [readRow, h]
  rfl

/-- What the engine is asked for, as a restriction of the matching rows. -/
theorem filter_buildQueryFilter (rows : List LogEvent) (filter : EventFilter)
    (cursor : Option Int64) :
    (rows.filter fun r => db.admits (buildQueryFilter filter cursor) r &&
      (buildQueryFilter filter cursor).beforeCursor r) =
      below LogEvent.tsNs cursor (rows.filter (db.admits (toQueryFilter filter))) := by
  have hadmits : ∀ r, db.admits (buildQueryFilter filter cursor) r =
      db.admits (toQueryFilter filter) r := fun r => db.admits_cursor (toQueryFilter filter) cursor r
  simp only [hadmits]
  cases cursor with
  | none =>
    refine List.filter_congr fun r _ => ?_
    exact Bool.and_true _
  | some c =>
    simp only [below, List.filter_filter]
    refine List.filter_congr fun r _ => ?_
    rw [Bool.and_comm]
    rfl

/-- Reading keeps the timestamps, so a cursor means the same before and after it. -/
theorem below_map {g : LogEvent → LlmEvent} {rows : List LogEvent}
    (h : ∀ r ∈ rows, (g r).tsNs = r.tsNs) (cursor : Option Int64) :
    below LlmEvent.tsNs cursor (rows.map g) = (below LogEvent.tsNs cursor rows).map g := by
  cases cursor with
  | none => rfl
  | some c =>
    simp only [below, List.filter_map]
    refine congrArg _ (List.filter_congr fun r hr => ?_)
    simp [h r hr]

section Pages

variable {tf : TextFormats} {filter : EventFilter} {g : LogEvent → LlmEvent}

/-- Every engine contributes a page of its own matching events. -/
theorem collectRecent_pages (cursor : Option Int64) (limit : Nat)
    {engines : List (String × db.Engine)}
    (hquery : ∀ p ∈ engines, ∀ qf n, ∃ rows, db.queryRecent p.2 qf n = .ok rows)
    (hread : ∀ p ∈ engines, ∀ r ∈ (db.visible p.2).filter (db.admits (toQueryFilter filter)),
      fromEventRef tf r = pure (g r)) :
    ∃ pages, collectRecent tf (buildQueryFilter filter cursor) limit engines = pure pages.flatten ∧
      List.Forall₂ (IsPage LlmEvent.tsNs limit)
        (engines.map fun p => below LlmEvent.tsNs cursor
          (((db.visible p.2).filter (db.admits (toQueryFilter filter))).map g)) pages := by
  induction engines with
  | nil => exact ⟨[], rfl, .nil⟩
  | cons p rest ih =>
    obtain ⟨tier, eng⟩ := p
    obtain ⟨pages, hpages, hforall⟩ := ih (fun p hp => hquery p (by simp [hp]))
      fun p hp => hread p (by simp [hp])
    obtain ⟨rows, hrows⟩ := hquery (tier, eng) (by simp) (buildQueryFilter filter cursor) limit
    have hpage : IsPage LogEvent.tsNs limit (below LogEvent.tsNs cursor
        ((db.visible eng).filter (db.admits (toQueryFilter filter)))) rows := by
      rw [← filter_buildQueryFilter]
      exact db.query_newest hrows
    have hmem : ∀ r ∈ below LogEvent.tsNs cursor
        ((db.visible eng).filter (db.admits (toQueryFilter filter))),
        fromEventRef tf r = pure (g r) := by
      intro r hr
      refine hread (tier, eng) (by simp) r ?_
      cases cursor with
      | none => exact hr
      | some c => exact List.mem_of_mem_filter hr
    have hmapM : rows.mapM (readRow tf) = pure (rows.map g) := by
      refine Fallible.mapM_eq_pure fun r hr => readRow_eq_pure (hmem r ?_)
      obtain ⟨left, hperm, -⟩ := hpage
      exact hperm.mem_iff.mpr (List.mem_append_left _ hr)
    refine ⟨rows.map g :: pages, ?_, ?_⟩
    · rw [collectRecent, hrows]
      simp only [kdbErr, Except.mapError, Fallible.ofExcept_ok, pure_bind, hmapM, hpages,
        List.flatten_cons]
    · rw [List.map_cons]
      refine .cons ?_ hforall
      rw [below_map fun r hr => (fields_of_fromEventRef (hread (tier, eng) (by simp) r hr)).2.1]
      exact hpage.map LogEvent.tsNs fun r hr => (fields_of_fromEventRef (hmem r hr)).2.1

/-- A query returns the newest matching events of all engines together. -/
theorem query_isPage {s : KdbStore db} (cursor : Option Int64) (limit : Nat)
    (hquery : ∀ p ∈ s.engines, ∀ qf n, ∃ rows, db.queryRecent p.2 qf n = .ok rows)
    (hread : ∀ r ∈ s.matchingRows filter, fromEventRef tf r = pure (g r)) :
    ∃ page, s.query tf filter limit cursor = pure page ∧
      IsPage LlmEvent.tsNs limit
        (below LlmEvent.tsNs cursor ((s.matchingRows filter).map g)) page := by
  obtain ⟨pages, hpages, hforall⟩ := collectRecent_pages cursor limit hquery
    fun p hp r hr => hread r (List.mem_flatMap.mpr ⟨p, hp, hr⟩)
  refine ⟨_, by rw [query, hpages, pure_bind], ?_⟩
  have hunion : (s.engines.map fun p => below LlmEvent.tsNs cursor
      (((db.visible p.2).filter (db.admits (toQueryFilter filter))).map g)).flatten =
      below LlmEvent.tsNs cursor ((s.matchingRows filter).map g) := by
    rw [matchingRows]
    induction s.engines with
    | nil => simp
    | cons p rest ih =>
      rw [List.map_cons, List.flatten_cons, ih, List.flatMap_cons, List.map_append, below_append]
  rw [← hunion]
  exact isPage_merge LlmEvent.tsNs hforall

end Pages

/-! ## The export walks the pages -/

/-- Where every query returns, the loop is the walk over the pages. -/
theorem exportLoop_eq_walk {s : KdbStore db} {tf : TextFormats} {filter : EventFilter}
    {next : Option Int64 → List LlmEvent}
    (hnext : ∀ cursor, s.query tf filter exportPage cursor = pure (next cursor)) :
    ∀ fuel cursor calls, s.exportLoop tf filter fuel cursor calls =
      pure ((walk LlmEvent.tsNs next fuel cursor).map fun out =>
        calls ++ out.map (llmToSummary tf)) := by
  intro fuel
  induction fuel with
  | zero => exact fun _ _ => rfl
  | succ fuel ih =>
    intro cursor calls
    rw [exportLoop, hnext, pure_bind, walk]
    cases (next cursor).getLast? with
    | none => simp
    | some last =>
      simp only [ih, Option.map_map]
      congr 2
      funext out
      simp

/-- The export ends, and reports every matching event exactly once if and only if no two of them
with the same timestamp are on different sides of a page's end. -/
theorem export_of_pages {s : KdbStore db} {tf : TextFormats} {filter : EventFilter}
    {g : LogEvent → LlmEvent}
    (hquery : ∀ p ∈ s.engines, ∀ qf n, ∃ rows, db.queryRecent p.2 qf n = .ok rows)
    (hread : ∀ r ∈ s.matchingRows filter, fromEventRef tf r = pure (g r)) :
    ∃ calls, (∀ fuel, (s.matchingRows filter).length < fuel →
        s.exportEvents tf filter fuel = pure (some calls)) ∧
      (calls.Perm (((s.matchingRows filter).map g).map (llmToSummary tf)) ↔
        NoTie exportPage (sortedKeys LlmEvent.tsNs ((s.matchingRows filter).map g))) := by
  have hpages := fun cursor => query_isPage cursor exportPage hquery hread
  choose next hnext hpage using hpages
  obtain ⟨out, hout, -, hperm, hlt⟩ := walk_spec LlmEvent.tsNs (by decide) hpage
    ((s.matchingRows filter).length + 1) none (by simp [below])
  refine ⟨out.map (llmToSummary tf), fun fuel hfuel => ?_, fun hcalls => ?_, fun h => ?_⟩
  · rw [exportEvents, exportLoop_eq_walk hnext, walk_of_le LlmEvent.tsNs hout hfuel]
    rfl
  · by_contra htie
    have hlen := hcalls.length_eq
    have := hlt htie
    simp only [below, List.length_map] at hlen this
    omega
  · exact (hperm h).map _

end KdbStore

/-- Rows that can be read one by one are read by one function. -/
theorem exists_reading {tf : TextFormats} {rows : List LogEvent} {events : List LlmEvent}
    (h : List.Forall₂ (fun r ev => fromEventRef tf r = pure ev) rows events) :
    ∃ g : LogEvent → LlmEvent, rows.map g = events ∧ ∀ r ∈ rows, fromEventRef tf r = pure (g r) := by
  refine ⟨fun r => (fromEventRef tf r).value?.getD sampleEvent, ?_⟩
  induction h with
  | nil => simp
  | cons hr _ ih => simpa [hr, ih.1] using ih.2

namespace KdbStore

variable {db : Keplordb}

/-- The order of the engines does not change what matches. -/
theorem matchingRows_perm {s s' : KdbStore db} (h : s'.engines.Perm s.engines) (filter : EventFilter) :
    (s'.matchingRows filter).Perm (s.matchingRows filter) :=
  h.flatMap_right _

end KdbStore

/-- For every store whose matching rows can be read, in every order of its engines, for every filter,
cursor and limit: a query returns matching events, none of them twice, newest first, as many as there are
up to the limit, and nothing it leaves out is newer than anything it returns. -/
theorem query_is_top_of_union (db : Keplordb) (s s' : KdbStore db) (tf : TextFormats)
    (filter : EventFilter) (limit : Nat) (cursor : Option Int64) (events : List LlmEvent)
    (horder : s'.engines.Perm s.engines)
    (hquery : ∀ p ∈ s.engines, ∀ qf n, ∃ rows, db.queryRecent p.2 qf n = .ok rows)
    (hread : List.Forall₂ (fun r ev => fromEventRef tf r = pure ev) (s.matchingRows filter) events) :
    ∃ page left, s'.query tf filter limit cursor = pure page ∧
      (page ++ left).Perm (below LlmEvent.tsNs cursor events) ∧
      (((below LlmEvent.tsNs cursor events).map LlmEvent.id).Nodup → (page.map LlmEvent.id).Nodup) ∧
      page.Pairwise (fun a b => b.tsNs ≤ a.tsNs) ∧
      page.length = min limit (below LlmEvent.tsNs cursor events).length ∧
      ∀ e ∈ page, ∀ e' ∈ left, e'.tsNs ≤ e.tsNs := by
  obtain ⟨g, rfl, hall⟩ := exists_reading hread
  have hrows := KdbStore.matchingRows_perm horder filter
  obtain ⟨page, hpage, hispage⟩ := KdbStore.query_isPage cursor limit
    (fun p hp => hquery p (horder.mem_iff.mp hp)) fun r hr => hall r (hrows.mem_iff.mp hr)
  obtain ⟨left, hperm, hsorted, hcross, hle, hfew⟩ :=
    hispage.perm _ (below_perm _ (hrows.symm.map g) cursor)
  refine ⟨page, left, hpage, hperm.symm, ?_, hsorted, ?_, hcross⟩
  · intro hnodup
    have hids := (hperm.map LlmEvent.id).nodup_iff.mp hnodup
    rw [List.map_append] at hids
    exact hids.of_append_left
  · have hlength := hperm.length_eq
    rw [List.length_append] at hlength
    rcases Nat.lt_or_ge page.length limit with hlt | hge
    · rw [hfew hlt, List.length_nil] at hlength
      omega
    · omega

/-- An event of an instant. -/
def eventAtNs (tsNs : Int64) : LlmEvent := { sampleEvent with metadata := none, tsNs := tsNs }

/-- Two tiers with an event each. -/
def twoTiers : KdbStore memoryDb where
  engines := [("free", { segs := [[toLogEvent textFormats (eventAtNs 1700000000000000000)]] }),
    ("pro", { segs := [[toLogEvent textFormats (eventAtNs 1700000000000000001)]] })]
  nodup := by decide

/-- The same two, met in the other order. -/
def twoTiersReversed : KdbStore memoryDb where
  engines := twoTiers.engines.reverse
  nodup := by decide

/-- With a limit of one, one of the two is returned and the other is not newer. -/
theorem query_top_of_two_tiers :
    ∃ page left, twoTiersReversed.query textFormats {} 1 none = pure page ∧ page.length = 1 ∧
      (page ++ left).Perm
        [norm (eventAtNs 1700000000000000000), norm (eventAtNs 1700000000000000001)] ∧
      ∀ e ∈ page, ∀ e' ∈ left, e'.tsNs ≤ e.tsNs := by
  have hreads : ∀ tsNs, fromEventRef textFormats (toLogEvent textFormats (eventAtNs tsNs))
      = pure (norm (eventAtNs tsNs)) := fun _ => fromEventRef_toLogEvent fun v hv => by cases hv
  have hread : List.Forall₂ (fun r ev => fromEventRef textFormats r = pure ev)
      (twoTiers.matchingRows {})
      [norm (eventAtNs 1700000000000000000), norm (eventAtNs 1700000000000000001)] :=
    .cons (hreads _) (.cons (hreads _) .nil)
  obtain ⟨page, left, hpage, hperm, -, -, hlength, hcross⟩ :=
    query_is_top_of_union memoryDb twoTiers twoTiersReversed textFormats {} 1 none _
      (List.reverse_perm _) (fun _ _ _ _ => ⟨_, rfl⟩) hread
  exact ⟨page, left, hpage, hlength, hperm, hcross⟩

/-- For every store whose rows can be read and every filter, the export ends; and it calls back
exactly once for every visible matching event if and only if, in the order of their timestamps, no
event that ends a page of a thousand shares its timestamp with the next. -/
theorem export_complete_iff (db : Keplordb) (s : KdbStore db) (tf : TextFormats)
    (filter : EventFilter) (events : List LlmEvent)
    (hquery : ∀ p ∈ s.engines, ∀ qf n, ∃ rows, db.queryRecent p.2 qf n = .ok rows)
    (hread : List.Forall₂ (fun r ev => fromEventRef tf r = pure ev) (s.matchingRows filter) events) :
    ∃ calls, (∀ fuel, events.length < fuel → s.exportEvents tf filter fuel = pure (some calls)) ∧
      (calls.Perm (events.map (llmToSummary tf)) ↔
        NoTie KdbStore.exportPage (sortedKeys LlmEvent.tsNs events)) := by
  obtain ⟨g, hevents, hall⟩ := exists_reading hread
  obtain ⟨calls, hcalls, hiff⟩ := KdbStore.export_of_pages hquery hall
  rw [hevents] at hiff
  exact ⟨calls, fun fuel h => hcalls fuel (by rw [hread.length_eq]; exact h), hiff⟩

/-- A store with one event. -/
def oneEvent : KdbStore memoryDb where
  engines := [("free", { segs := [[toLogEvent textFormats sampleEvent]] })]

/-- It is exported. -/
theorem export_complete_one_event :
    ∃ calls, (∀ fuel, 1 < fuel → oneEvent.exportEvents textFormats {} fuel = pure (some calls)) ∧
      calls.Perm [llmToSummary textFormats (norm sampleEvent)] := by
  have hreads : MetadataReads textFormats sampleEvent := by
    intro v hv
    cases hv
    exact TextFormats.fromJson_toJson (by decide) rfl
  have hread : List.Forall₂ (fun r ev => fromEventRef textFormats r = pure ev)
      (oneEvent.matchingRows {}) [norm sampleEvent] :=
    .cons (fromEventRef_toLogEvent hreads) .nil
  obtain ⟨calls, hcalls, hiff⟩ := export_complete_iff memoryDb oneEvent textFormats {}
    [norm sampleEvent] (fun _ _ _ _ => ⟨_, rfl⟩) hread
  exact ⟨calls, hcalls, hiff.mpr (noTie_of_length_lt (by simp [length_sortedKeys, KdbStore.exportPage]))⟩

/-- An event without metadata, by its number. -/
def numberedEvent (i : Nat) : LlmEvent :=
  { sampleEvent with id := ⟨BitVec.ofNat 128 i⟩, metadata := none }

/-- A store with a thousand and one events of one instant. -/
def crowded : KdbStore memoryDb where
  engines :=
    [("free", { segs := [(List.range 1001).map fun i => toLogEvent textFormats (numberedEvent i)] })]

theorem admits_empty (r : LogEvent) : MemoryEngine.admits (toQueryFilter {}) r = true := rfl

theorem matchingRows_crowded : crowded.matchingRows {} =
    (List.range 1001).map fun i => toLogEvent textFormats (numberedEvent i) := by
  rw [KdbStore.matchingRows, crowded, List.flatMap_singleton]
  have hvisible : ∀ rows : List LogEvent, memoryDb.visible ({ segs := [rows] } : MemoryEngine) = rows :=
    fun rows => by simp [memoryDb, MemoryEngine.visible]
  rw [hvisible]
  exact List.filter_eq_self.mpr fun r _ => admits_empty r

/-- One of them is never reported. -/
theorem crowded_instant_loses_an_event :
    ∃ calls, (∀ fuel, 1001 < fuel → crowded.exportEvents textFormats {} fuel = pure (some calls)) ∧
      ¬ calls.Perm (((List.range 1001).map fun i => norm (numberedEvent i)).map
        (llmToSummary textFormats)) := by
  have hreads : ∀ i, fromEventRef textFormats (toLogEvent textFormats (numberedEvent i)) =
      pure (norm (numberedEvent i)) := fun i => fromEventRef_toLogEvent fun v hv => by cases hv
  have hall : ∀ r ∈ crowded.matchingRows {}, fromEventRef textFormats r =
      pure ((fromEventRef textFormats r).value?.getD sampleEvent) := by
    rw [matchingRows_crowded]
    intro r hr
    obtain ⟨i, -, rfl⟩ := List.mem_map.mp hr
    simp [hreads]
  obtain ⟨calls, hcalls, hiff⟩ := KdbStore.export_of_pages (fun _ _ _ _ => ⟨_, rfl⟩) hall
  simp only [matchingRows_crowded, List.map_map, Function.comp_def, hreads, Fallible.value?_pure,
    Option.getD_some, List.length_map, List.length_range] at hcalls hiff
  refine ⟨calls, hcalls, fun hperm => ?_⟩
  rw [List.map_map] at hperm
  have hkeys : sortedKeys LlmEvent.tsNs ((List.range 1001).map fun i => norm (numberedEvent i)) =
      List.replicate 1001 1700000000000000000 := by
    have hkey : ∀ e ∈ (List.range 1001).map fun i => norm (numberedEvent i),
        e.tsNs = 1700000000000000000 := by
      intro e he
      obtain ⟨i, -, rfl⟩ := List.mem_map.mp he
      rfl
    have hconst := sortedKeys_of_const LlmEvent.tsNs hkey
    rwa [List.length_map, List.length_range] at hconst
  have hno := hiff.mp hperm 0 1700000000000000000
  rw [hkeys] at hno
  exact hno (by rw [List.getElem?_replicate]; rfl) (by rw [List.getElem?_replicate]; rfl)

end Keplor.Store
