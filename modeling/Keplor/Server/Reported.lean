import Keplor.Server.Receipts
import Keplor.Server.Viewing
import Keplor.Store.ArchiveProgress
import Keplor.Store.Filters

/-!
# A payload, and what a reader is shown of it

Between the `POST` that brings a payload and the `GET` that lists it there are six conversions:
`process_event`, `to_log_event`, the engine's filter, `from_event_ref`, `llm_to_summary` and the
handler's own. `reported` is the whole of it in one step, from the payload and the response its sender
got. It says what a client can rely on, and what it cannot: an empty text comes back absent, an error
kind the server does not know comes back as `other`, and a key id is the authenticated one.

`posted_event_is_listed`: a query the event satisfies lists exactly that, as long as the page has room
for everything that matches.
-/

set_option autoImplicit false

namespace Keplor.Server

open Keplor.Core Keplor.Lib Keplor.Pricing Keplor.Store

/-! ## 1. What is reported of a payload -/

/-- The error kinds that have a `ProviderError` of their own. -/
def knownKinds : List String :=
  ["rate_limited", "invalid_request", "auth_failed", "context_length_exceeded", "content_filtered",
    "upstream_timeout", "upstream_unavailable"]

/-- The name an error is listed under. -/
def reportedError (e : IngestError) : String := if e.kind ∈ knownKinds then e.kind else "other"

/-- The time an event is listed under: the payload's own, or the clock's. -/
def reportedTime (env : Surroundings) : Option TimestampInput → Int64
  | some (.epochNanos ns) => ns
  | some (.iso8601 s) =>
    match env.rfc3339 s with
    | .ok nanos => Int64.ofInt nanos
    | .error _ => env.builtAt
  | none => env.builtAt

/-- What a reader is shown of a payload whose sender got this response. -/
def reported (env : Surroundings) (event : IngestEvent) (authenticatedKeyId : Option String)
    (response : IngestResponse) : EventResponse where
  id := response.id
  timestamp := reportedTime env event.timestamp
  model := response.model
  provider := response.provider
  usage := ⟨event.usage.inputTokens, event.usage.outputTokens, event.usage.cacheReadInputTokens,
    event.usage.cacheCreationInputTokens, event.usage.reasoningTokens⟩
  costNanodollars := response.costNanodollars
  latencyTotalMs := event.latency.totalMs
  latencyTtftMs := event.latency.ttftMs
  httpStatus := event.httpStatus
  source := event.source.bind optSmol
  userId := event.userId.bind optSmol
  apiKeyId := (authenticatedKeyId.or event.apiKeyId).bind optSmol
  endpoint := event.endpoint
  streaming := event.flags.streaming
  error := event.error.map reportedError
  metadata := event.metadata
  clientIp := (event.clientIp.bind env.tf.ip.parse).map env.tf.ip.print
  userAgent := event.userAgent.bind optSmol

/-! ## 2. The conversions, one after the other -/

theorem providerErrorTypeKey_normError (e : ProviderError) :
    providerErrorTypeKey (normError e) = providerErrorTypeKey e := by
  rcases e with ⟨⟨_ | _⟩⟩ | _ | _ | _ | _ | _ | _ | _ <;> rfl

/-- The names on the way out are the names on the way in. -/
theorem providerErrorTypeKey_errorFromIngest (e : IngestError) :
    providerErrorTypeKey (errorFromIngest e) = reportedError e := by
  rw [reportedError]
  split
  · rename_i hknown
    simp only [knownKinds, List.mem_cons, List.not_mem_nil, or_false] at hknown
    rcases hknown with h | h | h | h | h | h | h <;> simp [errorFromIngest, h, providerErrorTypeKey]
  · rename_i hother
    simp only [knownKinds, List.mem_cons, List.not_mem_nil, or_false, not_or] at hother
    obtain ⟨h₁, h₂, h₃, h₄, h₅, h₆, h₇⟩ := hother
    simp only [errorFromIngest]
    rfl

/-- The other flags do not touch the streaming bit, and neither does the row. -/
theorem has_streaming_flagsFromIngest (f : IngestFlags) :
    has (flagsFromIngest f).declared.bits EventFlags.STREAMING = f.streaming := by
  rcases f with ⟨_ | _, _ | _, _ | _, _ | _, _ | _⟩ <;> rfl

/-- What the event of a payload takes from it and a reader is shown. -/
structure BuiltFrom (env : Surroundings) (event : IngestEvent) (e : LlmEvent) : Prop where
  time : e.tsNs = reportedTime env event.timestamp
  latency : e.latency.totalMs = event.latency.totalMs ∧ e.latency.ttftMs = event.latency.ttftMs
  status : e.httpStatus = event.httpStatus
  source : e.source = event.source
  user : e.userId = event.userId
  endpoint : e.endpoint = event.endpoint
  flags : e.flags = flagsFromIngest event.flags
  error : e.error = event.error.map errorFromIngest
  metadata : e.metadata = event.metadata
  clientIp : e.clientIp = event.clientIp.bind env.tf.ip.parse
  userAgent : e.userAgent = event.userAgent

theorem reportedTime_of_parse {env : Surroundings} {s : String} {ts : Int64}
    (h : parseIso8601 env s = .ok ts) : ts = reportedTime env (some (.iso8601 s)) := by
  cases hdate : env.rfc3339 s with
  | error m =>
    rw [parseIso8601, hdate] at h
    cases h
  | ok nanos =>
    simp only [parseIso8601, hdate] at h
    simp only [reportedTime, hdate]
    exact (Except.ok.inj h).symm

theorem builtFrom_of_buildLlmEvent {env : Surroundings} {event : IngestEvent} {provider : Provider}
    {model : String} {cost : Int64} {usage : Usage} {tier : String} {e : LlmEvent}
    (h : buildLlmEvent env event provider model cost usage tier = .ok e) : BuiltFrom env event e := by
  unfold buildLlmEvent at h
  dsimp only at h
  split at h
  · rename_i hts
    cases h
    exact ⟨by rw [hts]; rfl, ⟨rfl, rfl⟩, rfl, rfl, rfl, rfl, rfl, rfl, rfl, rfl, rfl⟩
  · rename_i hts
    obtain ⟨ts, hparsed, h⟩ := bind_eq_ok h
    cases h
    refine ⟨?_, ⟨rfl, rfl⟩, rfl, rfl, rfl, rfl, rfl, rfl, rfl, rfl, rfl⟩
    rw [hts]
    exact reportedTime_of_parse hparsed
  · rename_i hts
    cases h
    exact ⟨by rw [hts]; rfl, ⟨rfl, rfl⟩, rfl, rfl, rfl, rfl, rfl, rfl, rfl, rfl, rfl⟩

/-- The last conversion but one gives the metadata back. -/
theorem metadata_reads {tf : TextFormats} {e : LlmEvent} (h : MetadataReads tf e) :
    (e.metadata.map tf.toJson).bind tf.fromJson = e.metadata := by
  cases hm : e.metadata with
  | none => rfl
  | some v => simp [h v hm]

/-- The authenticated key comes before the payload's, and nothing else of the payload changes. -/
theorem apiKeyId_withAuthenticatedKey (event : IngestEvent) (authenticatedKeyId : Option String) :
    (withAuthenticatedKey event authenticatedKeyId).apiKeyId = authenticatedKeyId.or event.apiKeyId := by
  cases authenticatedKeyId <;> rfl

theorem BuiltFrom.withAuthenticatedKey {env : Surroundings} {event : IngestEvent} {e : LlmEvent}
    {authenticatedKeyId : Option String}
    (h : BuiltFrom env (withAuthenticatedKey event authenticatedKeyId) e) : BuiltFrom env event e := by
  cases authenticatedKeyId with
  | none => exact h
  | some keyId => exact ⟨h.1, h.2, h.3, h.4, h.5, h.6, h.7, h.8, h.9, h.10, h.11⟩

/-- The row of an accepted payload reads as what is reported of it. -/
theorem reported_of_row {settings : Settings} {env : Surroundings} {catalog : Catalog}
    {event : IngestEvent} {authenticatedKeyId : Option String} {tier : String} {made : Made}
    (htf : settings.tf = env.tf)
    (hmade : processEvent env catalog event authenticatedKeyId tier = pure made)
    (hmetadata : MetadataReads env.tf made.1) {e : LlmEvent}
    (he : fromEventRef env.tf (toLogEvent env.tf made.1) = pure e) :
    summaryToResponse env.tf (llmToSummary env.tf e)
      = reported env event authenticatedKeyId (respond settings made.1.id made) := by
  obtain ⟨-, hbuilt⟩ := processEvent_eq_pure hmade
  have hcopied := copied_of_buildLlmEvent hbuilt
  have hfrom := (builtFrom_of_buildLlmEvent hbuilt).withAuthenticatedKey
  rw [fromEventRef_toLogEvent hmetadata] at he
  rw [← Fallible.pure_inj he, summaryToResponse_llmToSummary,
    respond_eq_receipt (consistent_of_processEvent hmade)]
  have hmeta := metadata_reads hmetadata
  have hkey : made.1.apiKeyId = authenticatedKeyId.or event.apiKeyId := by
    rw [hcopied.2.2.2.1, apiKeyId_withAuthenticatedKey]
  simp only [llmEventToResponse, Store.norm, reported, receipt, hfrom.time, hfrom.latency.1, hfrom.latency.2,
    hfrom.status, hfrom.source, hfrom.user, hfrom.endpoint, hfrom.flags, hfrom.error, hfrom.metadata,
    hfrom.clientIp, hfrom.userAgent, hkey, hcopied.2.2.1, usageFromIngest, htf, has_streaming_flagsFromIngest,
    Option.map_map]
  rw [hfrom.metadata] at hmeta
  rw [hmeta]
  congr 1
  exact Option.map_congr fun kind _ => by
    rw [Function.comp, Function.comp, providerErrorTypeKey_normError,
      providerErrorTypeKey_errorFromIngest]

/-! ## 3. The page it is on -/

variable {db : Keplordb}

/-- Without a cursor only the filter's own conditions are left. -/
theorem filter_admits (f : EventFilter) (rows : List LogEvent) :
    rows.filter (fun r => db.admits (toQueryFilter f) r && (toQueryFilter f).beforeCursor r)
      = rows.filter (db.admits (toQueryFilter f)) := by
  simp [QueryFilter.beforeCursor, toQueryFilter]

/-- The engines give no more than matches. -/
theorem length_collectRecent_le {tf : TextFormats} {f : EventFilter} {limit : Nat}
    {engines : List (String × db.Engine)} : ∀ {out : List LlmEvent},
      KdbStore.collectRecent tf (toQueryFilter f) limit engines = pure out →
      out.length ≤ (engines.flatMap fun p =>
        (db.visible p.2).filter (db.admits (toQueryFilter f))).length := by
  induction engines with
  | nil =>
    intro out h
    rw [← Fallible.pure_inj h]
    exact Nat.le_refl 0
  | cons p rest ih =>
    obtain ⟨tier, eng⟩ := p
    intro out h
    rw [KdbStore.collectRecent] at h
    obtain ⟨rows, hrows, h⟩ := Fallible.bind_eq_pure h
    obtain ⟨read, hread, h⟩ := Fallible.bind_eq_pure h
    obtain ⟨more, hmore, h⟩ := Fallible.bind_eq_pure h
    have hok : db.queryRecent eng (toQueryFilter f) limit = .ok rows := by
      have hkdb := Fallible.ofExcept_eq_pure hrows
      cases hq : db.queryRecent eng (toQueryFilter f) limit with
      | error m => rw [hq] at hkdb; cases hkdb
      | ok rows' => rw [hq] at hkdb; cases hkdb; rfl
    obtain ⟨left, hperm, -⟩ := db.query_newest hok
    have hlen : ((db.visible eng).filter (db.admits (toQueryFilter f))).length
        = rows.length + left.length := by
      rw [← filter_admits, hperm.length_eq, List.length_append]
    have hsame := (KdbStore.forall₂_of_mapM hread).length_eq
    have hrest := ih hmore
    rw [← Fallible.pure_inj h, List.length_append, List.flatMap_cons, List.length_append, hlen]
    omega

/-- What an event satisfies, its row's columns pass. -/
theorem admits_of_satisfies (hdoc : db.FiltersAsDocumented) (tf : TextFormats) {f : EventFilter}
    (hf : f.NonEmpty) {e : LlmEvent} (h : Satisfies f e) :
    db.admits (toQueryFilter f) (toLogEvent tf e) = true := by
  refine (admits_iff hdoc tf hf e).mpr ⟨h.1, fun m hm => ?_, fun m hm => ?_⟩
  · obtain ⟨status, hstatus, hle⟩ := h.2.min m hm
    rw [hstatus]
    exact hle
  · obtain ⟨status, hstatus, hlt⟩ := h.2.max m hm
    rw [hstatus]
    exact hlt

/-- What matches in one engine is part of what matches. -/
theorem length_matching_le {s : KdbStore db} (f : EventFilter) {tier : String} {eng : db.Engine}
    (hget : s.get tier = some eng) :
    ((db.visible eng).filter (db.admits (toQueryFilter f))).length ≤ (s.matchingRows f).length := by
  rw [KdbStore.matchingRows, List.flatMap_def]
  refine (List.sublist_flatten_of_mem ?_).length_le
  exact List.mem_map.mpr ⟨(tier, eng), mem_of_lookup hget, rfl⟩

/-- Where everything that matches has room, an answered query shows every row that matches. -/
theorem exists_listed {tf : TextFormats} {joinErrorText : String} {archiver : Option Archiver}
    {s : KdbStore db} {b : Bucket} {q : EventQuery} {answer : EventListResponse}
    (hcursor : q.cursor = none) (hlive : q.includeArchived = false)
    (hroom : (s.matchingRows q.filter).length ≤ q.pageLimit)
    (hanswer : queryEvents tf joinErrorText archiver s b q = .ok answer) {r : LogEvent}
    (hr : s.Sees r) (hadmits : db.admits (toQueryFilter q.filter) r = true) :
    ∃ e, fromEventRef tf r = pure e ∧ summaryToResponse tf (llmToSummary tf e) ∈ answer.events := by
  unfold queryEvents at hanswer
  split at hanswer
  · cases hanswer
  · cases hanswer
  · rename_i events hquery
    have hrun : s.query tf q.filter (q.pageLimit + 1) q.cursor = pure events := hquery
    cases hanswer
    have hplain : buildQueryFilter q.filter none = toQueryFilter q.filter := rfl
    rw [hcursor, KdbStore.query, hplain] at hrun
    obtain ⟨out, hout, hsorted⟩ := Fallible.bind_eq_pure hrun
    have hfew := length_collectRecent_le hout
    rw [← KdbStore.readTiers_engines] at hout
    obtain ⟨tier, eng, hget, hmem⟩ := KdbStore.sees_iff.mp hr
    obtain ⟨read, hread, hsub⟩ :=
      KdbStore.readTier_of_readTiers hout (KdbStore.mem_tiers_of_get hget)
    obtain ⟨rows, rest, hspec⟩ := KdbStore.readTier_spec hget hread
    have hmatch : out.length ≤ (s.matchingRows q.filter).length := hfew
    have hshort : read.length < q.pageLimit + 1 := by
      have hrows := length_matching_le q.filter hget
      rw [← filter_admits, (show _ = _ from hspec.perm.length_eq), List.length_append,
        ← hspec.length_eq] at hrows
      omega
    obtain ⟨e, he, hre⟩ := hspec.exists_event rfl hshort hmem hadmits
    refine ⟨e, hre, ?_⟩
    have hall : events = out.insertionSort (Desc LlmEvent.tsNs) := by
      rw [← Fallible.pure_inj hsorted, List.take_of_length_le]
      rw [List.length_insertionSort]
      omega
    have hpage : livePage tf q events
        = (events.map (llmToSummary tf)).map (summaryToResponse tf) := by
      rw [livePage, List.take_of_length_le]
      rw [hall, List.length_map, List.length_insertionSort]
      omega
    simp only [hlive, Bool.false_eq_true, if_false, hpage]
    refine List.mem_map_of_mem (List.mem_map_of_mem ?_)
    rw [hall, List.mem_insertionSort]
    exact hsub he

/-! ## 4. From the payload to the page -/

/-- Every query that the event satisfies, and whose page has room for all that matches, lists the event
like this when it is answered. -/
def Lists (tf : TextFormats) (s : KdbStore db) (e : LlmEvent) (x : EventResponse) : Prop :=
  ∀ (joinErrorText : String) (archiver : Option Archiver) (b : Bucket) (q : EventQuery)
    (answer : EventListResponse), q.cursor = none → q.includeArchived = false → q.filter.NonEmpty →
    Satisfies q.filter e → (s.matchingRows q.filter).length ≤ q.pageLimit →
    queryEvents tf joinErrorText archiver s b q = .ok answer → x ∈ answer.events

/-- `serde_json` reads the metadata of a payload back from its own text. -/
def PayloadReads (tf : TextFormats) (event : IngestEvent) : Prop :=
  ∀ v, event.metadata = some v → tf.fromJson (tf.toJson v) = some v

theorem lists_of_sees (hdoc : db.FiltersAsDocumented) {settings : Settings} {env : Surroundings}
    {catalog : Catalog} {event : IngestEvent} {authenticatedKeyId : Option String} {tier : String}
    {made : Made} (htf : settings.tf = env.tf)
    (hmade : processEvent env catalog event authenticatedKeyId tier = pure made)
    (hmetadata : PayloadReads env.tf event) {s : KdbStore db}
    (hsees : s.Sees (toLogEvent env.tf made.1)) :
    Lists env.tf s made.1
      (reported env event authenticatedKeyId (respond settings made.1.id made)) := by
  intro joinErrorText archiver b q answer hcursor hlive hnames hsatisfies hroom hanswer
  have hreads : MetadataReads env.tf made.1 := by
    intro v hv
    have hfrom := (builtFrom_of_buildLlmEvent (processEvent_eq_pure hmade).2).withAuthenticatedKey
    rw [hfrom.metadata] at hv
    exact hmetadata v hv
  obtain ⟨e, he, hlisted⟩ := exists_listed hcursor hlive hroom hanswer hsees
    (admits_of_satisfies hdoc env.tf hnames hsatisfies)
  rw [← reported_of_row htf hmade hreads he]
  exact hlisted

/-- For every payload the pipeline accepts, once its row is visible: a query that the event satisfies
and whose page has room for all that matches lists what `reported` says, under the id, the model, the
provider and the cost its sender was told. -/
theorem posted_event_is_listed (db : Keplordb) (hdoc : db.FiltersAsDocumented) (settings : Settings)
    (env : Surroundings) (catalog : Catalog) (event : IngestEvent)
    (authenticatedKeyId : Option String) (tier : String) (made : Made) (htf : settings.tf = env.tf)
    (hmade : processEvent env catalog event authenticatedKeyId tier = pure made)
    (hmetadata : PayloadReads env.tf event)
    (s : KdbStore db) (hsees : s.Sees (toLogEvent env.tf made.1)) (joinErrorText : String)
    (archiver : Option Archiver) (b : Bucket) (q : EventQuery) (hcursor : q.cursor = none)
    (hlive : q.includeArchived = false) (hnames : q.filter.NonEmpty)
    (hsatisfies : Satisfies q.filter made.1)
    (hroom : (s.matchingRows q.filter).length ≤ q.pageLimit) (answer : EventListResponse)
    (hanswer : queryEvents env.tf joinErrorText archiver s b q = .ok answer) :
    reported env event authenticatedKeyId (respond settings made.1.id made) ∈ answer.events :=
  lists_of_sees hdoc htf hmade hmetadata hsees joinErrorText archiver b q answer hcursor hlive hnames
    hsatisfies hroom hanswer

/-- A request without a filter asks for every event. -/
theorem nonEmpty_noFilter : (EventQuery.filter {}).NonEmpty :=
  ⟨nofun, nofun, nofun, nofun, nofun, nofun, nofun⟩

theorem satisfies_noFilter (e : LlmEvent) : Satisfies (EventQuery.filter {}) e :=
  ⟨⟨nofun, nofun, nofun, nofun, nofun, nofun, nofun, nofun, nofun⟩, ⟨nofun, nofun⟩⟩

/-! A payload of an authenticated key, with an error of a kind the server does not know. -/

def oddPayload : IngestEvent :=
  { model := " GPT-4o ", provider := "OpenAI", costNanodollars := some 7, userId := some ""
    apiKeyId := some "victim", flags := { streaming := true, toolCalls := true }
    error := some { kind := "teapot", message := some "short and stout" } }

theorem oddPayload_accepted :
    (processEvent sampleSurroundings ⟨fun _ => none⟩ oddPayload (some "ops") "free").value?.isSome := by
  decide +kernel

def oddMade : Made :=
  (processEvent sampleSurroundings ⟨fun _ => none⟩ oddPayload (some "ops") "free").value?.get
    oddPayload_accepted

def oddStore : KdbStore memoryDb where
  engines := [("free", { segs := [[toLogEvent textFormats oddMade.1]] })]
  nodup := by decide

theorem sees_oddStore : oddStore.Sees (toLogEvent textFormats oddMade.1) :=
  ⟨_, List.mem_singleton_self _, by simp [memoryDb, MemoryEngine.visible]⟩

theorem posted_event_is_listed_of_odd_payload :
    ∃ answer, queryEvents textFormats "" none oddStore ⟨[], []⟩ {} = .ok answer ∧
      ∃ x ∈ answer.events, (x.model, x.provider, x.userId, x.apiKeyId, x.error, x.streaming)
        = ("gpt-4o", "openai", none, some "ops", some "other", true) := by
  have hmade : processEvent sampleSurroundings ⟨fun _ => none⟩ oddPayload (some "ops") "free"
      = pure oddMade := by
    obtain ⟨made, h⟩ := Fallible.exists_pure_of_value? oddPayload_accepted
    rw [h]
    simp [oddMade, h]
  have hanswers : (queryEvents textFormats "" none oddStore ⟨[], []⟩ {}).toOption.isSome := by
    decide +kernel
  cases hanswer : queryEvents textFormats "" none oddStore ⟨[], []⟩ {} with
  | error e =>
    rw [hanswer] at hanswers
    cases hanswers
  | ok answer =>
    refine ⟨answer, rfl, _, posted_event_is_listed memoryDb memoryDb_filtersAsDocumented sampleSettings
      sampleSurroundings ⟨fun _ => none⟩ oddPayload (some "ops") "free" oddMade rfl hmade nofun
      oddStore sees_oddStore "" none ⟨[], []⟩ {} rfl rfl nonEmpty_noFilter (satisfies_noFilter _)
      (by decide +kernel) answer hanswer, by decide +kernel⟩

end Keplor.Server
