import Keplor.Server.Schema
import Keplor.Store.Fetch

/-!
# `GET /v1/events` — live and archived events in one answer

`query_events` asks the live store for one event more than the page holds, and with
`include_archived=true` hands the page to `merge_archived_events`. That function lists the manifests
that overlap the window, fetches every file, keeps the events of the user and the window, appends
them to the page, sorts and cuts. The two halves do not share a filter: the live half is filtered by
the engine, the archived half by two comparisons of its own (`keepsArchived`).
-/

set_option autoImplicit false

namespace Keplor.Server

open Keplor.Lib Keplor.Core Keplor.Store

/-! ## The request and the response -/

/-- `EventQuery` -/
structure EventQuery where
  userId : Option String := none
  apiKeyId : Option String := none
  model : Option String := none
  provider : Option String := none
  source : Option String := none
  /-- `from` -/
  fromTs : Option Int64 := none
  /-- `to` -/
  toTs : Option Int64 := none
  statusMin : Option UInt16 := none
  statusMax : Option UInt16 := none
  userTag : Option String := none
  sessionTag : Option String := none
  limit : Option UInt32 := none
  cursor : Option Int64 := none
  includeArchived : Bool := false

/-- The page size: 50 by default, 1000 at most. -/
def EventQuery.pageLimit (q : EventQuery) : Nat := min (q.limit.getD 50).toNat 1000

/-- The user the request names, if it names one. -/
def EventQuery.named (q : EventQuery) : Option String := q.userId.filter (· ≠ "")

theorem EventQuery.named_eq {q : EventQuery} (h : q.userId ≠ some "") : q.named = q.userId := by
  rw [named]
  cases hu : q.userId with
  | none => rfl
  | some u =>
    have hne : u ≠ "" := fun he => h (he ▸ hu)
    rw [Option.filter_some, if_pos (decide_eq_true hne)]

theorem EventQuery.of_named {q : EventQuery} {u : String} (h : q.named = some u) :
    q.userId = some u ∧ u ≠ "" := by
  obtain ⟨hu, hne⟩ := Option.filter_eq_some_iff.mp h
  exact ⟨hu, of_decide_eq_true hne⟩

/-- The filter handed to the store. -/
def EventQuery.filter (q : EventQuery) : EventFilter where
  userId := q.userId
  apiKeyId := q.apiKeyId
  model := q.model
  provider := q.provider
  source := q.source
  fromTsNs := q.fromTs
  toTsNs := q.toTs
  httpStatusMin := q.statusMin
  httpStatusMax := q.statusMax
  metaUserTag := q.userTag
  metaSessionTag := q.sessionTag

/-- `UsageResponse` -/
structure UsageResponse where
  inputTokens : UInt32
  outputTokens : UInt32
  cacheReadInputTokens : UInt32
  cacheCreationInputTokens : UInt32
  reasoningTokens : UInt32
  deriving DecidableEq

/-- `EventResponse` -/
structure EventResponse where
  id : String
  timestamp : Int64
  model : String
  provider : String
  usage : UsageResponse
  costNanodollars : Int64
  latencyTotalMs : UInt32
  latencyTtftMs : Option UInt32
  httpStatus : Option UInt16
  source : Option String
  userId : Option String
  apiKeyId : Option String
  endpoint : String
  streaming : Bool
  error : Option String
  metadata : Option JsonValue
  clientIp : Option String
  userAgent : Option String
  deriving DecidableEq

/-- `EventListResponse` -/
structure EventListResponse where
  events : List EventResponse
  cursor : Option Int64
  hasMore : Bool
  hasArchivedData : Bool

/-- A summary of the live store as `query_events` reports it. -/
def summaryToResponse (tf : TextFormats) (e : EventSummary) : EventResponse where
  id := tf.ulid.print e.id
  timestamp := e.tsNs
  model := e.model
  provider := e.provider
  usage := ⟨e.inputTokens, e.outputTokens, e.cacheReadInputTokens, e.cacheCreationInputTokens,
    e.reasoningTokens⟩
  costNanodollars := e.costNanodollars
  latencyTotalMs := e.totalMs
  latencyTtftMs := e.ttftMs
  httpStatus := e.httpStatus
  source := e.source
  userId := e.userId
  apiKeyId := e.apiKeyId
  endpoint := e.endpoint
  streaming := e.streaming
  error := e.errorType
  metadata := e.metadataJson.bind tf.fromJson
  clientIp := e.clientIp
  userAgent := e.userAgent

/-- `llm_event_to_response`; its table of error names is the one of `provider_error_type_key`. -/
def llmEventToResponse (tf : TextFormats) (ev : LlmEvent) : EventResponse where
  id := tf.ulid.print ev.id
  timestamp := ev.tsNs
  model := ev.model
  provider := ev.provider.idKey
  usage := ⟨ev.usage.inputTokens, ev.usage.outputTokens, ev.usage.cacheReadInputTokens,
    ev.usage.cacheCreationInputTokens, ev.usage.reasoningTokens⟩
  costNanodollars := ev.costNanodollars
  latencyTotalMs := ev.latency.totalMs
  latencyTtftMs := ev.latency.ttftMs
  httpStatus := ev.httpStatus
  source := ev.source
  userId := ev.userId
  apiKeyId := ev.apiKeyId
  endpoint := ev.endpoint
  streaming := has ev.flags.bits EventFlags.STREAMING
  error := ev.error.map providerErrorTypeKey
  metadata := ev.metadata
  clientIp := ev.clientIp.map tf.ip.print
  userAgent := ev.userAgent

/-- The two conversions agree up to the metadata, which the live one reads back from its text. -/
theorem summaryToResponse_llmToSummary (tf : TextFormats) (ev : LlmEvent) :
    summaryToResponse tf (llmToSummary tf ev) = { llmEventToResponse tf ev with
      metadata := (ev.metadata.map tf.toJson).bind tf.fromJson } := rfl

/-! ## The merge -/

/-- The order of the merged events: newest first, and by id where the times agree. -/
def NewestFirst (x y : EventResponse) : Prop :=
  y.timestamp < x.timestamp ∨ (y.timestamp = x.timestamp ∧ y.id ≤ x.id)

instance : DecidableRel NewestFirst := fun x y =>
  inferInstanceAs (Decidable (y.timestamp < x.timestamp ∨ (y.timestamp = x.timestamp ∧ y.id ≤ x.id)))

/-- The checks an archived event has to pass. -/
def keepsArchived (userFilter : Option String) (fromTs toTs : Option Int64) (ev : LlmEvent) : Bool :=
  !(decide (ev.tsNs < fromTs.getD Int64.minValue) || decide (toTs.getD Int64.maxValue < ev.tsNs)) &&
    userFilter.all fun u => ev.userId == some u

theorem keepsArchived_iff {userFilter : Option String} {fromTs toTs : Option Int64} {e : LlmEvent} :
    keepsArchived userFilter fromTs toTs e = true ↔
      (∀ u, userFilter = some u → e.userId = some u) ∧ (∀ t, fromTs = some t → t ≤ e.tsNs) ∧
        ∀ t, toTs = some t → e.tsNs ≤ t := by
  have huser : (userFilter.all fun u => e.userId == some u) = true ↔
      ∀ u, userFilter = some u → e.userId = some u := by
    cases userFilter with
    | none => simp
    | some u => simp
  have hafter : ¬ e.tsNs < fromTs.getD Int64.minValue ↔ ∀ t, fromTs = some t → t ≤ e.tsNs := by
    cases fromTs with
    | none => simp
    | some t => simp
  have hbefore : ¬ toTs.getD Int64.maxValue < e.tsNs ↔ ∀ t, toTs = some t → e.tsNs ≤ t := by
    cases toTs with
    | none => simp
    | some t => simp
  rw [keepsArchived, Bool.and_eq_true, Bool.not_eq_true', Bool.or_eq_false_iff, decide_eq_false_iff_not,
    decide_eq_false_iff_not, huser, hafter, hbefore, and_comm]

/-- The events of the files that could be fetched; the others are logged and skipped. -/
def fetchedEvents (fetched : List (Except StoreError (List LlmEvent))) : List LlmEvent :=
  fetched.flatMap fun r =>
    match r with
    | .ok events => events
    | .error _ => []

/-- The second half of `merge_archived_events`: filter, append, sort, cut. -/
def mergeFetched (tf : TextFormats) (live : List EventResponse)
    (fetched : List (Except StoreError (List LlmEvent))) (userFilter : Option String)
    (fromTs toTs : Option Int64) (limit : Nat) : List EventResponse :=
  let archived := (fetchedEvents fetched).filter (keepsArchived userFilter fromTs toTs)
  ((live ++ archived.map (llmEventToResponse tf)).insertionSort NewestFirst).take limit

/-- `merge_archived_events`; without an archiver or a manifest the page stays as it is. -/
def mergeArchivedEvents (archiver : Option Archiver) (b : Bucket) (live : List EventResponse)
    (userFilter : Option String) (fromTs toTs : Option Int64) (limit : Nat) : List EventResponse :=
  match archiver with
  | none => live
  | some a =>
    let manifests := listArchives b userFilter fromTs toTs
    if manifests.isEmpty then live
    else mergeFetched a.formats live (manifests.map (fetchOne a b)) userFilter fromTs toTs limit

/-! ## The handler -/

variable {db : Keplordb}

/-- The page of the live half: one event more is asked for than the page holds. -/
def livePage (tf : TextFormats) (q : EventQuery) (events : List LlmEvent) : List EventResponse :=
  ((events.map (llmToSummary tf)).take q.pageLimit).map (summaryToResponse tf)

/-- `query_events`, while nothing else happens. -/
def queryEvents (tf : TextFormats) (joinErrorText : String) (archiver : Option Archiver)
    (s : KdbStore db) (b : Bucket) (q : EventQuery) : Except ServerError EventListResponse :=
  match (s.query tf q.filter (q.pageLimit + 1) q.cursor).run with
  | none => .error (.internal joinErrorText)
  | some (.error e) => .error (.store e)
  | some (.ok events) =>
    let page := livePage tf q events
    let hasMore := decide (q.pageLimit < events.length)
    .ok {
      events := if q.includeArchived then
          mergeArchivedEvents archiver b page q.userId q.fromTs q.toTs q.pageLimit else page
      cursor := if hasMore then page.getLast?.map EventResponse.timestamp else none
      hasMore := hasMore
      hasArchivedData := (ManifestStore.ofList b.manifests).anyOverlapping none
        (q.fromTs.getD Int64.minValue) (q.toTs.getD Int64.maxValue) }

end Keplor.Server
