import Keplor.Lib.Json.Struct
import Keplor.Server.Ingest
import Keplor.Store.RowRoundTrip

/-!
# `keplor-server/src/schema.rs` — from the body to the payload

A body is a JSON tree, with its members in the order and as often as they are written. `IngestEvent`
refuses a key it does not declare; the batch wrapper and the four records inside an event skip it.

So in a body that is accepted every key of an event is a declared one, and what nothing checks are the
keys of the wrapper and of `usage`, `latency`, `flags` and `error`. `video_seconds` and
`search_queries` are among those: `Usage` counts them, and `IngestUsage` does not declare them.
-/

set_option autoImplicit false

namespace Keplor.Server

open Keplor.Core Keplor.Lib Keplor.Lib.Json Keplor.Pricing Keplor.Store

/-! ## The records -/

/-- The fields of `IngestUsage`, all with `#[serde(default)]`. -/
def ingestUsageFields : List FieldDecl :=
  fieldsWith true ["input_tokens", "output_tokens", "cache_read_input_tokens",
    "cache_creation_input_tokens", "reasoning_tokens", "audio_input_tokens", "audio_output_tokens",
    "image_tokens", "tool_use_tokens"]

/-- `Deserialize for IngestUsage` -/
def decodeIngestUsage (j : Json) : Option IngestUsage := do
  let ms ← structMembers ingestUsageFields j
  return {
    inputTokens := ← defaulted toU32 ms "input_tokens" 0
    outputTokens := ← defaulted toU32 ms "output_tokens" 0
    cacheReadInputTokens := ← defaulted toU32 ms "cache_read_input_tokens" 0
    cacheCreationInputTokens := ← defaulted toU32 ms "cache_creation_input_tokens" 0
    reasoningTokens := ← defaulted toU32 ms "reasoning_tokens" 0
    audioInputTokens := ← defaulted toU32 ms "audio_input_tokens" 0
    audioOutputTokens := ← defaulted toU32 ms "audio_output_tokens" 0
    imageTokens := ← defaulted toU32 ms "image_tokens" 0
    toolUseTokens := ← defaulted toU32 ms "tool_use_tokens" 0 }

def ingestLatencyFields : List FieldDecl :=
  [⟨"ttft_ms", false⟩, ⟨"total_ms", true⟩, ⟨"time_to_close_ms", false⟩]

/-- `Deserialize for IngestLatency` -/
def decodeIngestLatency (j : Json) : Option IngestLatency := do
  let ms ← structMembers ingestLatencyFields j
  return {
    ttftMs := ← optional toU32 ms "ttft_ms"
    totalMs := ← defaulted toU32 ms "total_ms" 0
    timeToCloseMs := ← optional toU32 ms "time_to_close_ms" }

def ingestFlagsFields : List FieldDecl :=
  fieldsWith true ["streaming", "tool_calls", "reasoning", "stream_incomplete", "cache_used"]

/-- `Deserialize for IngestFlags` -/
def decodeIngestFlags (j : Json) : Option IngestFlags := do
  let ms ← structMembers ingestFlagsFields j
  return {
    streaming := ← defaulted toBool ms "streaming" false
    toolCalls := ← defaulted toBool ms "tool_calls" false
    reasoning := ← defaulted toBool ms "reasoning" false
    streamIncomplete := ← defaulted toBool ms "stream_incomplete" false
    cacheUsed := ← defaulted toBool ms "cache_used" false }

def ingestErrorFields : List FieldDecl := fieldsWith false ["kind", "message", "status"]

/-- `Deserialize for IngestError` -/
def decodeIngestError (j : Json) : Option IngestError := do
  let ms ← structMembers ingestErrorFields j
  return {
    kind := ← required toStr ms "kind"
    message := ← optional toStr ms "message"
    status := ← optional toU16 ms "status" }

/-- `Deserialize for TimestampInput`: untagged, the integer is tried first. -/
def decodeTimestampInput (j : Json) : Option TimestampInput :=
  ((toInt64 j).map .epochNanos).or ((toStr j).map .iso8601)

def ingestEventFields : List FieldDecl :=
  fieldsWith false ["model", "provider", "cost_nanodollars"] ++ fieldsWith true ["usage", "latency"] ++
  fieldsWith false ["timestamp"] ++ fieldsWith true ["method", "endpoint"] ++
  fieldsWith false ["http_status", "source", "user_id", "api_key_id", "org_id", "project_id",
    "route_id"] ++
  fieldsWith true ["flags"] ++
  fieldsWith false ["error", "trace_id", "request_id", "client_ip", "user_agent", "metadata"]

def IngestEvent.ofMembers (ms : List (String × Json)) : Option IngestEvent := do
  return {
    model := ← required toStr ms "model"
    provider := ← required toStr ms "provider"
    costNanodollars := ← optional toInt64 ms "cost_nanodollars"
    usage := ← defaulted decodeIngestUsage ms "usage" {}
    latency := ← defaulted decodeIngestLatency ms "latency" {}
    timestamp := ← optional decodeTimestampInput ms "timestamp"
    method := ← defaulted toStr ms "method" "POST"
    endpoint := ← defaulted toStr ms "endpoint" ""
    httpStatus := ← optional toU16 ms "http_status"
    source := ← optional toStr ms "source"
    userId := ← optional toStr ms "user_id"
    apiKeyId := ← optional toStr ms "api_key_id"
    orgId := ← optional toStr ms "org_id"
    projectId := ← optional toStr ms "project_id"
    routeId := ← optional toStr ms "route_id"
    flags := ← defaulted decodeIngestFlags ms "flags" {}
    error := ← optional decodeIngestError ms "error"
    traceId := ← optional toStr ms "trace_id"
    requestId := ← optional toStr ms "request_id"
    clientIp := ← optional toStr ms "client_ip"
    userAgent := ← optional toStr ms "user_agent"
    metadata := ← optional (fun j => some (JsonValue.ofTree j)) ms "metadata" }

/-- `Deserialize for IngestEvent`, with `#[serde(deny_unknown_fields)]`. -/
def decodeIngestEvent (j : Json) : Option IngestEvent := do
  let ms ← structMembers ingestEventFields j
  if Declared ingestEventFields j then IngestEvent.ofMembers ms else none

def batchRequestFields : List FieldDecl := fieldsWith false ["events"]

/-- `Deserialize for BatchRequest` -/
def decodeBatchRequest (j : Json) : Option (List IngestEvent) := do
  let ms ← structMembers batchRequestFields j
  required (toList decodeIngestEvent) ms "events"

/-- `POST /v1/events` and `POST /v1/events/batch` -/
inductive Endpoint where
  | events
  | batch

/-- The payloads that a handler goes on with. -/
def acceptBody : Endpoint → Json → Option (List IngestEvent)
  | .events, j => (decodeIngestEvent j).map fun event => [event]
  | .batch, j => (decodeBatchRequest j).filter fun events => events.length ≤ Service.MAX_BATCH_SIZE

/-! ## The keys of a body -/

/-- The records inside an event that skip what they do not declare. -/
def nestedRecords : List (String × List FieldDecl) :=
  [("usage", ingestUsageFields), ("latency", ingestLatencyFields), ("flags", ingestFlagsFields),
    ("error", ingestErrorFields)]

/-- The members of a record, none for what is not a record. -/
def membersOf (fields : List FieldDecl) (j : Json) : List (String × Json) :=
  (structMembers fields j).getD []

/-- The keys of the records inside an event are declared. -/
def NestedDeclared (event : Json) : Prop :=
  ∀ m ∈ membersOf ingestEventFields event, ∀ r ∈ nestedRecords, m.1 = r.1 → Declared r.2 m.2

/-- The events of a body. -/
def eventTrees : Endpoint → Json → List Json
  | .events, j => [j]
  | .batch, j => ((membersOf batchRequestFields j).filter fun m => m.1 == "events").flatMap
      fun m => match m.2 with
        | .arr xs => xs
        | _ => []

/-- The keys of the wrapper are declared, if there is one. -/
def WrapperDeclared : Endpoint → Json → Prop
  | .events, _ => True
  | .batch, j => Declared batchRequestFields j

/-- Every key at every level is declared. -/
def AllDeclared (endpoint : Endpoint) (body : Json) : Prop :=
  WrapperDeclared endpoint body ∧
    ∀ event ∈ eventTrees endpoint body, Declared ingestEventFields event ∧ NestedDeclared event

/-- The same of the levels that nothing checks. -/
def UncheckedDeclared (endpoint : Endpoint) (body : Json) : Prop :=
  WrapperDeclared endpoint body ∧ ∀ event ∈ eventTrees endpoint body, NestedDeclared event

instance (event : Json) : Decidable (NestedDeclared event) :=
  inferInstanceAs (Decidable (∀ m ∈ membersOf ingestEventFields event, ∀ r ∈ nestedRecords,
    m.1 = r.1 → Declared r.2 m.2))

instance : (endpoint : Endpoint) → (body : Json) → Decidable (WrapperDeclared endpoint body)
  | .events, _ => isTrue trivial
  | .batch, body => inferInstanceAs (Decidable (Declared batchRequestFields body))

instance (endpoint : Endpoint) (body : Json) : Decidable (AllDeclared endpoint body) :=
  inferInstanceAs (Decidable (_ ∧ ∀ event ∈ eventTrees endpoint body, _ ∧ NestedDeclared event))

instance (endpoint : Endpoint) (body : Json) : Decidable (UncheckedDeclared endpoint body) :=
  inferInstanceAs (Decidable (_ ∧ ∀ event ∈ eventTrees endpoint body, NestedDeclared event))

/-- The counters of `Usage` under their names. -/
def usageCounters : List (String × (Usage → UInt32)) :=
  [("input_tokens", Usage.inputTokens), ("output_tokens", Usage.outputTokens),
    ("cache_read_input_tokens", Usage.cacheReadInputTokens),
    ("cache_creation_input_tokens", Usage.cacheCreationInputTokens),
    ("reasoning_tokens", Usage.reasoningTokens), ("audio_input_tokens", Usage.audioInputTokens),
    ("audio_output_tokens", Usage.audioOutputTokens), ("image_tokens", Usage.imageTokens),
    ("video_seconds", Usage.videoSeconds), ("tool_use_tokens", Usage.toolUseTokens),
    ("search_queries", Usage.searchQueries)]

/-- Every counter of `Usage` that an event was sent with has the value it was sent with. -/
def CountersReach (event : Json) (usage : Usage) : Prop :=
  ∀ m ∈ membersOf ingestEventFields event, m.1 = "usage" →
    ∀ c ∈ membersOf ingestUsageFields m.2, ∀ counter ∈ usageCounters, counter.1 = c.1 →
      toU32 c.2 = some (counter.2 usage)

section

variable {j : Json} {ms : List (String × Json)}

theorem membersOf_eq {fields : List FieldDecl} (h : structMembers fields j = some ms) :
    membersOf fields j = ms := by
  rw [membersOf, h, Option.getD_some]

/-- A declared counter is read into the field of its name. -/
theorem counter_of_decodeIngestUsage {u : IngestUsage} (h : decodeIngestUsage j = some u)
    (hdeclared : Declared ingestUsageFields j) {c : String × Json}
    (hc : c ∈ membersOf ingestUsageFields j) {counter : String × (Usage → UInt32)}
    (hcounter : counter ∈ usageCounters) (hname : counter.1 = c.1) :
    toU32 c.2 = some (counter.2 (usageFromIngest u)) := by
  unfold decodeIngestUsage at h
  obtain ⟨ms, hms, h⟩ := Option.bind_eq_some_iff.mp h
  obtain ⟨_, h₁, h⟩ := Option.bind_eq_some_iff.mp h
  obtain ⟨_, h₂, h⟩ := Option.bind_eq_some_iff.mp h
  obtain ⟨_, h₃, h⟩ := Option.bind_eq_some_iff.mp h
  obtain ⟨_, h₄, h⟩ := Option.bind_eq_some_iff.mp h
  obtain ⟨_, h₅, h⟩ := Option.bind_eq_some_iff.mp h
  obtain ⟨_, h₆, h⟩ := Option.bind_eq_some_iff.mp h
  obtain ⟨_, h₇, h⟩ := Option.bind_eq_some_iff.mp h
  obtain ⟨_, h₈, h⟩ := Option.bind_eq_some_iff.mp h
  obtain ⟨_, h₉, h⟩ := Option.bind_eq_some_iff.mp h
  cases h
  rw [membersOf_eq hms] at hc
  obtain ⟨name, v⟩ := c
  dsimp only at hname
  subst hname
  have hknown := hdeclared.mem_fields hms hc
  simp only [usageCounters, List.mem_cons, List.not_mem_nil, or_false] at hcounter
  rcases hcounter with rfl | rfl | rfl | rfl | rfl | rfl | rfl | rfl | rfl | rfl | rfl
  · exact defaulted_of_mem h₁ hc
  · exact defaulted_of_mem h₂ hc
  · exact defaulted_of_mem h₃ hc
  · exact defaulted_of_mem h₄ hc
  · exact defaulted_of_mem h₅ hc
  · exact defaulted_of_mem h₆ hc
  · exact defaulted_of_mem h₇ hc
  · exact defaulted_of_mem h₈ hc
  · -- `video_seconds` is not declared
    simp [ingestUsageFields, fieldsWith] at hknown
  · exact defaulted_of_mem h₉ hc
  · -- nor is `search_queries`
    simp [ingestUsageFields, fieldsWith] at hknown

/-- What an accepted event went through: no key of it is unknown, and its `usage` was read. -/
theorem decodeIngestEvent_eq_some {event : IngestEvent} (h : decodeIngestEvent j = some event) :
    Declared ingestEventFields j ∧ ∃ ms, structMembers ingestEventFields j = some ms ∧
      defaulted decodeIngestUsage ms "usage" {} = some event.usage := by
  unfold decodeIngestEvent at h
  obtain ⟨ms, hms, h⟩ := Option.bind_eq_some_iff.mp h
  split at h
  · rename_i hdeclared
    refine ⟨hdeclared, ms, hms, ?_⟩
    unfold IngestEvent.ofMembers at h
    iterate 3 obtain ⟨_, -, h⟩ := Option.bind_eq_some_iff.mp h
    obtain ⟨usage, husage, h⟩ := Option.bind_eq_some_iff.mp h
    iterate 18 obtain ⟨_, -, h⟩ := Option.bind_eq_some_iff.mp h
    cases h
    exact husage
  · cases h

/-- The trees of an accepted body are those of its payloads, one for one. -/
theorem forall₂_of_acceptBody {endpoint : Endpoint} {events : List IngestEvent}
    (h : acceptBody endpoint j = some events) :
    List.Forall₂ (fun tree event => decodeIngestEvent tree = some event) (eventTrees endpoint j)
      events := by
  cases endpoint with
  | events =>
    obtain ⟨event, hevent, rfl⟩ := Option.map_eq_some_iff.mp h
    exact .cons hevent .nil
  | batch =>
    have hbatch : decodeBatchRequest j = some events := (Option.filter_eq_some_iff.mp h).1
    obtain ⟨ms, hms, hreq⟩ := Option.bind_eq_some_iff.mp hbatch
    obtain ⟨w, hone, hw⟩ := required_eq_some hreq
    rw [eventTrees, membersOf_eq hms, hone]
    cases w with
    | arr xs => simpa using mapM_eq_some_iff.mp hw
    | _ => cases hw

end

/-- An accepted event with declared counters has them in the event that is stored. -/
theorem countersReach_of_processEvent {tree : Json} {event : IngestEvent} {env : Surroundings}
    {catalog : Catalog} {keyId : Option String} {tier : String}
    {made : LlmEvent × Provider × String × Int64} (hevent : decodeIngestEvent tree = some event)
    (hnested : NestedDeclared tree) (hmade : processEvent env catalog event keyId tier = pure made) :
    CountersReach tree (readUsage (toLogEvent env.tf made.1)) := by
  intro m hm hname c hc counter hcounter hc'
  obtain ⟨-, ms, hms, husage⟩ := decodeIngestEvent_eq_some hevent
  have hdeclared : Declared ingestUsageFields m.2 :=
    hnested m hm ("usage", ingestUsageFields) (by simp [nestedRecords]) hname
  rw [membersOf_eq hms] at hm
  obtain ⟨k, v⟩ := m
  dsimp only at hname
  subst hname
  rw [readUsage_toLogEvent, (copied_of_buildLlmEvent (processEvent_eq_pure hmade).2).2.2.1]
  exact counter_of_decodeIngestUsage (defaulted_of_mem husage hm) hdeclared hc hcounter hc'

/-- Of an accepted body nothing is dropped, and every counter that was sent is stored, exactly when the
wrapper and the records inside its events have no key that they do not declare. -/
theorem accepted_body_keeps_all_iff (endpoint : Endpoint) (body : Json) (events : List IngestEvent)
    (haccepted : acceptBody endpoint body = some events) :
    (AllDeclared endpoint body ∧
      ∀ p ∈ (eventTrees endpoint body).zip events, ∀ env catalog keyId tier made,
        processEvent env catalog p.2 keyId tier = pure made →
          CountersReach p.1 (readUsage (toLogEvent env.tf made.1))) ↔
      UncheckedDeclared endpoint body := by
  have hread := forall₂_of_acceptBody haccepted
  constructor
  · rintro ⟨⟨hwrapper, hevents⟩, -⟩
    exact ⟨hwrapper, fun event he => (hevents event he).2⟩
  · rintro ⟨hwrapper, hnested⟩
    refine ⟨⟨hwrapper, fun tree htree => ⟨?_, hnested tree htree⟩⟩, ?_⟩
    · -- the event itself refuses what it does not declare
      obtain ⟨event, -, hevent⟩ := exists_right_of_forall₂ hread htree
      exact (decodeIngestEvent_eq_some hevent).1
    · intro p hp env catalog keyId tier made hmade
      have hevent : decodeIngestEvent p.1 = some p.2 :=
        (List.forall₂_iff_zip.mp hread).2 (by simpa using hp)
      exact countersReach_of_processEvent hevent (hnested p.1 (List.of_mem_zip hp).1) hmade

/-- An event of a model without a price, with these counters. -/
def bodyWith (usage : List (String × Json)) : Json :=
  .obj [("model", .str "gpt-4o"), ("provider", .str "openai"), ("usage", .obj usage)]

/-- In a batch of one event with a declared counter every key is declared and the counter is stored. -/
theorem accepted_batch_keeps_all :
    let event := bodyWith [("input_tokens", ofU32 10)]
    let body : Json := .obj [("events", .arr [event])]
    AllDeclared .batch body ∧
      ∃ made, processEvent sampleSurroundings ⟨fun _ => none⟩
          { model := "gpt-4o", provider := "openai", usage := { inputTokens := 10 } } none "free"
            = pure made ∧
        CountersReach event (readUsage (toLogEvent sampleSurroundings.tf made.1)) := by
  intro event body
  have haccepted : acceptBody .batch body =
      some [{ model := "gpt-4o", provider := "openai", usage := { inputTokens := 10 } }] := by
    decide +kernel
  have hunchecked : UncheckedDeclared .batch body := by
    decide +kernel
  obtain ⟨hall, hreach⟩ := (accepted_body_keeps_all_iff .batch body _ haccepted).mpr hunchecked
  obtain ⟨made, hmade⟩ := Fallible.exists_pure_of_value?
    (show (processEvent sampleSurroundings ⟨fun _ => none⟩
        { model := "gpt-4o", provider := "openai", usage := { inputTokens := 10 } } none
        "free").value?.isSome by
      decide +kernel)
  exact ⟨hall, made, hmade, hreach (event, _) (by simp [eventTrees, body, membersOf, structMembers])
    _ _ _ _ made hmade⟩

/-- Sixty seconds of video are accepted and not stored. -/
theorem video_seconds_dropped :
    let body := bodyWith [("input_tokens", ofU32 10), ("video_seconds", ofU32 60)]
    let event : IngestEvent :=
      { model := "gpt-4o", provider := "openai", usage := { inputTokens := 10 } }
    acceptBody .events body = some [event] ∧
      ¬ AllDeclared .events body ∧
      ∃ made, processEvent sampleSurroundings ⟨fun _ => none⟩ event none "free" = pure made ∧
        ¬ CountersReach body (readUsage (toLogEvent sampleSurroundings.tf made.1)) := by
  intro body event
  have husage : ("usage", Json.obj [("input_tokens", ofU32 10), ("video_seconds", ofU32 60)])
      ∈ membersOf ingestEventFields body := by
    simp [body, bodyWith, membersOf, structMembers]
  refine ⟨by decide +kernel, by decide +kernel, ?_⟩
  · obtain ⟨made, hmade⟩ := Fallible.exists_pure_of_value?
      (show (processEvent sampleSurroundings ⟨fun _ => none⟩ event none "free").value?.isSome by
        decide +kernel)
    refine ⟨made, hmade, ?_⟩
    intro h
    have hvideo := h _ husage rfl ("video_seconds", ofU32 60) (by simp [membersOf, structMembers])
      ("video_seconds", Usage.videoSeconds) (by simp [usageCounters]) rfl
    rw [readUsage_toLogEvent, (copied_of_buildLlmEvent (processEvent_eq_pure hmade).2).2.2.1,
      toU32_ofU32] at hvideo
    exact absurd hvideo (by decide)

end Keplor.Server
