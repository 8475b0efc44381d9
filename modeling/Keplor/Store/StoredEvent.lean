import Keplor.Lib.Json.Record
import Keplor.Store.Error
import Keplor.Store.Mapping

/-!
# `keplor-store/src/stored_event.rs` — the archived form of an event

One line of an archive file is a `StoredEvent` in compact JSON. Unlike the row, it is written and
read by derived code, so the model of the two directions is the model of the derivation: members in
declaration order, `Option` as value or `null`, the two enums tagged from inside by `kind`.

The derived encoding is not total. A variant that wraps a bare string cannot carry a tag, and the
serializer fails on it at run time; `encodeProviderError` answers `none` there. Two more values do
not come back: a `null` metadata is read as an absent one, and a metadata tree that the reader of the
row accepted at its full depth is one level too deep inside the line. `line_reads_back_iff`
(`LineRoundTrip.lean`) says that this is all.

Readers of the array forms of structs and enums, which derived code also accepts, are left out:
nothing writes them.
-/

set_option autoImplicit false

namespace Keplor.Store

open Keplor.Lib Keplor.Core Keplor.Lib.Json

/-- `StoredEvent` -/
structure StoredEvent where
  id : String
  tsNs : Int64
  userId : Option String
  apiKeyId : Option String
  orgId : Option String
  projectId : Option String
  routeId : String
  provider : Provider
  model : String
  modelFamily : Option String
  endpoint : String
  method : String
  httpStatus : Option UInt16
  usage : Usage
  costNanodollars : Int64
  latency : Latencies
  flags : EventFlags
  error : Option ProviderError
  clientIp : Option String
  userAgent : Option String
  requestId : Option String
  traceId : Option TraceId
  source : Option String
  ingestedAt : Int64
  metadata : Option JsonValue
  tier : String

/-! ## Between the event and its archived form -/

/-- `impl From<&LlmEvent> for StoredEvent` -/
def StoredEvent.from (tf : TextFormats) (e : LlmEvent) : StoredEvent where
  id := tf.ulid.print e.id
  tsNs := e.tsNs
  userId := e.userId
  apiKeyId := e.apiKeyId
  orgId := e.orgId
  projectId := e.projectId
  routeId := e.routeId
  provider := e.provider
  model := e.model
  modelFamily := e.modelFamily
  endpoint := e.endpoint
  method := e.method.name
  httpStatus := e.httpStatus
  usage := e.usage
  costNanodollars := e.costNanodollars
  latency := e.latency
  flags := e.flags
  error := e.error
  clientIp := e.clientIp.map tf.ip.print
  userAgent := e.userAgent
  requestId := e.requestId
  traceId := e.traceId
  source := e.source
  ingestedAt := e.ingestedAt
  metadata := e.metadata
  tier := e.tier

/-- `impl TryFrom<StoredEvent> for LlmEvent`: only the id can be refused. -/
def StoredEvent.tryInto (tf : TextFormats) (s : StoredEvent) : Except StoreError LlmEvent :=
  match tf.ulid.parse s.id with
  | none => throw (.internal ("invalid event id: " ++ s.id))
  | some id => return {
    id := id
    tsNs := s.tsNs
    userId := s.userId
    apiKeyId := s.apiKeyId
    orgId := s.orgId
    projectId := s.projectId
    routeId := s.routeId
    provider := s.provider
    model := s.model
    modelFamily := s.modelFamily
    endpoint := s.endpoint
    method := (Method.fromBytes s.method).getD .POST
    httpStatus := s.httpStatus
    usage := s.usage
    costNanodollars := s.costNanodollars
    latency := s.latency
    flags := s.flags
    error := s.error
    requestSha256 := Sha256.zero
    responseSha256 := Sha256.zero
    clientIp := s.clientIp.bind tf.ip.parse
    userAgent := s.userAgent
    requestId := s.requestId
    traceId := s.traceId
    source := s.source
    ingestedAt := s.ingestedAt
    metadata := s.metadata
    tier := s.tier }

/-! ## Writing -/

/-- The tag of a provider: its variant name in snake case. -/
def providerKind : Provider → String
  | .openAI => "open_a_i"
  | .anthropic => "anthropic"
  | .gemini => "gemini"
  | .geminiVertex => "gemini_vertex"
  | .bedrock => "bedrock"
  | .azureOpenAI => "azure_open_a_i"
  | .mistral => "mistral"
  | .groq => "groq"
  | .xAi => "x_ai"
  | .deepSeek => "deep_seek"
  | .cohere => "cohere"
  | .openRouter => "open_router"
  | .ollama => "ollama"
  | .openCode => "open_code"
  | .openCodeZen => "open_code_zen"
  | .openAICompatible _ => "open_a_i_compatible"

/-- `Serialize for Provider` -/
def encodeProvider (p : Provider) : Json :=
  match p with
  | .openAICompatible baseUrl =>
      .obj [("kind", .str (providerKind p)), ("base_url", .str baseUrl)]
  | _ => .obj [("kind", .str (providerKind p))]

/-- `Serialize for Duration` -/
def encodeDuration (d : Duration) : Json := .obj [("secs", ofU64 d.secs), ("nanos", ofU32 d.nanos)]

/-- `Serialize for ProviderError`; a tagged newtype around a string is an error. -/
def encodeProviderError : ProviderError → Option Json
  | .rateLimited retryAfter =>
      some (.obj [("kind", .str "rate_limited"), ("retry_after", ofOption encodeDuration retryAfter)])
  | .invalidRequest _ => none
  | .authFailed => some (.obj [("kind", .str "auth_failed")])
  | .contextLengthExceeded limit =>
      some (.obj [("kind", .str "context_length_exceeded"), ("limit", ofU32 limit)])
  | .contentFiltered reason =>
      some (.obj [("kind", .str "content_filtered"), ("reason", .str reason)])
  | .upstreamTimeout => some (.obj [("kind", .str "upstream_timeout")])
  | .upstreamUnavailable => some (.obj [("kind", .str "upstream_unavailable")])
  | .other status message =>
      some (.obj [("kind", .str "other"), ("status", ofU16 status), ("message", .str message)])

/-- `Serialize for Usage` -/
def encodeUsage (u : Usage) : Json :=
  .obj [("input_tokens", ofU32 u.inputTokens), ("output_tokens", ofU32 u.outputTokens),
    ("cache_read_input_tokens", ofU32 u.cacheReadInputTokens),
    ("cache_creation_input_tokens", ofU32 u.cacheCreationInputTokens),
    ("reasoning_tokens", ofU32 u.reasoningTokens), ("audio_input_tokens", ofU32 u.audioInputTokens),
    ("audio_output_tokens", ofU32 u.audioOutputTokens), ("image_tokens", ofU32 u.imageTokens),
    ("video_seconds", ofU32 u.videoSeconds), ("tool_use_tokens", ofU32 u.toolUseTokens),
    ("search_queries", ofU32 u.searchQueries)]

/-- `Serialize for Latencies` -/
def encodeLatencies (l : Latencies) : Json :=
  .obj [("ttft_ms", ofOption ofU32 l.ttftMs), ("total_ms", ofU32 l.totalMs),
    ("time_to_close_ms", ofOption ofU32 l.timeToCloseMs)]

/-- The members before the metadata; `error` is the value already written for the error field. -/
def StoredEvent.membersBefore (tf : TextFormats) (s : StoredEvent) (error : Json) :
    List (String × Json) :=
  [("id", .str s.id), ("ts_ns", ofInt64 s.tsNs), ("user_id", ofOption .str s.userId),
    ("api_key_id", ofOption .str s.apiKeyId), ("org_id", ofOption .str s.orgId),
    ("project_id", ofOption .str s.projectId), ("route_id", .str s.routeId),
    ("provider", encodeProvider s.provider), ("model", .str s.model),
    ("model_family", ofOption .str s.modelFamily), ("endpoint", .str s.endpoint),
    ("method", .str s.method), ("http_status", ofOption ofU16 s.httpStatus),
    ("usage", encodeUsage s.usage), ("cost_nanodollars", ofInt64 s.costNanodollars),
    ("latency", encodeLatencies s.latency), ("flags", .str (tf.flags.print s.flags)),
    ("error", error), ("client_ip", ofOption .str s.clientIp),
    ("user_agent", ofOption .str s.userAgent), ("request_id", ofOption .str s.requestId),
    ("trace_id", ofOption (fun t => .str (traceIdToHex t)) s.traceId),
    ("source", ofOption .str s.source), ("ingested_at", ofInt64 s.ingestedAt)]

/-- All members, with the values already written for the error and the metadata. -/
def StoredEvent.members (tf : TextFormats) (s : StoredEvent) (error metadata : Json) :
    List (String × Json) :=
  s.membersBefore tf error ++ ("metadata", metadata) :: [("tier", .str s.tier)]

/-- The error field. -/
def encodeErrorField : Option ProviderError → Option Json
  | none => some .null
  | some e => encodeProviderError e

/-- `serde_json::to_writer` of a `StoredEvent`: the line, or the serializer's error. -/
def StoredEvent.toLine (tf : TextFormats) (s : StoredEvent) : Option (List Char) := do
  let error ← encodeErrorField s.error
  return print tf.float (.obj (s.members tf error (ofOption JsonValue.tree s.metadata)))

/-! ## Reading -/

/-- An object tagged by `kind`: the tag and the other members. -/
def tagged : Json → Option (String × List (String × Json))
  | .obj ms => do
      let t ← required toStr ms "kind"
      return (t, ms.filter fun m => m.1 != "kind")
  | _ => none

/-- `Deserialize for Provider` -/
def decodeProvider (j : Json) : Option Provider := do
  let (t, ms) ← tagged j
  match t with
  | "open_a_i" => some .openAI
  | "anthropic" => some .anthropic
  | "gemini" => some .gemini
  | "gemini_vertex" => some .geminiVertex
  | "bedrock" => some .bedrock
  | "azure_open_a_i" => some .azureOpenAI
  | "mistral" => some .mistral
  | "groq" => some .groq
  | "x_ai" => some .xAi
  | "deep_seek" => some .deepSeek
  | "cohere" => some .cohere
  | "open_router" => some .openRouter
  | "ollama" => some .ollama
  | "open_code" => some .openCode
  | "open_code_zen" => some .openCodeZen
  | "open_a_i_compatible" => (required toStr ms "base_url").map .openAICompatible
  | _ => none

/-- `Deserialize for Duration`: exactly its two fields, and no overflow in the carry. -/
def decodeDuration : Json → Option Duration
  | .obj ms => do
      let secs ← required toU64 ms "secs"
      let nanos ← required toU32 ms "nanos"
      if ms.all fun m => m.1 == "secs" || m.1 == "nanos" then Duration.new? secs nanos else none
  | _ => none

/-- `Deserialize for ProviderError` -/
def decodeProviderError (j : Json) : Option ProviderError := do
  let (t, ms) ← tagged j
  match t with
  | "rate_limited" => (optional decodeDuration ms "retry_after").map .rateLimited
  | "auth_failed" => some .authFailed
  | "context_length_exceeded" => (required toU32 ms "limit").map .contextLengthExceeded
  | "content_filtered" => (required toStr ms "reason").map .contentFiltered
  | "upstream_timeout" => some .upstreamTimeout
  | "upstream_unavailable" => some .upstreamUnavailable
  | "other" => do
      let status ← required toU16 ms "status"
      let message ← required toStr ms "message"
      return .other status message
  -- a map is no string, so the newtype variant is refused like an unknown tag
  | _ => none

/-- `Deserialize for Usage`, every field with a default. -/
def decodeUsage : Json → Option Usage
  | .obj ms => do
      return {
        inputTokens := ← defaulted toU32 ms "input_tokens" 0
        outputTokens := ← defaulted toU32 ms "output_tokens" 0
        cacheReadInputTokens := ← defaulted toU32 ms "cache_read_input_tokens" 0
        cacheCreationInputTokens := ← defaulted toU32 ms "cache_creation_input_tokens" 0
        reasoningTokens := ← defaulted toU32 ms "reasoning_tokens" 0
        audioInputTokens := ← defaulted toU32 ms "audio_input_tokens" 0
        audioOutputTokens := ← defaulted toU32 ms "audio_output_tokens" 0
        imageTokens := ← defaulted toU32 ms "image_tokens" 0
        videoSeconds := ← defaulted toU32 ms "video_seconds" 0
        toolUseTokens := ← defaulted toU32 ms "tool_use_tokens" 0
        searchQueries := ← defaulted toU32 ms "search_queries" 0 }
  | _ => none

/-- `Deserialize for Latencies`, every field with a default. -/
def decodeLatencies : Json → Option Latencies
  | .obj ms => do
      return {
        ttftMs := ← optional toU32 ms "ttft_ms"
        totalMs := ← defaulted toU32 ms "total_ms" 0
        timeToCloseMs := ← optional toU32 ms "time_to_close_ms" }
  | _ => none

/-- Bytes from pairs of hexadecimal digits. -/
def hexPairs : List Char → Option (List UInt8)
  | [] => some []
  | [_] => none
  | a :: b :: rest => do
      let x ← hexVal a
      let y ← hexVal b
      let bs ← hexPairs rest
      return UInt8.ofNat (x * 16 + y) :: bs

/-- `strip_prefix("0x")`, keeping the text when there is none. -/
def strip0x : List Char → List Char
  | '0' :: 'x' :: rest => rest
  | cs => cs

/-- `TraceId::from_str`, with or without the `0x`. -/
def traceIdFromStr (s : String) : Option TraceId :=
  let cs := strip0x s.toList
  if Utf8.byteLen cs ≠ 32 then none
  else (hexPairs cs).bind fun bs => if h : bs.length = 16 then some ⟨bs, h⟩ else none

/-- `Deserialize for StoredEvent` -/
def StoredEvent.ofMembers (tf : TextFormats) (ms : List (String × Json)) : Option StoredEvent := do
  return {
    id := ← required toStr ms "id"
    tsNs := ← required toInt64 ms "ts_ns"
    userId := ← optional toStr ms "user_id"
    apiKeyId := ← optional toStr ms "api_key_id"
    orgId := ← optional toStr ms "org_id"
    projectId := ← optional toStr ms "project_id"
    routeId := ← required toStr ms "route_id"
    provider := ← required decodeProvider ms "provider"
    model := ← required toStr ms "model"
    modelFamily := ← optional toStr ms "model_family"
    endpoint := ← required toStr ms "endpoint"
    method := ← required toStr ms "method"
    httpStatus := ← optional toU16 ms "http_status"
    usage := ← required decodeUsage ms "usage"
    costNanodollars := ← required toInt64 ms "cost_nanodollars"
    latency := ← required decodeLatencies ms "latency"
    flags := ← (required toStr ms "flags").bind tf.flags.parse
    error := ← optional decodeProviderError ms "error"
    clientIp := ← optional toStr ms "client_ip"
    userAgent := ← optional toStr ms "user_agent"
    requestId := ← optional toStr ms "request_id"
    traceId := ← optional (fun j => (toStr j).bind traceIdFromStr) ms "trace_id"
    source := ← optional toStr ms "source"
    ingestedAt := ← required toInt64 ms "ingested_at"
    metadata := ← optional (fun j => some (JsonValue.ofTree j)) ms "metadata"
    tier := ← required toStr ms "tier" }

/-- `serde_json::from_str::<StoredEvent>` -/
def StoredEvent.ofLine (tf : TextFormats) (line : List Char) : Option StoredEvent :=
  match parse tf.float TextFormats.recursionLimit line with
  | some (.obj ms) => ofMembers tf ms
  | _ => none

end Keplor.Store
