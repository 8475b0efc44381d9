import Keplor.Core.Event
import Keplor.Lib.Fallible
import Keplor.Lib.Utf8

/-!
# `keplor-store/src/mapping.rs` — the row an event is stored as

A row is positional: fourteen dimensions, thirteen counters, eight labels and a word of flag bits.
The positions are declared once, and both directions go through the declared names, so that a
reader can hold either function against the source line by line.

`toLogEvent` never fails. `fromEventRef` fails on what does not parse, and can abort: the trace id
is cut out of its label two bytes at a time, whatever characters stand there. `Fallible` keeps the
two apart.
-/

set_option autoImplicit false

namespace Keplor.Store

open Keplor.Lib Keplor.Core

/-! ## Positions -/

/-- Number of indexed dimensions. -/
abbrev D : Nat := 14
/-- Number of `u32` counters. -/
abbrev C : Nat := 13
/-- Number of string labels. -/
abbrev L : Nat := 8

def DIM_USER_ID : Fin D := 0
def DIM_API_KEY_ID : Fin D := 1
def DIM_MODEL : Fin D := 2
def DIM_PROVIDER : Fin D := 3
def DIM_SOURCE : Fin D := 4
def DIM_ORG_ID : Fin D := 5
def DIM_PROJECT_ID : Fin D := 6
def DIM_ROUTE_ID : Fin D := 7
def DIM_MODEL_FAMILY : Fin D := 8
def DIM_ENDPOINT : Fin D := 9
def DIM_TIER : Fin D := 10
def DIM_ERROR_TYPE : Fin D := 11
def DIM_USER_TAG : Fin D := 12
def DIM_SESSION_TAG : Fin D := 13

def COUNTER_INPUT_TOKENS : Fin C := 0
def COUNTER_OUTPUT_TOKENS : Fin C := 1
def COUNTER_CACHE_READ : Fin C := 2
def COUNTER_CACHE_CREATION : Fin C := 3
def COUNTER_REASONING : Fin C := 4
def COUNTER_AUDIO_IN : Fin C := 5
def COUNTER_AUDIO_OUT : Fin C := 6
def COUNTER_IMAGE : Fin C := 7
def COUNTER_VIDEO_SECONDS : Fin C := 8
def COUNTER_TOOL_USE : Fin C := 9
def COUNTER_SEARCH_QUERIES : Fin C := 10
def COUNTER_CLOSE_MS : Fin C := 11
def COUNTER_IS_ERROR : Fin C := 12

def LABEL_ERROR_JSON : Fin L := 0
def LABEL_REQUEST_ID : Fin L := 1
def LABEL_TRACE_ID : Fin L := 2
def LABEL_CLIENT_IP : Fin L := 3
def LABEL_USER_AGENT : Fin L := 4
def LABEL_METADATA_JSON : Fin L := 5
def LABEL_METHOD : Fin L := 6
def LABEL_PROVIDER_VARIANT : Fin L := 7

def FLAG_STREAMING : BitVec 16 := 1#16 <<< 0
def FLAG_TOOL_CALLS : BitVec 16 := 1#16 <<< 1
def FLAG_REASONING : BitVec 16 := 1#16 <<< 2
def FLAG_STREAM_INCOMPLETE : BitVec 16 := 1#16 <<< 3
def FLAG_CACHED_USED : BitVec 16 := 1#16 <<< 4
def FLAG_BUDGET_BLOCKED : BitVec 16 := 1#16 <<< 5
def FLAG_HAS_TTFT : BitVec 16 := 1#16 <<< 8
def FLAG_HAS_HTTP_STATUS : BitVec 16 := 1#16 <<< 9
def FLAG_HAS_ERROR : BitVec 16 := 1#16 <<< 10
def FLAG_HAS_CLOSE_MS : BitVec 16 := 1#16 <<< 11

/-- `keplordb::LogEvent<D, C, L>`; a stored row is read back as the same record (`EventRef`). -/
structure LogEvent where
  id : String
  tsNs : Int64
  metric : Int64
  counters : Fin C → UInt32
  latencyMs : UInt32
  latencyDetailMs : UInt32
  status : UInt16
  flags : BitVec 16
  dims : Fin D → String
  labels : Fin L → String

/-- `MappingError` -/
inductive MappingError where
  | invalidEventId (s : String)
  | invalidTraceId (s : String)
  | invalidIp (s : String)
  | invalidError (s : String)
  | invalidMetadata (s : String)
  | invalidMethod (s : String)
  deriving DecidableEq, Repr

/-! ## Writing -/

/-- An array filled with one value and then assigned to position by position. -/
def assign {n : Nat} {α : Type} (a : Fin n → α) : List (Fin n × α) → Fin n → α
  | [] => a
  | (i, v) :: rest => assign (Function.update a i v) rest

/-- `bits |= flag` under a condition. -/
def setIf {w : Nat} (c : Bool) (flag : BitVec w) : BitVec w := if c then flag else 0#w

/-- `bits & flag != 0` -/
def has {w : Nat} (bits flag : BitVec w) : Bool := decide (bits &&& flag ≠ 0#w)

/-- `pack_flags` -/
def packFlags (event : LlmEvent) : BitVec 16 :=
  let src := event.flags.bits
  setIf (has src EventFlags.STREAMING) FLAG_STREAMING
    ||| setIf (has src EventFlags.TOOL_CALLS) FLAG_TOOL_CALLS
    ||| setIf (has src EventFlags.REASONING) FLAG_REASONING
    ||| setIf (has src EventFlags.STREAM_INCOMPLETE) FLAG_STREAM_INCOMPLETE
    ||| setIf (has src EventFlags.CACHED_USED) FLAG_CACHED_USED
    ||| setIf (has src EventFlags.BUDGET_BLOCKED) FLAG_BUDGET_BLOCKED
    ||| setIf event.latency.ttftMs.isSome FLAG_HAS_TTFT
    ||| setIf event.httpStatus.isSome FLAG_HAS_HTTP_STATUS
    ||| setIf event.error.isSome FLAG_HAS_ERROR
    ||| setIf event.latency.timeToCloseMs.isSome FLAG_HAS_CLOSE_MS

/-- `provider_error_type_key` -/
def providerErrorTypeKey : ProviderError → String
  | .rateLimited _ => "rate_limited"
  | .invalidRequest _ => "invalid_request"
  | .authFailed => "auth_failed"
  | .contextLengthExceeded _ => "context_length_exceeded"
  | .contentFiltered _ => "content_filtered"
  | .upstreamTimeout => "upstream_timeout"
  | .upstreamUnavailable => "upstream_unavailable"
  | .other _ _ => "other"

/-- A byte as `{b:02x}`. -/
def byteToHex (b : UInt8) : List Char := [Json.hexDigit (b.toNat / 16), Json.hexDigit (b.toNat % 16)]

/-- `trace_id_to_hex` -/
def traceIdToHex (id : TraceId) : String := String.ofList (id.bytes.flatMap byteToHex)

/-- A string member of a JSON object, `""` when there is none. -/
def tagOf (v : JsonValue) (k : String) : String :=
  match v.get? k with
  | some (.str s) => s
  | _ => ""

/-- `extract_tags` -/
def extractTags : Option JsonValue → String × String
  | some v => (tagOf v "user_tag", tagOf v "session_tag")
  | none => ("", "")

/-- `encode_error` — a flat object keyed by `t`, with `m`, `r`, `l` or `s` beside it. -/
def encodeError : ProviderError → String
  | .rateLimited (some d) =>
      "\x7b\"t\":\"rate_limited\",\"r\":" ++ Nat.repr d.secs.toNat ++ "\x7d"
  | .rateLimited none => "\x7b\"t\":\"rate_limited\"\x7d"
  | .invalidRequest msg =>
      "\x7b\"t\":\"invalid_request\",\"m\":" ++ TextFormats.strToJson msg ++ "\x7d"
  | .authFailed => "\x7b\"t\":\"auth_failed\"\x7d"
  | .contextLengthExceeded limit =>
      "\x7b\"t\":\"context_length_exceeded\",\"l\":" ++ Nat.repr limit.toNat ++ "\x7d"
  | .contentFiltered reason =>
      "\x7b\"t\":\"content_filtered\",\"m\":" ++ TextFormats.strToJson reason ++ "\x7d"
  | .upstreamTimeout => "\x7b\"t\":\"upstream_timeout\"\x7d"
  | .upstreamUnavailable => "\x7b\"t\":\"upstream_unavailable\"\x7d"
  | .other status message =>
      "\x7b\"t\":\"other\",\"s\":" ++ Nat.repr status.toNat ++ ",\"m\":"
        ++ TextFormats.strToJson message ++ "\x7d"

/-- `to_log_event` -/
def toLogEvent (tf : TextFormats) (event : LlmEvent) : LogEvent where
  id := tf.ulid.print event.id
  tsNs := event.tsNs
  metric := event.costNanodollars
  counters := assign (fun _ => 0)
    [ (COUNTER_INPUT_TOKENS, event.usage.inputTokens),
      (COUNTER_OUTPUT_TOKENS, event.usage.outputTokens),
      (COUNTER_CACHE_READ, event.usage.cacheReadInputTokens),
      (COUNTER_CACHE_CREATION, event.usage.cacheCreationInputTokens),
      (COUNTER_REASONING, event.usage.reasoningTokens),
      (COUNTER_AUDIO_IN, event.usage.audioInputTokens),
      (COUNTER_AUDIO_OUT, event.usage.audioOutputTokens),
      (COUNTER_IMAGE, event.usage.imageTokens),
      (COUNTER_VIDEO_SECONDS, event.usage.videoSeconds),
      (COUNTER_TOOL_USE, event.usage.toolUseTokens),
      (COUNTER_SEARCH_QUERIES, event.usage.searchQueries),
      (COUNTER_CLOSE_MS, event.latency.timeToCloseMs.getD 0),
      (COUNTER_IS_ERROR, if event.error.isSome then 1 else 0) ]
  latencyMs := event.latency.totalMs
  latencyDetailMs := event.latency.ttftMs.getD 0
  status := event.httpStatus.getD 0
  flags := packFlags event
  dims := assign (fun _ => "")
    [ (DIM_USER_ID, event.userId.getD ""),
      (DIM_API_KEY_ID, event.apiKeyId.getD ""),
      (DIM_MODEL, event.model),
      (DIM_PROVIDER, event.provider.idKey),
      (DIM_SOURCE, event.source.getD ""),
      (DIM_ORG_ID, event.orgId.getD ""),
      (DIM_PROJECT_ID, event.projectId.getD ""),
      (DIM_ROUTE_ID, event.routeId),
      (DIM_MODEL_FAMILY, event.modelFamily.getD ""),
      (DIM_ENDPOINT, event.endpoint),
      (DIM_TIER, event.tier),
      (DIM_ERROR_TYPE, (event.error.map providerErrorTypeKey).getD ""),
      (DIM_USER_TAG, (extractTags event.metadata).1),
      (DIM_SESSION_TAG, (extractTags event.metadata).2) ]
  labels := assign (fun _ => "")
    [ (LABEL_ERROR_JSON, (event.error.map encodeError).getD ""),
      (LABEL_REQUEST_ID, event.requestId.getD ""),
      (LABEL_TRACE_ID, (event.traceId.map traceIdToHex).getD ""),
      (LABEL_CLIENT_IP, (event.clientIp.map tf.ip.print).getD ""),
      (LABEL_USER_AGENT, event.userAgent.getD ""),
      (LABEL_METADATA_JSON, (event.metadata.map tf.toJson).getD ""),
      (LABEL_METHOD, event.method.name),
      (LABEL_PROVIDER_VARIANT,
        match event.provider with
        | .openAICompatible baseUrl => baseUrl
        | _ => "") ]

/-! ## Reading -/

/-- `unpack_event_flags` -/
def unpackEventFlags (bits : BitVec 16) : EventFlags :=
  ⟨setIf (has bits FLAG_STREAMING) EventFlags.STREAMING
    ||| setIf (has bits FLAG_TOOL_CALLS) EventFlags.TOOL_CALLS
    ||| setIf (has bits FLAG_REASONING) EventFlags.REASONING
    ||| setIf (has bits FLAG_STREAM_INCOMPLETE) EventFlags.STREAM_INCOMPLETE
    ||| setIf (has bits FLAG_CACHED_USED) EventFlags.CACHED_USED
    ||| setIf (has bits FLAG_BUDGET_BLOCKED) EventFlags.BUDGET_BLOCKED⟩

/-- `read_provider` -/
def readProvider (idKey variantLabel : String) : Provider :=
  if idKey = "openai_compatible" then .openAICompatible variantLabel else Provider.fromIdKey idKey

/-- `opt_smol`, `opt_id` -/
def optSmol (s : String) : Option String := if s = "" then none else some s

/-- `u8::from_str_radix(_, 16)` on at most two bytes: an optional plus, then hexadecimal digits. -/
def u8FromHex (cs : List Char) : Option UInt8 :=
  let digits := match cs with
    | '+' :: rest => rest
    | _ => cs
  match digits with
  | [] => none
  | _ => (digits.foldlM (fun n c => (Json.hexVal c).map (n * 16 + ·)) 0).map UInt8.ofNat

/-- The loop of `hex_to_trace_id`: `n` bytes from offset `i` on. -/
def hexBytes (s : String) : Nat → Nat → Fallible MappingError (List UInt8)
  | _, 0 => pure []
  | i, n + 1 => do
      let hex ← Fallible.ofPartial (Utf8.slice s.toList (i * 2) (i * 2 + 2))
      let b ← Fallible.orError (u8FromHex hex) (.invalidTraceId s)
      let rest ← hexBytes s (i + 1) n
      return b :: rest

/-- `hex_to_trace_id` -/
def hexToTraceId (s : String) : Fallible MappingError TraceId :=
  if Utf8.byteLen s.toList ≠ 32 then throw (.invalidTraceId s)
  else do
    let bytes ← hexBytes s 0 16
    if h : bytes.length = 16 then return ⟨bytes, h⟩ else throw (.invalidTraceId s)

/-- `Value::as_str` -/
def asStr : Json → Option String
  | .str s => some s
  | _ => none

/-- `Value::as_u64` -/
def asU64 : Json → Option Nat
  | .int i => if 0 ≤ i.val then some i.val.toNat else none
  | _ => none

/-- `Value::is_object` -/
def isObject (v : JsonValue) : Bool :=
  match v.tree with
  | .obj _ => true
  | _ => false

/-- `decode_error` -/
def decodeError (tf : TextFormats) (s : String) : Except MappingError ProviderError :=
  match tf.fromJson s with
  | none => throw (.invalidError (tf.jsonErrorText s))
  | some v =>
    if isObject v = false then throw (.invalidError "not an object")
    else
      match (v.get? "t").bind asStr with
      | none => throw (.invalidError "missing discriminator")
      | some t =>
        let msg := (v.get? "m").bind asStr
        match t with
        | "rate_limited" =>
            return .rateLimited (((v.get? "r").bind asU64).map fun n => .fromSecs (.ofNat n))
        | "invalid_request" => return .invalidRequest (msg.getD "")
        | "auth_failed" => return .authFailed
        | "context_length_exceeded" =>
            return .contextLengthExceeded (.ofNat (((v.get? "l").bind asU64).getD 0))
        | "content_filtered" => return .contentFiltered (msg.getD "")
        | "upstream_timeout" => return .upstreamTimeout
        | "upstream_unavailable" => return .upstreamUnavailable
        | "other" => return .other (.ofNat (((v.get? "s").bind asU64).getD 0)) (msg.getD "")
        | _ => throw (.invalidError ("unknown discriminator: " ++ t))

/-- The error column: read only when its presence bit is set. -/
def readError (tf : TextFormats) (r : LogEvent) :
    Fallible MappingError (Option ProviderError) :=
  if has r.flags FLAG_HAS_ERROR && r.labels LABEL_ERROR_JSON != "" then
    match decodeError tf (r.labels LABEL_ERROR_JSON) with
    | .ok e => pure (some e)
    | .error e => throw e
  else pure none

/-- The metadata column. -/
def readMetadata (tf : TextFormats) (r : LogEvent) : Fallible MappingError (Option JsonValue) :=
  if r.labels LABEL_METADATA_JSON = "" then pure none
  else do
    let v ← Fallible.orError (tf.fromJson (r.labels LABEL_METADATA_JSON))
      (.invalidMetadata (tf.jsonErrorText (r.labels LABEL_METADATA_JSON)))
    return some v

/-- The trace id column. -/
def readTraceId (r : LogEvent) : Fallible MappingError (Option TraceId) :=
  if r.labels LABEL_TRACE_ID = "" then pure none
  else do
    let t ← hexToTraceId (r.labels LABEL_TRACE_ID)
    return some t

/-- The client address column. -/
def readClientIp (tf : TextFormats) (r : LogEvent) : Fallible MappingError (Option IpAddr) :=
  if r.labels LABEL_CLIENT_IP = "" then pure none
  else do
    let a ← Fallible.orError (tf.ip.parse (r.labels LABEL_CLIENT_IP))
      (.invalidIp (r.labels LABEL_CLIENT_IP))
    return some a

/-- The method column; empty stands for `POST`. -/
def readMethod (r : LogEvent) : Fallible MappingError Method :=
  if r.labels LABEL_METHOD = "" then pure .POST
  else Fallible.orError (Method.fromBytes (r.labels LABEL_METHOD)) (.invalidMethod (r.labels LABEL_METHOD))

/-- The counters. -/
def readUsage (r : LogEvent) : Usage where
  inputTokens := r.counters COUNTER_INPUT_TOKENS
  outputTokens := r.counters COUNTER_OUTPUT_TOKENS
  cacheReadInputTokens := r.counters COUNTER_CACHE_READ
  cacheCreationInputTokens := r.counters COUNTER_CACHE_CREATION
  reasoningTokens := r.counters COUNTER_REASONING
  audioInputTokens := r.counters COUNTER_AUDIO_IN
  audioOutputTokens := r.counters COUNTER_AUDIO_OUT
  imageTokens := r.counters COUNTER_IMAGE
  videoSeconds := r.counters COUNTER_VIDEO_SECONDS
  toolUseTokens := r.counters COUNTER_TOOL_USE
  searchQueries := r.counters COUNTER_SEARCH_QUERIES

/-- The latencies, each optional one behind its presence bit. -/
def readLatency (r : LogEvent) : Latencies where
  ttftMs := if has r.flags FLAG_HAS_TTFT then some r.latencyDetailMs else none
  totalMs := r.latencyMs
  timeToCloseMs := if has r.flags FLAG_HAS_CLOSE_MS then some (r.counters COUNTER_CLOSE_MS) else none

/-- `from_event_ref` -/
def fromEventRef (tf : TextFormats) (r : LogEvent) : Fallible MappingError LlmEvent := do
  let id ← Fallible.orError (tf.ulid.parse r.id) (.invalidEventId r.id)
  let error ← readError tf r
  let metadata ← readMetadata tf r
  let traceId ← readTraceId r
  let clientIp ← readClientIp tf r
  let method ← readMethod r
  return {
    id := id
    tsNs := r.tsNs
    userId := optSmol (r.dims DIM_USER_ID)
    apiKeyId := optSmol (r.dims DIM_API_KEY_ID)
    orgId := optSmol (r.dims DIM_ORG_ID)
    projectId := optSmol (r.dims DIM_PROJECT_ID)
    routeId := r.dims DIM_ROUTE_ID
    provider := readProvider (r.dims DIM_PROVIDER) (r.labels LABEL_PROVIDER_VARIANT)
    model := r.dims DIM_MODEL
    modelFamily := optSmol (r.dims DIM_MODEL_FAMILY)
    endpoint := r.dims DIM_ENDPOINT
    method := method
    httpStatus := if has r.flags FLAG_HAS_HTTP_STATUS then some r.status else none
    usage := readUsage r
    costNanodollars := r.metric
    latency := readLatency r
    flags := unpackEventFlags r.flags
    error := error
    requestSha256 := Sha256.zero
    responseSha256 := Sha256.zero
    clientIp := clientIp
    userAgent := optSmol (r.labels LABEL_USER_AGENT)
    requestId := optSmol (r.labels LABEL_REQUEST_ID)
    traceId := traceId
    source := optSmol (r.dims DIM_SOURCE)
    ingestedAt := r.tsNs
    metadata := metadata
    tier := r.dims DIM_TIER }

end Keplor.Store
