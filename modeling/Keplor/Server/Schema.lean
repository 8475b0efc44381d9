import Keplor.Core.Event
import Keplor.Store.Error

/-!
# `keplor-server/src/{schema,error}.rs` — the payload and the errors

`IngestEvent` is the body of `POST /v1/events` after deserialization. Its defaults are the ones the
`serde` attributes give.
-/

set_option autoImplicit false

namespace Keplor.Server

open Keplor.Core Keplor.Lib

/-- `IngestUsage` -/
structure IngestUsage where
  inputTokens : UInt32 := 0
  outputTokens : UInt32 := 0
  cacheReadInputTokens : UInt32 := 0
  cacheCreationInputTokens : UInt32 := 0
  reasoningTokens : UInt32 := 0
  audioInputTokens : UInt32 := 0
  audioOutputTokens : UInt32 := 0
  imageTokens : UInt32 := 0
  toolUseTokens : UInt32 := 0
  deriving DecidableEq, Repr

/-- `IngestLatency` -/
structure IngestLatency where
  ttftMs : Option UInt32 := none
  totalMs : UInt32 := 0
  timeToCloseMs : Option UInt32 := none
  deriving DecidableEq, Repr

/-- `IngestFlags` -/
structure IngestFlags where
  streaming : Bool := false
  toolCalls : Bool := false
  reasoning : Bool := false
  streamIncomplete : Bool := false
  cacheUsed : Bool := false
  deriving DecidableEq, Repr

/-- `IngestError` -/
structure IngestError where
  kind : String
  message : Option String := none
  status : Option UInt16 := none
  deriving DecidableEq, Repr

/-- `TimestampInput` -/
inductive TimestampInput where
  | epochNanos (ns : Int64)
  | iso8601 (s : String)
  deriving DecidableEq, Repr

/-- `IngestEvent` -/
structure IngestEvent where
  model : String
  provider : String
  costNanodollars : Option Int64 := none
  usage : IngestUsage := {}
  latency : IngestLatency := {}
  timestamp : Option TimestampInput := none
  method : String := "POST"
  endpoint : String := ""
  httpStatus : Option UInt16 := none
  source : Option String := none
  userId : Option String := none
  apiKeyId : Option String := none
  orgId : Option String := none
  projectId : Option String := none
  routeId : Option String := none
  flags : IngestFlags := {}
  error : Option IngestError := none
  traceId : Option String := none
  requestId : Option String := none
  clientIp : Option String := none
  userAgent : Option String := none
  metadata : Option JsonValue := none
  deriving DecidableEq

/-- `IngestResponse` -/
structure IngestResponse where
  id : String
  costNanodollars : Int64
  model : String
  provider : String
  deriving DecidableEq

/-- `ServerError` -/
inductive ServerError where
  | validation (message : String)
  | unknownProvider (name : String)
  | invalidTimestamp (message : String)
  | store (e : Store.StoreError)
  | json (message : String)
  | storageFull (message : String)
  | internal (message : String)
  deriving DecidableEq, Repr

/-- The error's text. -/
def ServerError.display : ServerError → String
  | validation message => "validation: " ++ message
  | unknownProvider name => "unknown provider: " ++ name
  | invalidTimestamp message => "invalid timestamp: " ++ message
  | store e => "store: " ++ e.display
  | json message => "json: " ++ message
  | storageFull message => "storage full: " ++ message
  | internal message => "internal: " ++ message

end Keplor.Server
