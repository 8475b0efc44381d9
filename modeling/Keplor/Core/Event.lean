import Keplor.Core.Provider
import Keplor.Lib.Json.RoundTrip

/-!
# `keplor-core/src/{event,error,flags,id,usage}.rs` — the ingested event

The record the whole program is about, with the small types it embeds. Numbers keep the width the
source gives them. The string newtypes (`UserId`, `OrgId`, `SmolStr`, …) are plain strings: they
differ in name only.

Three types carry an invariant of their own, because the source cannot hold any other value either:
a `Method` is a non-empty HTTP token, a `TraceId` is sixteen bytes, a `Duration` has less than a
second of nanoseconds.

Four text forms come from other crates: a ULID, an IP address, a flag set, a double in JSON.
`TextFormats` collects them as one parameter with what their documentation promises.
-/

set_option autoImplicit false

namespace Keplor.Core

open Keplor.Lib Keplor.Lib.Json

/-! ## Small types -/

/-- `EventId` — a ULID, 128 bits. -/
structure EventId where
  ulid : BitVec 128
  deriving DecidableEq, Repr

/-- `std::net::IpAddr` -/
inductive IpAddr where
  | v4 (addr : BitVec 32)
  | v6 (addr : BitVec 128)
  deriving DecidableEq, Repr

/-- `std::time::Duration` -/
structure Duration where
  secs : UInt64
  nanos : UInt32
  nanos_lt : nanos.toNat < 1000000000
  deriving DecidableEq

namespace Duration

/-- `Duration::from_secs` -/
def fromSecs (s : UInt64) : Duration := ⟨s, 0, by decide⟩

/-- `Duration::new`, with the overflow of the carry reported as `none`. -/
def new? (secs : UInt64) (nanos : UInt32) : Option Duration :=
  if secs.toNat + nanos.toNat / 1000000000 < 2 ^ 64 then
    some ⟨secs + (nanos / 1000000000).toUInt64, nanos % 1000000000, by
      rw [UInt32.toNat_mod]
      exact Nat.mod_lt _ (by decide)⟩
  else none

theorem new?_of_valid (d : Duration) : new? d.secs d.nanos = some d := by
  obtain ⟨s, n, h⟩ := d
  have hdiv : n / 1000000000 = 0 := by
    apply UInt32.toNat_inj.mp
    rw [UInt32.toNat_div]
    exact Nat.div_eq_of_lt h
  have hmod : n % 1000000000 = n := by
    apply UInt32.toNat_inj.mp
    rw [UInt32.toNat_mod]
    exact Nat.mod_eq_of_lt h
  have hlt : s.toNat + n.toNat / 1000000000 < 2 ^ 64 := by
    have := s.toNat_lt
    omega
  simp only [new?, if_pos hlt, Option.some.injEq, Duration.mk.injEq, hdiv, hmod, and_true]
  exact UInt64.add_zero s

end Duration

/-- A character of an HTTP token. -/
def isTokenChar (c : Char) : Bool := c.isAlphanum || "!#$%&'*+-.^_`|~".toList.contains c

/-- `http::Method` — a non-empty token. -/
structure Method where
  name : String
  token : name ≠ "" ∧ name.toList.all isTokenChar = true
  deriving DecidableEq

namespace Method

/-- `Method::POST` -/
def POST : Method := ⟨"POST", by decide⟩

/-- `Method::from_bytes` -/
def fromBytes (s : String) : Option Method :=
  if h : s ≠ "" ∧ s.toList.all isTokenChar = true then some ⟨s, h⟩ else none

theorem fromBytes_name (m : Method) : fromBytes m.name = some m := by
  rw [fromBytes, dif_pos m.token]

end Method

/-- `TraceId` — sixteen bytes. -/
structure TraceId where
  bytes : List UInt8
  length_eq : bytes.length = 16
  deriving DecidableEq

/-- A 32-byte digest column. -/
structure Sha256 where
  bytes : List UInt8
  length_eq : bytes.length = 32
  deriving DecidableEq

/-- `[0u8; 32]` -/
def Sha256.zero : Sha256 := ⟨List.replicate 32 0, by simp⟩

/-- `EventFlags` — a `u32` of which six bits are declared. -/
structure EventFlags where
  bits : BitVec 32
  deriving DecidableEq, Repr

namespace EventFlags

def STREAMING : BitVec 32 := 1#32 <<< 0
def TOOL_CALLS : BitVec 32 := 1#32 <<< 1
def REASONING : BitVec 32 := 1#32 <<< 2
def STREAM_INCOMPLETE : BitVec 32 := 1#32 <<< 3
def CACHED_USED : BitVec 32 := 1#32 <<< 4
def BUDGET_BLOCKED : BitVec 32 := 1#32 <<< 5

/-- `EventFlags::all` -/
def all : BitVec 32 :=
  STREAMING ||| TOOL_CALLS ||| REASONING ||| STREAM_INCOMPLETE ||| CACHED_USED ||| BUDGET_BLOCKED

/-- The flags with every undeclared bit cleared. -/
def declared (f : EventFlags) : EventFlags := ⟨f.bits &&& all⟩

end EventFlags

/-- `ProviderError` -/
inductive ProviderError where
  | rateLimited (retryAfter : Option Duration)
  | invalidRequest (message : String)
  | authFailed
  | contextLengthExceeded (limit : UInt32)
  | contentFiltered (reason : String)
  | upstreamTimeout
  | upstreamUnavailable
  | other (status : UInt16) (message : String)
  deriving DecidableEq

/-- `Usage` -/
structure Usage where
  inputTokens : UInt32 := 0
  outputTokens : UInt32 := 0
  cacheReadInputTokens : UInt32 := 0
  cacheCreationInputTokens : UInt32 := 0
  reasoningTokens : UInt32 := 0
  audioInputTokens : UInt32 := 0
  audioOutputTokens : UInt32 := 0
  imageTokens : UInt32 := 0
  videoSeconds : UInt32 := 0
  toolUseTokens : UInt32 := 0
  searchQueries : UInt32 := 0
  deriving DecidableEq, Repr

/-- `Latencies` -/
structure Latencies where
  ttftMs : Option UInt32 := none
  totalMs : UInt32 := 0
  timeToCloseMs : Option UInt32 := none
  deriving DecidableEq, Repr

/-! ## The event -/

/-- `LlmEvent` -/
structure LlmEvent where
  id : EventId
  tsNs : Int64
  userId : Option String
  apiKeyId : Option String
  orgId : Option String
  projectId : Option String
  routeId : String
  provider : Provider
  model : String
  modelFamily : Option String
  endpoint : String
  method : Method
  httpStatus : Option UInt16
  usage : Usage
  costNanodollars : Int64
  latency : Latencies
  flags : EventFlags
  error : Option ProviderError
  requestSha256 : Sha256
  responseSha256 : Sha256
  clientIp : Option IpAddr
  userAgent : Option String
  requestId : Option String
  traceId : Option TraceId
  source : Option String
  ingestedAt : Int64
  metadata : Option JsonValue
  tier : String
  deriving DecidableEq

/-! ## Text forms defined elsewhere -/

/-- A type printed to text and read back from it. -/
structure TextFormat (α : Type) where
  print : α → String
  parse : String → Option α
  parse_print : ∀ a, parse (print a) = some a

/-- The text forms the program takes from other crates. -/
structure TextFormats where
  /-- `ulid::Ulid` -/
  ulid : TextFormat EventId
  /-- `std::net::IpAddr` -/
  ip : TextFormat IpAddr
  ip_ne_empty : ∀ a, ip.print a ≠ ""
  /-- `bitflags`' text form of a flag set -/
  flags : TextFormat EventFlags
  /-- how `serde_json` spells and reads a double -/
  float : FloatFormat
  /-- the message `serde_json` has for a text it rejects -/
  jsonErrorText : String → String
  /-- the message `serde` has for a tagged newtype it cannot serialize -/
  serializeErrorText : String

namespace TextFormats

/-- `serde_json`'s nesting limit: the 128th open bracket is refused. -/
def recursionLimit : Nat := 127

/-- `serde_json::to_string` of a value. -/
def toJson (tf : TextFormats) (v : JsonValue) : String := String.ofList (print tf.float v.tree)

/-- `serde_json::from_str::<Value>` -/
def fromJson (tf : TextFormats) (s : String) : Option JsonValue :=
  (parse tf.float recursionLimit s.toList).map JsonValue.ofTree

/-- A value within the nesting limit whose doubles read back is read back from its text. -/
theorem fromJson_toJson {tf : TextFormats} {v : JsonValue} (hd : v.tree.depth ≤ recursionLimit)
    (hr : reread tf.float v.tree = some v.tree) : tf.fromJson (tf.toJson v) = some v := by
  rw [fromJson, toJson, String.toList_ofList, parse_print_eq_some.mpr ⟨hd, hr⟩, Option.map_some,
    JsonValue.ofTree_tree]

theorem toJson_ne_empty (tf : TextFormats) (v : JsonValue) : tf.toJson v ≠ "" := by
  intro h
  have := congrArg String.toList h
  simp only [toJson, String.toList_ofList] at this
  exact print_ne_nil tf.float v.tree this

/-- `serde_json::to_string` of a string. -/
def strToJson (s : String) : String := String.ofList (printStr s)

end TextFormats

end Keplor.Core
