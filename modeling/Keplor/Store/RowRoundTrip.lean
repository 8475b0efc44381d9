import Keplor.Core.Formats
import Keplor.Store.Mapping
import Mathlib.Data.BitVec

/-!
# What survives the row

`fromEventRef_toLogEvent`: reading a written row gives back the event up to `norm`, and `norm` is
the whole loss. Each column has its own lemma (the error text, the trace id, the flag word, the
optional strings), and the theorem only puts them side by side.

The error text is not written with a JSON serializer. It is pasted together from literals, so the
first thing to show is that the pasting is the compact text of a tree (`encodeError_eq`); after that
the reader's half is the library's `parse_print`.
-/

set_option autoImplicit false

namespace Keplor.Store

open Keplor.Lib Keplor.Core Keplor.Lib.Json

/-! ## What a row forgets -/

/-- A retry hint keeps its whole seconds. -/
def normError : ProviderError → ProviderError
  | .rateLimited (some d) => .rateLimited (some (.fromSecs d.secs))
  | e => e

/-- The event as a row keeps it. -/
def norm (e : LlmEvent) : LlmEvent :=
  { e with
    userId := e.userId.bind optSmol
    apiKeyId := e.apiKeyId.bind optSmol
    orgId := e.orgId.bind optSmol
    projectId := e.projectId.bind optSmol
    modelFamily := e.modelFamily.bind optSmol
    flags := e.flags.declared
    error := e.error.map normError
    requestSha256 := Sha256.zero
    responseSha256 := Sha256.zero
    userAgent := e.userAgent.bind optSmol
    requestId := e.requestId.bind optSmol
    source := e.source.bind optSmol
    ingestedAt := e.tsNs }

/-- `serde_json` reads the event's metadata back from its own text. -/
def MetadataReads (tf : TextFormats) (e : LlmEvent) : Prop :=
  ∀ v, e.metadata = some v → tf.fromJson (tf.toJson v) = some v

/-! ## What a row decides by itself -/

/-- Whatever else a row says, its event has the id its text denotes, its timestamp, and no hashes. -/
theorem columns_of_fromEventRef {tf : TextFormats} {r : LogEvent} {e : LlmEvent}
    (h : fromEventRef tf r = pure e) :
    (tf.ulid.parse r.id = some e.id ∧ e.tsNs = r.tsNs ∧
      e.requestSha256 = Sha256.zero ∧ e.responseSha256 = Sha256.zero) ∧
    e.userId = optSmol (r.dims DIM_USER_ID) ∧ e.apiKeyId = optSmol (r.dims DIM_API_KEY_ID) ∧
      e.tier = r.dims DIM_TIER := by
  rw [fromEventRef] at h
  obtain ⟨id, hid, h⟩ := Fallible.bind_eq_pure h
  obtain ⟨error, -, h⟩ := Fallible.bind_eq_pure h
  obtain ⟨metadata, -, h⟩ := Fallible.bind_eq_pure h
  obtain ⟨traceId, -, h⟩ := Fallible.bind_eq_pure h
  obtain ⟨clientIp, -, h⟩ := Fallible.bind_eq_pure h
  obtain ⟨method, -, h⟩ := Fallible.bind_eq_pure h
  rw [← Fallible.pure_inj h]
  exact ⟨⟨Fallible.orError_eq_pure hid, rfl, rfl, rfl⟩, rfl, rfl, rfl⟩

theorem fields_of_fromEventRef {tf : TextFormats} {r : LogEvent} {e : LlmEvent}
    (h : fromEventRef tf r = pure e) :
    tf.ulid.parse r.id = some e.id ∧ e.tsNs = r.tsNs ∧
      e.requestSha256 = Sha256.zero ∧ e.responseSha256 = Sha256.zero :=
  (columns_of_fromEventRef h).1

/-! ## The error label -/

/-- The tree whose compact text `encodeError` pastes together. -/
def errorTree : ProviderError → Json
  | .rateLimited (some d) =>
      .obj [("t", .str "rate_limited"), ("r", .int (.ofNat d.secs.toNat d.secs.toNat_lt))]
  | .rateLimited none => .obj [("t", .str "rate_limited")]
  | .invalidRequest msg => .obj [("t", .str "invalid_request"), ("m", .str msg)]
  | .authFailed => .obj [("t", .str "auth_failed")]
  | .contextLengthExceeded limit =>
      .obj [("t", .str "context_length_exceeded"),
        ("l", .int (.ofNat limit.toNat (JsonInt.lt_of_u32 limit)))]
  | .contentFiltered reason => .obj [("t", .str "content_filtered"), ("m", .str reason)]
  | .upstreamTimeout => .obj [("t", .str "upstream_timeout")]
  | .upstreamUnavailable => .obj [("t", .str "upstream_unavailable")]
  | .other status message =>
      .obj [("t", .str "other"),
        ("s", .int (.ofNat status.toNat (JsonInt.lt_of_u16 status))),
        ("m", .str message)]

theorem intLexeme_ofNat (n : Nat) (h : n < 18446744073709551616) :
    (intLexeme (.ofNat n h)).text = (Nat.repr n).toList := by
  have hn : ¬((n : Int) < 0) := by omega
  simp [intLexeme, JsonInt.ofNat, Lexeme.text, Lexeme.fracText, Lexeme.expText, Nat.repr, hn]

theorem print_two (ff : FloatFormat) (k l : String) (j i : Json) :
    print ff (.obj [(k, j), (l, i)])
      = '{' :: printStr k ++ ':' :: print ff j ++ ',' :: printStr l ++ ':' :: print ff i ++ ['}'] := by
  simp [print, printMember, printMembers]

theorem print_three (ff : FloatFormat) (k l m : String) (j i h : Json) :
    print ff (.obj [(k, j), (l, i), (m, h)])
      = '{' :: printStr k ++ ':' :: print ff j ++ ',' :: printStr l ++ [':'] ++ print ff i
          ++ (',' :: printStr m ++ [':']) ++ print ff h ++ ['}'] := by
  simp [print, printMember, printMembers]

theorem toList_append₃ (a m b : String) :
    (a ++ m ++ b).toList = a.toList ++ m.toList ++ b.toList := by
  rw [String.toList_append, String.toList_append]

theorem toList_append₅ (a m b n c : String) :
    (a ++ m ++ b ++ n ++ c).toList
      = a.toList ++ m.toList ++ b.toList ++ n.toList ++ c.toList := by
  rw [String.toList_append, String.toList_append, toList_append₃]

theorem strToJson_toList (s : String) : (TextFormats.strToJson s).toList = printStr s :=
  String.toList_ofList

/-- The pasted text is the compact text of the tree. -/
theorem encodeError_eq (ff : FloatFormat) (e : ProviderError) :
    (encodeError e).toList = print ff (errorTree e) := by
  cases e with
  | rateLimited d =>
    cases d with
    | none => rfl
    | some d =>
      rw [errorTree, print_two, print, print, intLexeme_ofNat]
      exact toList_append₃ _ _ _
  | invalidRequest m =>
    rw [errorTree, print_two, print, print]
    refine (toList_append₃ _ _ _).trans ?_
    rw [strToJson_toList]
    rfl
  | authFailed => rfl
  | contextLengthExceeded l =>
    rw [errorTree, print_two, print, print, intLexeme_ofNat]
    exact toList_append₃ _ _ _
  | contentFiltered m =>
    rw [errorTree, print_two, print, print]
    refine (toList_append₃ _ _ _).trans ?_
    rw [strToJson_toList]
    rfl
  | upstreamTimeout => rfl
  | upstreamUnavailable => rfl
  | other s m =>
    rw [errorTree, print_three, print, print, print, intLexeme_ofNat]
    refine (toList_append₅ _ _ _ _ _).trans ?_
    rw [strToJson_toList]
    rfl

theorem encodeError_ne_empty (tf : TextFormats) (e : ProviderError) : encodeError e ≠ "" := by
  intro h
  have hnil := encodeError_eq tf.float e
  rw [h] at hnil
  exact print_ne_nil tf.float (errorTree e) hnil.symm

theorem fromJson_encodeError (tf : TextFormats) (e : ProviderError) :
    tf.fromJson (encodeError e) = some (.ofTree (errorTree e)) := by
  have hd : Json.depth (errorTree e) = 1 := by
    cases e with
    | rateLimited d => cases d <;> rfl
    | _ => rfl
  have hr : reread tf.float (errorTree e) = some (errorTree e) := by
    cases e with
    | rateLimited d => cases d <;> rfl
    | _ => rfl
  rw [TextFormats.fromJson, encodeError_eq tf.float, parse_print, hd, if_pos (by decide), hr]
  rfl

theorem asU64_ofNat (n : Nat) (h : n < 18446744073709551616) :
    asU64 (.int (.ofNat n h)) = some n := by
  simp [asU64, JsonInt.ofNat]

theorem isObject_ofTree_obj (ms : List (String × Json)) : isObject (.ofTree (.obj ms)) = true := rfl

theorem decodeError_encodeError (tf : TextFormats) (e : ProviderError) :
    decodeError tf (encodeError e) = .ok (normError e) := by
  rw [decodeError, fromJson_encodeError]
  cases e with
  | rateLimited d =>
    cases d with
    | none =>
      simp [errorTree, JsonValue.get?_ofTree_obj, isObject_ofTree_obj, canon, asStr, normError]
      rfl
    | some d =>
      simp [errorTree, JsonValue.get?_ofTree_obj, isObject_ofTree_obj, canon, asStr, asU64_ofNat,
        normError]
      rfl
  | _ =>
    simp [errorTree, JsonValue.get?_ofTree_obj, isObject_ofTree_obj, canon, asStr, asU64_ofNat,
      normError]
    rfl

/-! ## The trace id label -/

theorem utf8Size_hexDigit : ∀ n, n < 16 → (hexDigit n).utf8Size = 1 := by decide

/-- A byte prints as its two digits. -/
theorem byteToHex_eq (b : UInt8) :
    ∃ v w, v < 16 ∧ w < 16 ∧ byteToHex b = [hexDigit v, hexDigit w] ∧ UInt8.ofNat (v * 16 + w) = b := by
  have hb := b.toNat_lt
  have hval : b.toNat / 16 * 16 + b.toNat % 16 = b.toNat := by omega
  refine ⟨b.toNat / 16, b.toNat % 16, by omega, by omega, rfl, ?_⟩
  rw [hval, UInt8.ofNat_toNat]

theorem byteLen_byteToHex (b : UInt8) : Utf8.byteLen (byteToHex b) = 2 := by
  obtain ⟨v, w, hv, hw, hb, -⟩ := byteToHex_eq b
  simp only [hb, Utf8.byteLen_cons, Utf8.byteLen_nil, utf8Size_hexDigit v hv, utf8Size_hexDigit w hw]

theorem byteLen_flatMap_byteToHex (bs : List UInt8) :
    Utf8.byteLen (bs.flatMap byteToHex) = bs.length * 2 := by
  induction bs with
  | nil => rfl
  | cons b bs ih =>
    rw [List.flatMap_cons, Utf8.byteLen_append, byteLen_byteToHex, ih, List.length_cons]
    omega

theorem u8FromHex_byteToHex (b : UInt8) : u8FromHex (byteToHex b) = some b := by
  obtain ⟨v, w, hv, hw, hb, hval⟩ := byteToHex_eq b
  have hplus : ∀ n, n < 16 → hexDigit n ≠ '+' := by decide
  simp [u8FromHex, hb, hplus v hv, hexVal_hexDigit v hv, hexVal_hexDigit w hw, hval]

/-- One turn of the loop, where the next two bytes are whole characters. -/
theorem hexBytes_succ {s : String} {done pair rest : List Char} {i n : Nat}
    (hs : s.toList = done ++ pair ++ rest) (hdone : Utf8.byteLen done = i * 2)
    (hpair : Utf8.byteLen pair = 2) :
    hexBytes s i (n + 1) = (do
      let b ← Fallible.orError (u8FromHex pair) (.invalidTraceId s)
      let bytes ← hexBytes s (i + 1) n
      return b :: bytes) := by
  rw [hexBytes, Utf8.slice_eq_some hs hdone (by rw [hdone, hpair]), Fallible.ofPartial_some, pure_bind]

/-- The loop reads the remaining bytes, whatever bytes stand before them. -/
theorem hexBytes_flatMap {s : String} (rest : List UInt8) :
    ∀ done : List UInt8, s.toList = (done ++ rest).flatMap byteToHex →
      hexBytes s done.length rest.length = pure rest := by
  induction rest with
  | nil => intro done _; rfl
  | cons b rest ih =>
    intro done hs
    have hcut : s.toList = done.flatMap byteToHex ++ byteToHex b ++ rest.flatMap byteToHex := by
      simpa using hs
    have hrest := ih (done ++ [b]) (by simpa using hs)
    rw [List.length_append, List.length_singleton] at hrest
    rw [List.length_cons, hexBytes_succ hcut (byteLen_flatMap_byteToHex done) (byteLen_byteToHex b),
      u8FromHex_byteToHex, Fallible.orError_some, pure_bind, hrest, pure_bind]

theorem hexToTraceId_traceIdToHex (t : TraceId) : hexToTraceId (traceIdToHex t) = pure t := by
  have hlist : (traceIdToHex t).toList = t.bytes.flatMap byteToHex := String.toList_ofList
  have hlen : Utf8.byteLen (traceIdToHex t).toList = 32 := by
    rw [hlist, byteLen_flatMap_byteToHex, t.length_eq]
  have hbytes := hexBytes_flatMap (s := traceIdToHex t) t.bytes [] hlist
  rw [List.length_nil, t.length_eq] at hbytes
  rw [hexToTraceId, if_neg (by simp [hlen]), hbytes, pure_bind, dif_pos t.length_eq]

theorem traceIdToHex_ne_empty (t : TraceId) : traceIdToHex t ≠ "" := by
  intro h
  have hlen : Utf8.byteLen (traceIdToHex t).toList = 32 := by
    rw [traceIdToHex, String.toList_ofList, byteLen_flatMap_byteToHex, t.length_eq]
  rw [h] at hlen
  exact absurd hlen (by decide)

/-! ## The flag word -/

/-- Each test of the packed word sees its own condition and no other. -/
theorem has_packed (c₀ c₁ c₂ c₃ c₄ c₅ c₈ c₉ c₁₀ c₁₁ : Bool) :
    let w := setIf c₀ FLAG_STREAMING ||| setIf c₁ FLAG_TOOL_CALLS ||| setIf c₂ FLAG_REASONING
      ||| setIf c₃ FLAG_STREAM_INCOMPLETE ||| setIf c₄ FLAG_CACHED_USED
      ||| setIf c₅ FLAG_BUDGET_BLOCKED ||| setIf c₈ FLAG_HAS_TTFT ||| setIf c₉ FLAG_HAS_HTTP_STATUS
      ||| setIf c₁₀ FLAG_HAS_ERROR ||| setIf c₁₁ FLAG_HAS_CLOSE_MS
    has w FLAG_STREAMING = c₀ ∧ has w FLAG_TOOL_CALLS = c₁ ∧ has w FLAG_REASONING = c₂ ∧
      has w FLAG_STREAM_INCOMPLETE = c₃ ∧ has w FLAG_CACHED_USED = c₄ ∧
      has w FLAG_BUDGET_BLOCKED = c₅ ∧ has w FLAG_HAS_TTFT = c₈ ∧
      has w FLAG_HAS_HTTP_STATUS = c₉ ∧ has w FLAG_HAS_ERROR = c₁₀ ∧
      has w FLAG_HAS_CLOSE_MS = c₁₁ := by
  revert c₀ c₁ c₂ c₃ c₄ c₅ c₈ c₉ c₁₀ c₁₁
  decide +kernel

/-- A single-bit mask kept or cleared by its own test. -/
theorem setIf_has_twoPow (x : BitVec 32) (i : Nat) :
    setIf (has x (BitVec.twoPow 32 i)) (BitVec.twoPow 32 i) = x &&& BitVec.twoPow 32 i := by
  have h := BitVec.and_twoPow x i
  by_cases hb : x.getLsbD i
  · simp only [hb, if_true] at h
    by_cases hz : BitVec.twoPow 32 i = 0#32
    · simp [setIf, hz]
    · simp [setIf, has, h, hz]
  · simp only [hb] at h
    simp [setIf, has, h]

theorem unpackEventFlags_packFlags (e : LlmEvent) :
    unpackEventFlags (packFlags e) = e.flags.declared := by
  obtain ⟨h0, h1, h2, h3, h4, h5, -⟩ := has_packed
    (has e.flags.bits EventFlags.STREAMING) (has e.flags.bits EventFlags.TOOL_CALLS)
    (has e.flags.bits EventFlags.REASONING) (has e.flags.bits EventFlags.STREAM_INCOMPLETE)
    (has e.flags.bits EventFlags.CACHED_USED) (has e.flags.bits EventFlags.BUDGET_BLOCKED)
    e.latency.ttftMs.isSome e.httpStatus.isSome e.error.isSome e.latency.timeToCloseMs.isSome
  have hbit := setIf_has_twoPow e.flags.bits
  rw [unpackEventFlags, packFlags, h0, h1, h2, h3, h4, h5, EventFlags.declared, EventFlags.all]
  simp only [BitVec.and_or_distrib_left]
  exact congrArg EventFlags.mk (by
    rw [show EventFlags.STREAMING = BitVec.twoPow 32 0 from rfl,
      show EventFlags.TOOL_CALLS = BitVec.twoPow 32 1 from rfl,
      show EventFlags.REASONING = BitVec.twoPow 32 2 from rfl,
      show EventFlags.STREAM_INCOMPLETE = BitVec.twoPow 32 3 from rfl,
      show EventFlags.CACHED_USED = BitVec.twoPow 32 4 from rfl,
      show EventFlags.BUDGET_BLOCKED = BitVec.twoPow 32 5 from rfl,
      hbit, hbit, hbit, hbit, hbit, hbit])

/-- The four presence bits. -/
theorem has_packFlags (e : LlmEvent) :
    has (packFlags e) FLAG_HAS_TTFT = e.latency.ttftMs.isSome ∧
      has (packFlags e) FLAG_HAS_HTTP_STATUS = e.httpStatus.isSome ∧
      has (packFlags e) FLAG_HAS_ERROR = e.error.isSome ∧
      has (packFlags e) FLAG_HAS_CLOSE_MS = e.latency.timeToCloseMs.isSome := by
  obtain ⟨-, -, -, -, -, -, h⟩ := has_packed
    (has e.flags.bits EventFlags.STREAMING) (has e.flags.bits EventFlags.TOOL_CALLS)
    (has e.flags.bits EventFlags.REASONING) (has e.flags.bits EventFlags.STREAM_INCOMPLETE)
    (has e.flags.bits EventFlags.CACHED_USED) (has e.flags.bits EventFlags.BUDGET_BLOCKED)
    e.latency.ttftMs.isSome e.httpStatus.isSome e.error.isSome e.latency.timeToCloseMs.isSome
  exact h

/-! ## The other columns -/

theorem optSmol_getD (o : Option String) : optSmol (o.getD "") = o.bind optSmol := by
  cases o <;> simp [optSmol]

/-- A sentinel and a presence bit keep the option. -/
theorem ite_isSome_getD {α : Type} (o : Option α) (d : α) :
    (if o.isSome then some (o.getD d) else none) = o := by
  cases o <;> simp

theorem readProvider_idKey (p : Provider) :
    readProvider p.idKey (match p with
      | .openAICompatible baseUrl => baseUrl
      | _ => "") = p := by
  rw [readProvider]
  by_cases h : p.idKey = "openai_compatible"
  · obtain ⟨u, rfl⟩ := Provider.idKey_eq_openai_compatible h
    rfl
  · rw [if_neg h]
    refine Provider.fromIdKey_idKey ?_
    rintro u rfl
    exact h rfl

theorem readError_toLogEvent (tf : TextFormats) (e : LlmEvent) :
    readError tf (toLogEvent tf e) = pure (e.error.map normError) := by
  have hlabel : (toLogEvent tf e).labels LABEL_ERROR_JSON = (e.error.map encodeError).getD "" := rfl
  have hflag : has (toLogEvent tf e).flags FLAG_HAS_ERROR = e.error.isSome := (has_packFlags e).2.2.1
  rw [readError, hlabel, hflag]
  cases he : e.error with
  | none => rfl
  | some err =>
    have hne : (encodeError err != "") = true := by simpa using encodeError_ne_empty tf err
    simp only [Option.map_some, Option.getD_some, Option.isSome_some, Bool.true_and, hne, if_true,
      decodeError_encodeError]

theorem readMetadata_toLogEvent {tf : TextFormats} {e : LlmEvent} (h : MetadataReads tf e) :
    readMetadata tf (toLogEvent tf e) = pure e.metadata := by
  have hlabel : (toLogEvent tf e).labels LABEL_METADATA_JSON = (e.metadata.map tf.toJson).getD "" :=
    rfl
  rw [readMetadata, hlabel]
  cases hm : e.metadata with
  | none => rfl
  | some v =>
    simp only [Option.map_some, Option.getD_some]
    rw [if_neg (tf.toJson_ne_empty v), h v hm, Fallible.orError_some, pure_bind]

theorem readTraceId_toLogEvent (tf : TextFormats) (e : LlmEvent) :
    readTraceId (toLogEvent tf e) = pure e.traceId := by
  have hlabel : (toLogEvent tf e).labels LABEL_TRACE_ID = (e.traceId.map traceIdToHex).getD "" := rfl
  rw [readTraceId, hlabel]
  cases ht : e.traceId with
  | none => rfl
  | some t =>
    simp only [Option.map_some, Option.getD_some]
    rw [if_neg (traceIdToHex_ne_empty t), hexToTraceId_traceIdToHex, pure_bind]

theorem readClientIp_toLogEvent (tf : TextFormats) (e : LlmEvent) :
    readClientIp tf (toLogEvent tf e) = pure e.clientIp := by
  have hlabel : (toLogEvent tf e).labels LABEL_CLIENT_IP = (e.clientIp.map tf.ip.print).getD "" := rfl
  rw [readClientIp, hlabel]
  cases hip : e.clientIp with
  | none => rfl
  | some a =>
    simp only [Option.map_some, Option.getD_some]
    rw [if_neg (tf.ip_ne_empty a), tf.ip.parse_print, Fallible.orError_some, pure_bind]

theorem readMethod_toLogEvent (tf : TextFormats) (e : LlmEvent) :
    readMethod (toLogEvent tf e) = pure e.method := by
  have hlabel : (toLogEvent tf e).labels LABEL_METHOD = e.method.name := rfl
  rw [readMethod, hlabel, if_neg e.method.token.1, Method.fromBytes_name, Fallible.orError_some]

theorem readUsage_toLogEvent (tf : TextFormats) (e : LlmEvent) :
    readUsage (toLogEvent tf e) = e.usage := rfl

theorem readLatency_toLogEvent (tf : TextFormats) (e : LlmEvent) :
    readLatency (toLogEvent tf e) = e.latency := by
  obtain ⟨httft, -, -, hclose⟩ := has_packFlags e
  have h1 : has (toLogEvent tf e).flags FLAG_HAS_TTFT = e.latency.ttftMs.isSome := httft
  have h2 : has (toLogEvent tf e).flags FLAG_HAS_CLOSE_MS = e.latency.timeToCloseMs.isSome := hclose
  have h3 : (toLogEvent tf e).latencyDetailMs = e.latency.ttftMs.getD 0 := rfl
  have h4 : (toLogEvent tf e).counters COUNTER_CLOSE_MS = e.latency.timeToCloseMs.getD 0 := rfl
  rw [readLatency, h1, h2, h3, h4, ite_isSome_getD, ite_isSome_getD]
  rfl

theorem readStatus_toLogEvent (tf : TextFormats) (e : LlmEvent) :
    (if has (toLogEvent tf e).flags FLAG_HAS_HTTP_STATUS then some (toLogEvent tf e).status else none)
      = e.httpStatus := by
  have hflag : has (toLogEvent tf e).flags FLAG_HAS_HTTP_STATUS = e.httpStatus.isSome :=
    (has_packFlags e).2.1
  rw [hflag]
  exact ite_isSome_getD e.httpStatus 0

/-! ## The whole row -/

/-- Reading a written row gives the event back, up to `norm`. -/
theorem fromEventRef_toLogEvent {tf : TextFormats} {e : LlmEvent} (h : MetadataReads tf e) :
    fromEventRef tf (toLogEvent tf e) = pure (norm e) := by
  have hid : tf.ulid.parse (toLogEvent tf e).id = some e.id := tf.ulid.parse_print e.id
  rw [fromEventRef, hid, Fallible.orError_some, pure_bind, readError_toLogEvent, pure_bind,
    readMetadata_toLogEvent h, pure_bind, readTraceId_toLogEvent, pure_bind,
    readClientIp_toLogEvent, pure_bind, readMethod_toLogEvent, pure_bind, readStatus_toLogEvent,
    readUsage_toLogEvent, readLatency_toLogEvent]
  refine congrArg pure ?_
  rw [norm]
  congr 1
  all_goals first
    | exact optSmol_getD _
    | exact readProvider_idKey _
    | exact unpackEventFlags_packFlags e

/-- The row mapping loses what `norm` erases and nothing else: a written row is read back without an
error, and two events with one row have one norm. -/
theorem row_keeps_norm (tf : TextFormats) (e : LlmEvent) (h : MetadataReads tf e) :
    fromEventRef tf (toLogEvent tf e) = pure (norm e) ∧
      ∀ e', MetadataReads tf e' → toLogEvent tf e = toLogEvent tf e' → norm e = norm e' := by
  refine ⟨fromEventRef_toLogEvent h, ?_⟩
  intro e' h' hrow
  have h1 := fromEventRef_toLogEvent h
  rw [hrow, fromEventRef_toLogEvent h'] at h1
  have hval := congrArg Fallible.value? h1
  simpa using hval.symm

/-- The same at a rate-limited event whose metadata nests. -/
theorem row_keeps_norm_sample :
    MetadataReads textFormats sampleEvent ∧
      fromEventRef textFormats (toLogEvent textFormats sampleEvent) = pure (norm sampleEvent) := by
  have h : MetadataReads textFormats sampleEvent := by
    intro v hv
    cases hv
    exact TextFormats.fromJson_toJson (by decide) rfl
  exact ⟨h, (row_keeps_norm textFormats sampleEvent h).1⟩

end Keplor.Store
