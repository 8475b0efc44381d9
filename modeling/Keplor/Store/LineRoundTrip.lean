import Keplor.Core.Formats
import Keplor.Store.StoredEvent
import Keplor.Store.RowRoundTrip

/-!
# What survives the archive line

`ofLine_toLine` computes what reading a written line gives, for every event: an error exactly when
the metadata is nested beyond what is left of the reader's limit, and otherwise the event with its
metadata reread. `line_reads_back_iff` turns that into a condition on the event.
-/

set_option autoImplicit false

namespace Keplor.Store

open Keplor.Lib Keplor.Core Keplor.Lib.Json

/-! ## The enums and the nested records -/

theorem decodeProvider_encodeProvider (p : Provider) : decodeProvider (encodeProvider p) = some p := by
  cases p <;>
    simp [encodeProvider, decodeProvider, tagged, required, field, providerKind, toStr]

theorem decodeDuration_encodeDuration (d : Duration) :
    decodeDuration (encodeDuration d) = some d := by
  simp [encodeDuration, decodeDuration, required, field, toU64_ofU64, toU32_ofU32,
    Duration.new?_of_valid]

theorem encodeDuration_ne_null (d : Duration) : encodeDuration d ≠ .null := by
  simp [encodeDuration]

theorem ofU16_ne_null (n : UInt16) : ofU16 n ≠ .null := by simp [ofU16, ofNat64]

theorem ofU32_ne_null (n : UInt32) : ofU32 n ≠ .null := by simp [ofU32, ofNat64]

/-- The serializer refuses exactly the variant that wraps a string. -/
theorem encodeProviderError_eq_none {e : ProviderError} :
    encodeProviderError e = none ↔ ∃ m, e = .invalidRequest m := by
  cases e <;> simp [encodeProviderError]

theorem encodeProviderError_ne_null {e : ProviderError} {j : Json}
    (h : encodeProviderError e = some j) : j ≠ .null := by
  cases e <;> simp only [encodeProviderError, Option.some.injEq, reduceCtorEq] at h <;>
    subst h <;> simp

-- the numbers stay variables here: the tag is then the only thing left to compute
theorem decodeProviderError_limit (j : Json) :
    decodeProviderError (.obj [("kind", .str "context_length_exceeded"), ("limit", j)])
      = (toU32 j).map .contextLengthExceeded := by
  simp [decodeProviderError, tagged, required, field, toStr]

theorem decodeProviderError_other (i : Json) (m : String) :
    decodeProviderError (.obj [("kind", .str "other"), ("status", i), ("message", .str m)])
      = (toU16 i).map fun s => .other s m := by
  simp [decodeProviderError, tagged, required, field, toStr]
  cases toU16 i <;> rfl

theorem decodeProviderError_encode {e : ProviderError} {j : Json}
    (h : encodeProviderError e = some j) : decodeProviderError j = some e := by
  cases e with
  | rateLimited r =>
    simp only [encodeProviderError, Option.some.injEq] at h
    subst h
    have hopt : optional decodeDuration [("retry_after", ofOption encodeDuration r)] "retry_after"
        = some r :=
      optional_ofOption (by simp) (by simp) encodeDuration_ne_null
        fun d _ => decodeDuration_encodeDuration d
    simp [decodeProviderError, tagged, required, field, toStr, hopt]
  | invalidRequest m => exact absurd h (by simp [encodeProviderError])
  | authFailed =>
    cases h
    simp [decodeProviderError, tagged, required, field, toStr]
  | contextLengthExceeded l =>
    simp only [encodeProviderError, Option.some.injEq] at h
    rw [← h, decodeProviderError_limit, toU32_ofU32, Option.map_some]
  | contentFiltered r =>
    cases h
    simp [decodeProviderError, tagged, required, field, toStr]
  | upstreamTimeout =>
    cases h
    simp [decodeProviderError, tagged, required, field, toStr]
  | upstreamUnavailable =>
    cases h
    simp [decodeProviderError, tagged, required, field, toStr]
  | other st m =>
    simp only [encodeProviderError, Option.some.injEq] at h
    rw [← h, decodeProviderError_other, toU16_ofU16, Option.map_some]

theorem decodeUsage_encodeUsage (u : Usage) : decodeUsage (encodeUsage u) = some u := by
  simp [encodeUsage, decodeUsage, defaulted, field, toU32_ofU32]

theorem decodeLatencies_encodeLatencies (l : Latencies) :
    decodeLatencies (encodeLatencies l) = some l := by
  have h1 : optional toU32 [("ttft_ms", ofOption ofU32 l.ttftMs), ("total_ms", ofU32 l.totalMs),
      ("time_to_close_ms", ofOption ofU32 l.timeToCloseMs)] "ttft_ms" = some l.ttftMs :=
    optional_ofOption (by simp) (by simp) ofU32_ne_null fun a _ => toU32_ofU32 a
  have h2 : optional toU32 [("ttft_ms", ofOption ofU32 l.ttftMs), ("total_ms", ofU32 l.totalMs),
      ("time_to_close_ms", ofOption ofU32 l.timeToCloseMs)] "time_to_close_ms"
        = some l.timeToCloseMs :=
    optional_ofOption (by simp) (by simp) ofU32_ne_null fun a _ => toU32_ofU32 a
  simp [encodeLatencies, decodeLatencies, defaulted, field, toU32_ofU32, h1, h2]

/-! ## The trace id -/

theorem hexPairs_flatMap (bs : List UInt8) : hexPairs (bs.flatMap byteToHex) = some bs := by
  induction bs with
  | nil => rfl
  | cons b bs ih =>
    obtain ⟨v, w, hv, hw, hb, hval⟩ := byteToHex_eq b
    simp only [List.flatMap_cons, hb, List.cons_append, List.nil_append, hexPairs,
      hexVal_hexDigit v hv, hexVal_hexDigit w hw, ih, hval, Option.bind_eq_bind, Option.bind_some,
      Option.pure_def]

theorem traceIdFromStr_traceIdToHex (t : TraceId) : traceIdFromStr (traceIdToHex t) = some t := by
  have hlist : (traceIdToHex t).toList = t.bytes.flatMap byteToHex := String.toList_ofList
  have hnox : ∀ n, n < 16 → hexDigit n ≠ 'x' := by decide
  -- no `0x` to strip: the second character is a hexadecimal digit
  have hstrip : strip0x (t.bytes.flatMap byteToHex) = t.bytes.flatMap byteToHex := by
    cases t.bytes with
    | nil => rfl
    | cons b bs =>
      obtain ⟨v, w, -, hw, hb, -⟩ := byteToHex_eq b
      simp [hb, strip0x, hnox w hw]
  rw [traceIdFromStr, hlist, hstrip]
  simp [byteLen_flatMap_byteToHex, hexPairs_flatMap, t.length_eq]

/-! ## Everything but the metadata is flat -/

theorem flat_ofInt64 (n : Nat) (x : Int64) : Flat n (ofInt64 x) := Flat.int n _

theorem flat_ofU16 (n : Nat) (x : UInt16) : Flat n (ofU16 x) := Flat.int n _

theorem flat_ofU32 (n : Nat) (x : UInt32) : Flat n (ofU32 x) := Flat.int n _

theorem flat_ofU64 (n : Nat) (x : UInt64) : Flat n (ofU64 x) := Flat.int n _

theorem flat_encodeProvider (p : Provider) : Flat 1 (encodeProvider p) := by
  cases p with
  | openAICompatible u => exact Flat.obj (by simp [Flat.str])
  | _ => exact Flat.obj (by simp [Flat.str])

theorem flat_encodeDuration (d : Duration) : Flat 1 (encodeDuration d) :=
  Flat.obj (by simp [flat_ofU32, flat_ofU64])

theorem flat_encodeProviderError {e : ProviderError} {j : Json}
    (h : encodeProviderError e = some j) : Flat 2 j := by
  cases e with
  | rateLimited r =>
    cases h
    exact Flat.obj (by simp [Flat.str, Flat.ofOption flat_encodeDuration])
  | invalidRequest m => exact absurd h (by simp [encodeProviderError])
  | authFailed => cases h; exact Flat.obj (by simp [Flat.str])
  | contextLengthExceeded l => cases h; exact Flat.obj (by simp [Flat.str, flat_ofU32])
  | contentFiltered r => cases h; exact Flat.obj (by simp [Flat.str])
  | upstreamTimeout => cases h; exact Flat.obj (by simp [Flat.str])
  | upstreamUnavailable => cases h; exact Flat.obj (by simp [Flat.str])
  | other s m => cases h; exact Flat.obj (by simp [Flat.str, flat_ofU16])

theorem flat_encodeUsage (u : Usage) : Flat 1 (encodeUsage u) :=
  Flat.obj (by simp [flat_ofU32])

theorem flat_encodeLatencies (l : Latencies) : Flat 1 (encodeLatencies l) :=
  Flat.obj (by simp [flat_ofU32, Flat.ofOption (flat_ofU32 0)])

theorem flat_membersBefore (tf : TextFormats) (s : StoredEvent) {error : Json} (h : Flat 2 error) :
    ∀ m ∈ s.membersBefore tf error, Flat 2 m.2 := by
  have hstr := fun o : Option String => Flat.ofOption (Flat.str 2) o
  have hstatus := Flat.ofOption (flat_ofU16 2) s.httpStatus
  have htrace := Flat.ofOption (fun t => Flat.str 2 (traceIdToHex t)) s.traceId
  have hprovider := (flat_encodeProvider s.provider).mono (show 1 ≤ 2 by decide)
  have husage := (flat_encodeUsage s.usage).mono (show 1 ≤ 2 by decide)
  have hlatency := (flat_encodeLatencies s.latency).mono (show 1 ≤ 2 by decide)
  simp [StoredEvent.membersBefore, h, hstr, hstatus, htrace, hprovider, husage, hlatency, Flat.str,
    flat_ofInt64]

/-! ## The record -/

theorem nodup_members (tf : TextFormats) (s : StoredEvent) (error metadata : Json) :
    ((s.members tf error metadata).map Prod.fst).Nodup := by
  have hkeys : (s.members tf error metadata).map Prod.fst =
      ["id", "ts_ns", "user_id", "api_key_id", "org_id", "project_id", "route_id", "provider",
        "model", "model_family", "endpoint", "method", "http_status", "usage", "cost_nanodollars",
        "latency", "flags", "error", "client_ip", "user_agent", "request_id", "trace_id", "source",
        "ingested_at", "metadata", "tier"] := rfl
  rw [hkeys]
  decide

/-- What the metadata field is read as. -/
def metadataOf : Json → Option JsonValue
  | .null => none
  | j => some (.ofTree j)

theorem optional_metadata {ms : List (String × Json)} {j : Json} (hk : (ms.map Prod.fst).Nodup)
    (h : ("metadata", j) ∈ ms) :
    optional (fun j => some (JsonValue.ofTree j)) ms "metadata" = some (metadataOf j) := by
  rw [Json.optional, field_of_mem hk h]
  cases j <;> rfl

/-- The record reads back, with the error and the metadata as their own fields read. -/
theorem ofMembers_members {tf : TextFormats} {s : StoredEvent} {error metadata : Json}
    {e : Option ProviderError}
    (he : optional decodeProviderError (s.members tf error metadata) "error" = some e) :
    StoredEvent.ofMembers tf (s.members tf error metadata)
      = some { s with error := e, metadata := metadataOf metadata } := by
  have hk := nodup_members tf s error metadata
  have hm : ∀ (i : Nat) (k : String) (j : Json), (s.members tf error metadata)[i]? = some (k, j) →
      (k, j) ∈ s.members tf error metadata := fun i k j => List.mem_of_getElem?
  have hstr : ∀ (i : Nat) (k v : String), (s.members tf error metadata)[i]? = some (k, .str v) →
      required toStr (s.members tf error metadata) k = some v := by
    intro i k v hi
    rw [required_of_mem hk (hm i k _ hi)]
    rfl
  have hint : ∀ (i : Nat) (k : String) (x : Int64),
      (s.members tf error metadata)[i]? = some (k, ofInt64 x) →
      required toInt64 (s.members tf error metadata) k = some x := by
    intro i k x hi
    rw [required_of_mem hk (hm i k _ hi), toInt64_ofInt64]
  have hopt : ∀ (i : Nat) (k : String) (o : Option String),
      (s.members tf error metadata)[i]? = some (k, ofOption .str o) →
      optional toStr (s.members tf error metadata) k = some o := by
    intro i k o hi
    exact optional_ofOption hk (hm i k _ hi) (by simp) fun _ _ => rfl
  have hprovider : required decodeProvider (s.members tf error metadata) "provider"
      = some s.provider := by
    rw [required_of_mem hk (hm 7 _ _ rfl), decodeProvider_encodeProvider]
  have hstatus : optional toU16 (s.members tf error metadata) "http_status" = some s.httpStatus :=
    optional_ofOption hk (hm 12 _ _ rfl) ofU16_ne_null fun a _ => toU16_ofU16 a
  have husage : required decodeUsage (s.members tf error metadata) "usage" = some s.usage := by
    rw [required_of_mem hk (hm 13 _ _ rfl), decodeUsage_encodeUsage]
  have hlatency : required decodeLatencies (s.members tf error metadata) "latency"
      = some s.latency := by
    rw [required_of_mem hk (hm 15 _ _ rfl), decodeLatencies_encodeLatencies]
  have hflags : (required toStr (s.members tf error metadata) "flags").bind tf.flags.parse
      = some s.flags := by
    rw [hstr 16 _ _ rfl, Option.bind_some, tf.flags.parse_print]
  have htrace : optional (fun j => (toStr j).bind traceIdFromStr) (s.members tf error metadata)
      "trace_id" = some s.traceId :=
    optional_ofOption hk (hm 21 _ _ rfl) (by simp) fun t _ => traceIdFromStr_traceIdToHex t
  have hmeta := optional_metadata hk (hm 24 _ _ rfl)
  rw [StoredEvent.ofMembers, hstr 0 _ _ rfl, hint 1 _ _ rfl, hopt 2 _ _ rfl, hopt 3 _ _ rfl,
    hopt 4 _ _ rfl, hopt 5 _ _ rfl, hstr 6 _ _ rfl, hprovider, hstr 8 _ _ rfl, hopt 9 _ _ rfl,
    hstr 10 _ _ rfl, hstr 11 _ _ rfl, hstatus, husage, hint 14 _ _ rfl, hlatency, hflags, he,
    hopt 18 _ _ rfl, hopt 19 _ _ rfl, hopt 20 _ _ rfl, htrace, hopt 22 _ _ rfl, hint 23 _ _ rfl,
    hmeta, hstr 25 _ _ rfl]
  rfl

/-! ## The line -/

theorem encodeErrorField_eq_none {o : Option ProviderError} :
    encodeErrorField o = none ↔ ∃ m, o = some (.invalidRequest m) := by
  cases o with
  | none => simp [encodeErrorField]
  | some e => simp [encodeErrorField, encodeProviderError_eq_none]

theorem flat_encodeErrorField {o : Option ProviderError} {j : Json}
    (h : encodeErrorField o = some j) : Flat 2 j := by
  cases o with
  | none => cases h; exact Flat.null 2
  | some e => exact flat_encodeProviderError h

theorem optional_error {ms : List (String × Json)} {o : Option ProviderError} {j : Json}
    (hk : (ms.map Prod.fst).Nodup) (h : ("error", j) ∈ ms) (hj : encodeErrorField o = some j) :
    optional decodeProviderError ms "error" = some o := by
  cases o with
  | none =>
    cases hj
    rw [Json.optional, field_of_mem hk h]
  | some e =>
    have hne := encodeProviderError_ne_null hj
    have hfield : ("error", ofOption (fun _ : ProviderError => j) (some e)) ∈ ms := h
    exact optional_ofOption hk hfield (fun _ => hne)
      fun a ha => by cases ha; exact decodeProviderError_encode hj

/-- What reading the written line of a record gives: an error when the metadata is deeper than the
126 levels left inside the line, and otherwise the record with its metadata reread. -/
theorem ofLine_members {tf : TextFormats} {s : StoredEvent} {error metadata : Json}
    (h : encodeErrorField s.error = some error) :
    StoredEvent.ofLine tf (print tf.float (.obj (s.members tf error metadata)))
      = if depth metadata ≤ 126 then
          (reread tf.float metadata).map fun w => { s with metadata := metadataOf w }
        else none := by
  have hbefore := flat_membersBefore tf s (flat_encodeErrorField h)
  have htier : ∀ m ∈ [("tier", Json.str s.tier)], Flat 2 m.2 := by simp [Flat.str]
  have hparse := parse_print_member tf.float "metadata" metadata hbefore htier
    (show 2 ≤ 126 by decide)
  rw [StoredEvent.ofLine, StoredEvent.members, TextFormats.recursionLimit, hparse]
  by_cases hd : depth metadata ≤ 126
  · rw [if_pos hd, if_pos hd]
    cases hw : reread tf.float metadata with
    | none => rfl
    | some w =>
      have herr := optional_error (nodup_members tf s error w)
        (List.mem_of_getElem? (i := 17) rfl) h
      exact ofMembers_members herr
  · rw [if_neg hd, if_neg hd]

/-! ## The event -/

/-- An event some stored row is read as. -/
def Returned (tf : TextFormats) (e : LlmEvent) : Prop := ∃ r, fromEventRef tf r = pure e

/-- The archive line of the event is written, is one line, and reads back as the event. -/
def LineReadsBack (tf : TextFormats) (e : LlmEvent) : Prop :=
  ∃ line s, (StoredEvent.from tf e).toLine tf = some line ∧ 10 ∉ Utf8.encode line ∧
    StoredEvent.ofLine tf line = some s ∧ s.tryInto tf = .ok e

/-- The error is one the derived serializer can write. -/
def ErrorWritable (e : LlmEvent) : Prop := ∀ m, e.error ≠ some (.invalidRequest m)

/-- The metadata is not `null`, leaves one level of nesting to the line, and each of its doubles is
read back from its spelling. -/
def MetadataFits (tf : TextFormats) (e : LlmEvent) : Prop :=
  ∀ v, e.metadata = some v →
    v.tree ≠ .null ∧ depth v.tree ≤ 126 ∧ reread tf.float v.tree = some v.tree

theorem Returned.sha {tf : TextFormats} {e : LlmEvent} (h : Returned tf e) :
    e.requestSha256 = Sha256.zero ∧ e.responseSha256 = Sha256.zero := by
  obtain ⟨r, h⟩ := h
  exact (fields_of_fromEventRef h).2.2

theorem tryInto_from {tf : TextFormats} {e : LlmEvent} (m : Option JsonValue)
    (h : e.requestSha256 = Sha256.zero ∧ e.responseSha256 = Sha256.zero) :
    StoredEvent.tryInto tf { StoredEvent.from tf e with metadata := m }
      = .ok { e with metadata := m } := by
  have hip : (e.clientIp.map tf.ip.print).bind tf.ip.parse = e.clientIp := by
    cases e.clientIp with
    | none => rfl
    | some a => exact tf.ip.parse_print a
  rw [StoredEvent.tryInto]
  simp only [StoredEvent.from, tf.ulid.parse_print, Method.fromBytes_name, Option.getD_some, hip,
    h.1, h.2]
  rfl

theorem metadataOf_of_ne {w : Json} (h : w ≠ .null) : metadataOf w = some (.ofTree w) := by
  cases w with
  | null => exact absurd rfl h
  | _ => rfl

/-- The reread metadata is the metadata exactly when it was not `null` and every double came back. -/
theorem metadataOf_eq {ff : FloatFormat} {o : Option JsonValue} {w : Json}
    (hw : reread ff (ofOption JsonValue.tree o) = some w) :
    metadataOf w = o ↔ ∀ v, o = some v → v.tree ≠ .null ∧ w = v.tree := by
  cases o with
  | none =>
    simp only [ofOption, reread, Option.some.injEq] at hw
    subst hw
    simp [metadataOf]
  | some v =>
    simp only [ofOption] at hw
    simp only [Option.some.injEq, forall_eq']
    constructor
    · intro h
      have hne : w ≠ .null := by
        rintro rfl
        exact absurd h (by simp [metadataOf])
      rw [metadataOf_of_ne hne, Option.some.injEq] at h
      have hv : w.canon = v.tree := congrArg JsonValue.tree h
      rw [canon_eq_self (isCanon_reread v.canonical hw)] at hv
      exact ⟨fun hnull => hne (hv.trans hnull), hv⟩
    · rintro ⟨hne, rfl⟩
      rw [metadataOf_of_ne hne, JsonValue.ofTree_tree]

theorem noNewline_print (ff : FloatFormat) (j : Json) : (10 : UInt8) ∉ Utf8.encode (print ff j) :=
  Utf8.notMem_encode (print_printable ff j) (by decide)

/-- A written line, with the value its error field holds. -/
theorem toLine_eq_some {tf : TextFormats} {s : StoredEvent} {line : List Char}
    (h : s.toLine tf = some line) :
    ∃ error, encodeErrorField s.error = some error ∧
      line = print tf.float (.obj (s.members tf error (ofOption JsonValue.tree s.metadata))) := by
  rw [StoredEvent.toLine] at h
  obtain ⟨error, he, h⟩ := Option.bind_eq_some_iff.mp h
  exact ⟨error, he, (Option.some.inj h).symm⟩

/-- The JSON value of an archive line, unless the error cannot be serialized. -/
def StoredEvent.value (tf : TextFormats) (s : StoredEvent) : Option Json :=
  (encodeErrorField s.error).map fun error =>
    .obj (s.members tf error (ofOption JsonValue.tree s.metadata))

/-- `serde_json` reads a printed value as that value. -/
def ParseUndoesPrint (tf : TextFormats) (j : Json) : Prop :=
  parse tf.float TextFormats.recursionLimit (print tf.float j) = some j

theorem toLine_eq_map_value (tf : TextFormats) (s : StoredEvent) :
    s.toLine tf = (s.value tf).map (print tf.float) := by
  unfold StoredEvent.toLine StoredEvent.value
  cases encodeErrorField s.error <;> rfl

/-- A line that is read back as printed leaves the metadata room, and its doubles come back. -/
theorem metadata_of_parseUndoesPrint {tf : TextFormats} {s : StoredEvent} {error metadata : Json}
    (herr : encodeErrorField s.error = some error)
    (h : ParseUndoesPrint tf (.obj (s.members tf error metadata))) :
    depth metadata ≤ 126 ∧ reread tf.float metadata = some metadata := by
  have hbefore := flat_membersBefore tf s (flat_encodeErrorField herr)
  have htier : ∀ m ∈ [("tier", Json.str s.tier)], Flat 2 m.2 := by simp [Flat.str]
  have hparse := parse_print_member tf.float "metadata" metadata hbefore htier
    (show 2 ≤ 126 by decide)
  unfold ParseUndoesPrint StoredEvent.members at h
  rw [TextFormats.recursionLimit, hparse] at h
  split at h
  · rename_i hdepth
    refine ⟨hdepth, ?_⟩
    obtain ⟨w, hw, heq⟩ := Option.map_eq_some_iff.mp h
    simp only [Json.obj.injEq, List.append_cancel_left_eq, List.cons.injEq, Prod.mk.injEq, true_and,
      and_true] at heq
    rw [hw, heq]
  · cases h

theorem toLine_isSome (tf : TextFormats) {e : LlmEvent} :
    (∃ line, (StoredEvent.from tf e).toLine tf = some line) ↔ ErrorWritable e := by
  have hfield : (StoredEvent.from tf e).error = e.error := rfl
  cases herr : encodeErrorField e.error with
  | none =>
    obtain ⟨m, hm⟩ := encodeErrorField_eq_none.mp herr
    refine iff_of_false ?_ fun h => h m hm
    rintro ⟨line, hline⟩
    obtain ⟨error, he, -⟩ := toLine_eq_some hline
    rw [hfield, herr] at he
    exact absurd he (by simp)
  | some error =>
    refine iff_of_true ⟨_, by rw [StoredEvent.toLine, hfield, herr]; rfl⟩ ?_
    intro m hm
    rw [encodeErrorField_eq_none.mpr ⟨m, hm⟩] at herr
    exact absurd herr (by simp)

/-- A written line reads back as its event exactly when the metadata fits. -/
theorem tryInto_ofLine_iff {tf : TextFormats} {e : LlmEvent} {line : List Char}
    (hsha : e.requestSha256 = Sha256.zero ∧ e.responseSha256 = Sha256.zero)
    (hline : (StoredEvent.from tf e).toLine tf = some line) :
    (∃ s, StoredEvent.ofLine tf line = some s ∧ s.tryInto tf = .ok e) ↔ MetadataFits tf e := by
  obtain ⟨error, herr, rfl⟩ := toLine_eq_some hline
  have hmeta : (StoredEvent.from tf e).metadata = e.metadata := rfl
  rw [ofLine_members herr, hmeta]
  by_cases hd : depth (ofOption JsonValue.tree e.metadata) ≤ 126
  · rw [if_pos hd]
    cases hw : reread tf.float (ofOption JsonValue.tree e.metadata) with
    | none =>
      refine iff_of_false (by simp) fun hfits => ?_
      cases hv : e.metadata with
      | none => rw [hv] at hw; exact absurd hw (by simp [ofOption, reread])
      | some v =>
        rw [hv, ofOption, (hfits v hv).2.2] at hw
        exact absurd hw (by simp)
    | some w =>
      have hok : (∃ s, (some w).map (fun w => { StoredEvent.from tf e with metadata := metadataOf w })
          = some s ∧ s.tryInto tf = .ok e) ↔ metadataOf w = e.metadata := by
        simp only [Option.map_some, Option.some.injEq, exists_eq_left', tryInto_from _ hsha,
          Except.ok.injEq]
        constructor
        · intro h; rw [← h]
        · intro h; rw [h]
      rw [hok, metadataOf_eq hw]
      refine forall_congr' fun v => imp_congr_right fun hv => and_congr_right fun _ => ?_
      rw [hv, ofOption] at hw hd
      rw [hw, Option.some.injEq]
      exact ⟨fun h => ⟨hd, h⟩, fun h => h.2⟩
  · rw [if_neg hd]
    refine iff_of_false (by simp) fun hfits => hd ?_
    cases hv : e.metadata with
    | none => exact Nat.zero_le _
    | some v => exact (hfits v hv).2.1

/-- Archiving is lossless exactly for the events whose error the derived serializer can write and
whose metadata fits the line. -/
theorem line_reads_back_iff (tf : TextFormats) (e : LlmEvent) (hret : Returned tf e) :
    LineReadsBack tf e ↔ ErrorWritable e ∧ MetadataFits tf e := by
  constructor
  · rintro ⟨line, s, hline, -, hread, hinto⟩
    exact ⟨(toLine_isSome _).mp ⟨line, hline⟩, (tryInto_ofLine_iff hret.sha hline).mp ⟨s, hread, hinto⟩⟩
  · rintro ⟨herr, hmeta⟩
    obtain ⟨line, hline⟩ := (toLine_isSome _).mpr herr
    obtain ⟨s, hread, hinto⟩ := (tryInto_ofLine_iff hret.sha hline).mpr hmeta
    refine ⟨line, s, hline, ?_, hread, hinto⟩
    obtain ⟨error, -, rfl⟩ := toLine_eq_some hline
    exact noNewline_print tf.float _

/-- The event of a rejected request: what a row of it reads as. -/
def rejectedEvent : LlmEvent := norm { sampleEvent with error := some (.invalidRequest "bad") }

theorem returned_norm {tf : TextFormats} {e : LlmEvent} (h : MetadataReads tf e) :
    Returned tf (norm e) := ⟨toLogEvent tf e, fromEventRef_toLogEvent h⟩

/-- The condition at an event that satisfies it. -/
theorem line_reads_back_sample :
    Returned textFormats (norm sampleEvent) ∧ LineReadsBack textFormats (norm sampleEvent) := by
  have hret : Returned textFormats (norm sampleEvent) := by
    refine returned_norm fun v hv => ?_
    cases hv
    exact TextFormats.fromJson_toJson (by decide) rfl
  refine ⟨hret, (line_reads_back_iff textFormats _ hret).mpr ⟨?_, ?_⟩⟩
  · intro m hm
    cases hm
  · intro v hv
    cases hv
    exact ⟨by decide, by decide, rfl⟩

/-- A stored event with an `InvalidRequest` error cannot be archived. -/
theorem rejected_line_fails :
    Returned textFormats rejectedEvent ∧ ¬LineReadsBack textFormats rejectedEvent := by
  refine ⟨returned_norm fun v hv => ?_, ?_⟩
  · cases hv
    exact TextFormats.fromJson_toJson (by decide) rfl
  · rintro ⟨line, s, hline, -⟩
    exact (toLine_isSome _).mp ⟨line, hline⟩ "bad" rfl

end Keplor.Store
