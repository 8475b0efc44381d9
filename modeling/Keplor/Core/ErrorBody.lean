import Keplor.Core.Formats
import Keplor.Lib.Utf8

/-!
# `keplor-core/src/error.rs` — a provider's error response

`from_provider_response` classifies by status, then by the type named in the body, and falls back to a
message cut off at 256 bytes. It is written in `Option`, with `none` for an abort: a slice that cuts a
character, a walk below zero.

Of the three exits that carry a text two go through `truncate`. The third is the content filter, and
its reason is as long as the body makes it. `error_texts_bounded_iff` says that this is all that is
wrong with the bound; every text is a prefix of one of the sources it can come from anyway.
-/

set_option autoImplicit false

namespace Keplor.Core

open Keplor.Lib Keplor.Lib.Json Keplor.Lib.Utf8

/-! ## Reading a value -/

/-- `serde_json::from_slice::<Value>` -/
def TextFormats.fromSlice (tf : TextFormats) (body : List UInt8) : Option JsonValue :=
  (decode body).bind fun text => tf.fromJson (String.ofList text)

/-- `Value::get` by key -/
def getMember (j : Json) (k : String) : Option Json :=
  match j with
  | .obj ms => (ms.find? fun m => m.1 == k).map Prod.snd
  | _ => none

/-- `Value::pointer`; none of the tokens it is called with is an index. -/
def pointer (j : Json) (tokens : List String) : Option Json := tokens.foldlM getMember j

/-- `Value::as_str` -/
def asStr : Json → Option String
  | .str s => some s
  | _ => none

/-- `Value::as_u64` -/
def asU64 : Json → Option UInt64
  | .int i => if 0 ≤ i.val then some (.ofNat i.val.toNat) else none
  | _ => none

/-- What `parse_error_body` finds. -/
structure ErrorBody where
  errType : Option String := none
  errMessage : Option String := none
  retryAfterSecs : Option UInt64 := none
  contextLimit : Option UInt32 := none

/-- `u32::try_from(x).ok()` -/
def tryU32 (x : UInt64) : Option UInt32 := if x.toNat < 2 ^ 32 then some x.toUInt32 else none

/-- `parse_error_body`; the provider is not looked at. -/
def parseErrorBody (tf : TextFormats) (_provider : Provider) (body : List UInt8) : ErrorBody :=
  match tf.fromSlice body with
  | none => {}
  | some value =>
    let v := value.tree
    let errType := ((pointer v ["error", "type"]).bind asStr)
      |>.or ((getMember v "__type").bind asStr)
      |>.or ((pointer v ["error", "status"]).bind asStr)
    let errMessage := ((pointer v ["error", "message"]).bind asStr)
      |>.or ((getMember v "message").bind asStr)
      |>.or ((getMember v "error").bind asStr)
    let retryAfter := ((pointer v ["error", "retry_after"]).bind asU64)
      |>.or ((getMember v "retry_after").bind asU64)
    let contextLimit := (((pointer v ["error", "param", "limit"]).bind asU64)
      |>.or ((pointer v ["error", "limit"]).bind asU64)).bind tryU32
    { errType := errType
      errMessage := errMessage
      retryAfterSecs := retryAfter
      contextLimit := contextLimit }

/-! ## Truncation -/

/-- `str::is_char_boundary` -/
def isCharBoundary (s : List Char) (i : Nat) : Bool := (splitAt s i).isSome

/-- The loop of `truncate`: back to a character boundary. -/
def walkBack (s : List Char) : Nat → Option Nat
  | 0 => if isCharBoundary s 0 then some 0 else none
  | i + 1 => if isCharBoundary s (i + 1) then some (i + 1) else walkBack s i

/-- `truncate` -/
def truncate (s : List Char) (max : Nat) : Option (List Char) :=
  if byteLen s ≤ max then some s
  else (walkBack s max).bind (sliceTo s)

/-! ## Classification -/

/-- `str::contains` -/
def contains (t : List Char) (needle : String) : Bool := t.tails.any needle.toList.isPrefixOf

/-- The type names a rate limit. -/
def isRateLimit (t : List Char) : Bool :=
  contains t "rate_limit" || contains t "too_many_requests" || contains t "throttling"

/-- The type names a failed authentication. -/
def isAuth (t : List Char) : Bool :=
  contains t "auth" || contains t "permission" || t == "unauthorized".toList

/-- The type names a prompt that is too long. -/
def isContextLength (t : List Char) : Bool :=
  contains t "context_length" || contains t "too_long" || contains t "context_window"

/-- The type names a content policy. -/
def isContentFilter (t : List Char) : Bool :=
  contains t "content_filter" || contains t "safety" || contains t "blocked"

/-- The classification by status. -/
def ofStatus (status : UInt16) (body : ErrorBody) : Option ProviderError :=
  if status = 401 ∨ status = 403 then some .authFailed
  else if status = 429 then some (.rateLimited (body.retryAfterSecs.map Duration.fromSecs))
  else if status = 408 ∨ status = 504 then some .upstreamTimeout
  else if status = 502 ∨ status = 503 then some .upstreamUnavailable
  else none

/-- The classification by the type the body names. -/
def ofType (errType : String) (body : ErrorBody) : Option ProviderError :=
  let t := Provider.asciiLower errType
  if isRateLimit t then some (.rateLimited (body.retryAfterSecs.map Duration.fromSecs))
  else if isAuth t then some .authFailed
  else if isContextLength t then some (.contextLengthExceeded (body.contextLimit.getD 0))
  else if isContentFilter t then some (.contentFiltered (body.errMessage.getD errType))
  else if contains t "timeout" then some .upstreamTimeout
  else none

/-- The message of the fallback, before it is cut. -/
def fallbackText (parsed : ErrorBody) (body : List UInt8) : List Char :=
  match parsed.errMessage with
  | some message => message.toList
  | none => (decode body).getD "<non-utf8 body>".toList

/-- `ProviderError::from_provider_response` -/
def fromProviderResponse (tf : TextFormats) (provider : Provider) (status : UInt16)
    (body : List UInt8) : Option ProviderError := do
  let parsed := parseErrorBody tf provider body
  match ofStatus status parsed with
  | some e => return e
  | none =>
    match parsed.errType.bind (ofType · parsed) with
    | some e => return e
    | none =>
      let message ← truncate (fallbackText parsed body) 256
      if status = 400 then return .invalidRequest (String.ofList message)
      else return .other status (String.ofList message)

/-! ## The texts of a result -/

/-- The walk ends on a boundary, at the latest on the one before the first character. -/
theorem walkBack_spec (s : List Char) (max : Nat) :
    ∃ i ≤ max, walkBack s max = some i ∧ IsBoundary s i := by
  induction max with
  | zero =>
    have hzero : isCharBoundary s 0 = true := splitAt_isSome.mpr (isBoundary_zero s)
    exact ⟨0, Nat.le_refl 0, by simp [walkBack, hzero], isBoundary_zero s⟩
  | succ max ih =>
    by_cases h : isCharBoundary s (max + 1) = true
    · exact ⟨max + 1, Nat.le_refl _, by simp [walkBack, h], splitAt_isSome.mp h⟩
    · obtain ⟨i, hi, hwalk, hb⟩ := ih
      exact ⟨i, Nat.le_succ_of_le hi, by simp [walkBack, h, hwalk], hb⟩

/-- `truncate` never aborts, and returns a prefix of at most so many bytes. -/
theorem truncate_spec (s : List Char) (max : Nat) :
    ∃ t, truncate s max = some t ∧ byteLen t ≤ max ∧ t <+: s := by
  unfold truncate
  split
  · rename_i hle
    exact ⟨s, rfl, hle, List.prefix_refl s⟩
  · obtain ⟨i, hi, hwalk, a, b, rfl, rfl⟩ := walkBack_spec s max
    refine ⟨a, ?_, hi, List.prefix_append a b⟩
    rw [hwalk, Option.bind_some, sliceTo_append]

/-- The texts an error carries. -/
def errorTexts : ProviderError → List String
  | .invalidRequest message => [message]
  | .contentFiltered reason => [reason]
  | .other _ message => [message]
  | _ => []

/-- What a text may come from: the message, the type, the body, the placeholder. -/
def textSources (parsed : ErrorBody) (body : List UInt8) : List (List Char) :=
  (parsed.errMessage.map String.toList).toList ++ (parsed.errType.map String.toList).toList ++
    (decode body).toList ++ ["<non-utf8 body>".toList]

/-- The response is classified as content filtered, with a reason of more than 256 bytes. -/
def LongReason (status : UInt16) (parsed : ErrorBody) : Prop :=
  ofStatus status parsed = none ∧ ∃ errType, parsed.errType = some errType ∧
    isRateLimit (Provider.asciiLower errType) = false ∧ isAuth (Provider.asciiLower errType) = false ∧
    isContextLength (Provider.asciiLower errType) = false ∧
    isContentFilter (Provider.asciiLower errType) = true ∧
    256 < byteLen (parsed.errMessage.getD errType).toList

section Response

variable {status : UInt16} {parsed : ErrorBody} {body : List UInt8} {e : ProviderError}

theorem errorTexts_ofStatus (h : ofStatus status parsed = some e) : errorTexts e = [] := by
  unfold ofStatus at h
  split_ifs at h <;> cases h <;> rfl

/-- Only the content filter takes a text from the type or the message as it is. -/
theorem errorTexts_ofType {errType : String} (h : ofType errType parsed = some e) :
    errorTexts e = [] ∨ (errorTexts e = [parsed.errMessage.getD errType] ∧
      isRateLimit (Provider.asciiLower errType) = false ∧
      isAuth (Provider.asciiLower errType) = false ∧
      isContextLength (Provider.asciiLower errType) = false ∧
      isContentFilter (Provider.asciiLower errType) = true) := by
  unfold ofType at h
  dsimp only at h
  split_ifs at h with hrate hauth hctx hfilter
  all_goals cases h
  · exact .inl rfl
  · exact .inl rfl
  · exact .inl rfl
  · exact .inr ⟨rfl, by simpa using hrate, by simpa using hauth, by simpa using hctx, hfilter⟩
  · exact .inl rfl

theorem fallbackText_mem (parsed : ErrorBody) (body : List UInt8) :
    fallbackText parsed body ∈ textSources parsed body := by
  unfold fallbackText textSources
  cases parsed.errMessage with
  | some message => simp
  | none => cases decode body <;> simp

/-- Whatever the reason of a content filter is, it is a source. -/
theorem reason_mem {errType : String} (h : parsed.errType = some errType) (body : List UInt8) :
    (parsed.errMessage.getD errType).toList ∈ textSources parsed body := by
  unfold textSources
  cases parsed.errMessage <;> simp [h]

/-- A long reason is the reason of the result. -/
theorem LongReason.ofType (h : LongReason status parsed) :
    ∃ errType, parsed.errType.bind (Core.ofType · parsed) =
        some (.contentFiltered (parsed.errMessage.getD errType)) ∧
      256 < byteLen (parsed.errMessage.getD errType).toList := by
  obtain ⟨-, errType, htype, hrate, hauth, hctx, hfilter, hlong⟩ := h
  refine ⟨errType, ?_, hlong⟩
  rw [htype, Option.bind_some, Core.ofType]
  simp [hrate, hauth, hctx, hfilter]

end Response

/-- No response aborts the classification, and every text of its result is a prefix of one of its
sources. The texts have at most 256 bytes exactly when the response is not one of the content filter
with a longer reason. -/
theorem error_texts_bounded_iff (tf : TextFormats) (provider : Provider) (status : UInt16)
    (body : List UInt8) :
    ∃ e, fromProviderResponse tf provider status body = some e ∧
      (∀ t ∈ errorTexts e,
        ∃ source ∈ textSources (parseErrorBody tf provider body) body, t.toList <+: source) ∧
      ((∀ t ∈ errorTexts e, byteLen t.toList ≤ 256) ↔
        ¬ LongReason status (parseErrorBody tf provider body)) := by
  unfold fromProviderResponse
  generalize parseErrorBody tf provider body = parsed
  cases hstatus : ofStatus status parsed with
  | some e =>
    have hlong : ¬ LongReason status parsed := by
      rintro ⟨hnone, -⟩
      rw [hstatus] at hnone
      cases hnone
    exact ⟨e, by simp [hstatus], by simp [errorTexts_ofStatus hstatus],
      by simp [errorTexts_ofStatus hstatus, hlong]⟩
  | none =>
    cases htype : parsed.errType.bind (ofType · parsed) with
    | some e =>
      refine ⟨e, by simp [hstatus, htype], ?_⟩
      obtain ⟨errType, hsome, hclass⟩ := Option.bind_eq_some_iff.mp htype
      rcases errorTexts_ofType hclass with hnil | ⟨hreason, hrate, hauth, hctx, hfilter⟩
      · have hlong : ¬ LongReason status parsed := by
          intro h
          obtain ⟨ty, hof, -⟩ := h.ofType
          rw [htype] at hof
          cases hof
          cases hnil
        simp [hnil, hlong]
      · rw [hreason]
        refine ⟨by simpa using ⟨_, reason_mem hsome body, List.prefix_refl _⟩, ?_⟩
        have hiff : LongReason status parsed ↔ 256 < byteLen (parsed.errMessage.getD errType).toList := by
          refine ⟨fun ⟨_, ty, hty, _, _, _, _, h⟩ => ?_,
            fun h => ⟨hstatus, errType, hsome, hrate, hauth, hctx, hfilter, h⟩⟩
          rw [hsome] at hty
          cases hty
          exact h
        rw [hiff]
        simp
    | none =>
      obtain ⟨message, htrunc, hlen, hpre⟩ := truncate_spec (fallbackText parsed body) 256
      have hlong : ¬ LongReason status parsed := by
        intro h
        obtain ⟨ty, hof, -⟩ := h.ofType
        rw [htype] at hof
        cases hof
      -- both fallbacks carry the truncated message
      have htexts : ∀ e, errorTexts e = [String.ofList message] →
          (∀ t ∈ errorTexts e, ∃ source ∈ textSources parsed body, t.toList <+: source) ∧
          ((∀ t ∈ errorTexts e, byteLen t.toList ≤ 256) ↔ ¬ LongReason status parsed) := by
        intro e he
        rw [he]
        simp only [List.mem_singleton, forall_eq, String.toList_ofList]
        exact ⟨⟨_, fallbackText_mem parsed body, hpre⟩, by simp [hlen, hlong]⟩
      by_cases h400 : status = 400
      · subst h400
        exact ⟨.invalidRequest (String.ofList message), by simp [hstatus, htype, htrunc], htexts _ rfl⟩
      · exact ⟨.other status (String.ofList message), by simp [hstatus, htype, htrunc, h400],
          htexts _ rfl⟩

/-- A refusal by content policy. -/
def refusal (reason : String) : JsonValue where
  tree := .obj [("error", .obj [("message", .str reason), ("type", .str "content_filter")])]
  canonical := by
    have hlt : "message" < "type" := by decide
    have hinner : SortedKeys [("message", Json.str reason), ("type", Json.str "content_filter")] := by
      refine List.pairwise_pair.mpr ?_
      exact hlt
    exact ⟨List.pairwise_singleton _ _, ⟨hinner, trivial, trivial, trivial⟩, trivial⟩

/-- Its body. -/
def refusalBody (reason : String) : List UInt8 := encode (textFormats.toJson (refusal reason)).toList


theorem fromSlice_refusalBody (reason : String) :
    textFormats.fromSlice (refusalBody reason) = some (refusal reason) := by
  have hdepth : (refusal reason).tree.depth ≤ TextFormats.recursionLimit := by
    simp [refusal, Json.depth, Json.depthMembers, Json.depthMember, TextFormats.recursionLimit]
  rw [TextFormats.fromSlice, refusalBody, decode_encode, Option.bind_some, String.ofList_toList]
  exact TextFormats.fromJson_toJson hdepth rfl

theorem ofType_content_filter (parsed : ErrorBody) :
    ofType "content_filter" parsed =
      some (.contentFiltered (parsed.errMessage.getD "content_filter")) := by
  have hlower : Provider.asciiLower "content_filter" = "content_filter".toList := by decide
  have hrate : isRateLimit "content_filter".toList = false := by decide
  have hauth : isAuth "content_filter".toList = false := by decide
  have hctx : isContextLength "content_filter".toList = false := by decide
  have hfilter : isContentFilter "content_filter".toList = true := by decide
  rw [ofType, hlower, hrate, hauth, hctx, hfilter]
  rfl

/-- The reason of a refusal is kept as it is. -/
theorem fromProviderResponse_refusalBody (reason : String) :
    fromProviderResponse textFormats .openAI 500 (refusalBody reason) =
      some (.contentFiltered reason) := by
  have hparsed : parseErrorBody textFormats .openAI (refusalBody reason) =
      { errType := some "content_filter", errMessage := some reason } := by
    rw [parseErrorBody, fromSlice_refusalBody]
    rfl
  have hstatus (parsed : ErrorBody) : ofStatus 500 parsed = none := rfl
  rw [fromProviderResponse, hparsed]
  simp only [hstatus, Option.bind_some, ofType_content_filter]
  rfl

/-- A refusal with a reason of 300 bytes is stored with all of them. -/
theorem long_reason_kept :
    fromProviderResponse textFormats .openAI 500
        (refusalBody (String.ofList (List.replicate 300 'x'))) =
      some (.contentFiltered (String.ofList (List.replicate 300 'x'))) ∧
    ¬ byteLen (String.ofList (List.replicate 300 'x')).toList ≤ 256 := by
  refine ⟨fromProviderResponse_refusalBody _, ?_⟩
  have hlen := length_le_byteLen (List.replicate 300 'x')
  rw [List.length_replicate] at hlen
  rw [String.toList_ofList]
  omega

end Keplor.Core
