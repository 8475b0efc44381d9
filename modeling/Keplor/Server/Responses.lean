import Keplor.Server.Events

/-!
# `EventResponse` — one event, two ways to report it

A live event reaches the client as a summary, whose metadata is a text that `query_events` reads
back. An archived one is read from its line, converted to an event and reported by
`llm_event_to_response`. The two chains name every field by hand, twice.

What the client sees is the JSON, and there it does not matter that the archive line has no way to
tell metadata `null` from none (`metadataOf`): both are reported as `null`.
-/

set_option autoImplicit false

namespace Keplor.Server

open Keplor.Lib Keplor.Core Keplor.Store Keplor.Lib.Json

/-- `Serialize for UsageResponse` -/
def UsageResponse.json (u : UsageResponse) : Json :=
  .obj [("input_tokens", ofU32 u.inputTokens), ("output_tokens", ofU32 u.outputTokens),
    ("cache_read_input_tokens", ofU32 u.cacheReadInputTokens),
    ("cache_creation_input_tokens", ofU32 u.cacheCreationInputTokens),
    ("reasoning_tokens", ofU32 u.reasoningTokens)]

/-- `#[serde(skip_serializing_if = "Option::is_none")]` on a text. -/
def unlessNone (key : String) (o : Option String) : List (String × Json) :=
  match o with
  | none => []
  | some s => [(key, .str s)]

/-- `Serialize for EventResponse` -/
def EventResponse.json (r : EventResponse) : Json :=
  .obj ([("id", .str r.id), ("timestamp", ofInt64 r.timestamp), ("model", .str r.model),
    ("provider", .str r.provider), ("usage", r.usage.json),
    ("cost_nanodollars", ofInt64 r.costNanodollars), ("latency_total_ms", ofU32 r.latencyTotalMs),
    ("latency_ttft_ms", ofOption ofU32 r.latencyTtftMs), ("http_status", ofOption ofU16 r.httpStatus),
    ("source", ofOption .str r.source), ("user_id", ofOption .str r.userId),
    ("api_key_id", ofOption .str r.apiKeyId), ("endpoint", .str r.endpoint),
    ("streaming", .bool r.streaming), ("error", ofOption .str r.error),
    ("metadata", ofOption JsonValue.tree r.metadata)]
    ++ unlessNone "client_ip" r.clientIp ++ unlessNone "user_agent" r.userAgent)

/-- Metadata that came through the line is reported as before. -/
theorem ofOption_metadataOf (o : Option JsonValue) :
    ofOption JsonValue.tree (metadataOf (ofOption JsonValue.tree o)) = ofOption JsonValue.tree o := by
  cases o with
  | none => rfl
  | some v =>
    by_cases hnull : v.tree = .null
    · simp [ofOption, hnull, metadataOf]
    · rw [ofOption, metadataOf_of_ne hnull, JsonValue.ofTree_tree]
      rfl

/-- An event of the store is reported with the same JSON live and out of the archive. -/
theorem live_and_archived_reported_alike (tf : TextFormats) (e : LlmEvent) (hret : Returned tf e)
    (line : List Char) (hline : (StoredEvent.from tf e).toLine tf = some line)
    (hundo : ∀ j, (StoredEvent.from tf e).value tf = some j → ParseUndoesPrint tf j) :
    ∃ e', readLine tf line = .ok e' ∧
      (summaryToResponse tf (llmToSummary tf e)).json = (llmEventToResponse tf e').json := by
  rw [toLine_eq_map_value] at hline
  obtain ⟨j, hj, rfl⟩ := Option.map_eq_some_iff.mp hline
  have hread := hundo j hj
  obtain ⟨error, herr, rfl⟩ := Option.map_eq_some_iff.mp hj
  obtain ⟨hdepth, hreread⟩ := metadata_of_parseUndoesPrint herr hread
  refine ⟨{ e with metadata := metadataOf (ofOption JsonValue.tree e.metadata) }, ?_, ?_⟩
  · unfold readLine
    rw [ofLine_members herr, if_pos hdepth, hreread]
    exact tryInto_from _ hret.sha
  · -- the live text of the metadata is a part of the line, so it reads back too
    have hlive : (e.metadata.map tf.toJson).bind tf.fromJson = e.metadata := by
      cases hv : e.metadata with
      | none => rfl
      | some v =>
        have hmeta : (StoredEvent.from tf e).metadata = some v := hv
        rw [hmeta, ofOption] at hdepth hreread
        exact TextFormats.fromJson_toJson (hdepth.trans (by decide)) hreread
    rw [summaryToResponse_llmToSummary, hlive]
    simp [EventResponse.json, llmEventToResponse, ofOption_metadataOf]

/-- At an event of the store. -/
theorem live_and_archived_sample :
    Returned textFormats (norm sampleEvent) ∧
    ∃ line, (StoredEvent.from textFormats (norm sampleEvent)).toLine textFormats = some line ∧
      ∃ e', readLine textFormats line = .ok e' ∧
        (summaryToResponse textFormats (llmToSummary textFormats (norm sampleEvent))).json
          = (llmEventToResponse textFormats e').json := by
  have hret : Returned textFormats (norm sampleEvent) := by
    apply returned_norm
    intro v hv
    cases hv
    exact TextFormats.fromJson_toJson (by decide) rfl
  obtain ⟨line, hline⟩ := (toLine_isSome textFormats (e := norm sampleEvent)).mpr (by
    intro m hm
    cases hm)
  refine ⟨hret, line, hline, ?_⟩
  apply live_and_archived_reported_alike textFormats (norm sampleEvent) hret line hline
  intro j hj
  obtain ⟨error, herr, rfl⟩ := Option.map_eq_some_iff.mp hj
  cases herr
  exact parse_print_eq_some.mpr ⟨by decide, rfl⟩

end Keplor.Server
