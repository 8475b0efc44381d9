import Keplor.Core.Formats
import Keplor.Lib.Fallible
import Keplor.Pricing.Catalog
import Keplor.Server.Validate
import Keplor.Store.StoredEvent

/-!
# `keplor-server/src/{normalize,pipeline}.rs` — from payload to event

`processEvent` validates, normalises, prices and builds. It reads the clock twice, draws an id and
parses dates with another crate; `Surroundings` is what one call finds there.

Everything in it returns, a value or an error, except the catalog lookup of a payload that brings
no cost of its own. `process_event_returns_iff` says for which names that lookup returns.
-/

set_option autoImplicit false

namespace Keplor.Server

open Keplor.Core Keplor.Lib Keplor.Lib.Utf8 Keplor.Pricing

/-! ## Normalising -/

/-- `char::is_whitespace`: the Unicode property `White_Space`. -/
def isWhitespace (c : Char) : Bool :=
  let n := c.toNat
  (0x09 ≤ n && n ≤ 0x0d) || n == 0x20 || n == 0x85 || n == 0xa0 || n == 0x1680 ||
    (0x2000 ≤ n && n ≤ 0x200a) || n == 0x2028 || n == 0x2029 || n == 0x202f || n == 0x205f ||
    n == 0x3000

/-- `str::trim` -/
def trim (s : List Char) : List Char :=
  ((s.dropWhile isWhitespace).reverse.dropWhile isWhitespace).reverse

/-- `normalize_provider` -/
def normalizeProvider (raw : String) : Provider := Provider.fromIdKeyIgnoreCase raw

/-- `normalize_model` -/
def normalizeModel (raw : String) : String :=
  let trimmed := trim raw.toList
  if trimmed.all fun c => !c.isUpper then String.ofList trimmed
  else String.ofList (toAsciiLowercase trimmed)

/-! ## Building the event -/

/-- What one call of `process_event` reads from outside. -/
structure Surroundings where
  tf : TextFormats
  /-- `OffsetDateTime::parse(s, &Rfc3339)`, as nanoseconds since the epoch, or its error text -/
  rfc3339 : String → Except String Int
  /-- the geo multiplication of `compute_cost` -/
  scale : Int64 → BitVec 64 → Int64
  /-- the clock as `validate` reads it -/
  validatedAt : Int64
  /-- the clock as `build_llm_event` reads it -/
  builtAt : Int64
  freshId : EventId

/-- `usage_from_ingest`: two counters of `Usage` have no counterpart in the payload. -/
def usageFromIngest (u : IngestUsage) : Usage where
  inputTokens := u.inputTokens
  outputTokens := u.outputTokens
  cacheReadInputTokens := u.cacheReadInputTokens
  cacheCreationInputTokens := u.cacheCreationInputTokens
  reasoningTokens := u.reasoningTokens
  audioInputTokens := u.audioInputTokens
  audioOutputTokens := u.audioOutputTokens
  imageTokens := u.imageTokens
  toolUseTokens := u.toolUseTokens

/-- `parse_iso8601`; `as i64` keeps the low 64 bits. -/
def parseIso8601 (env : Surroundings) (s : String) : Except ServerError Int64 :=
  match env.rfc3339 s with
  | .ok nanos => return Int64.ofInt nanos
  | .error e => throw (.invalidTimestamp (s ++ ": " ++ e))

/-- `error_from_ingest` -/
def errorFromIngest (e : IngestError) : ProviderError :=
  let msg := e.message.getD ""
  match e.kind with
  | "rate_limited" => .rateLimited none
  | "invalid_request" => .invalidRequest msg
  | "auth_failed" => .authFailed
  | "context_length_exceeded" => .contextLengthExceeded 0
  | "content_filtered" => .contentFiltered msg
  | "upstream_timeout" => .upstreamTimeout
  | "upstream_unavailable" => .upstreamUnavailable
  | _ => .other (e.status.getD 0) msg

/-- The flag bits of a payload; `BUDGET_BLOCKED` cannot be sent. -/
def flagsFromIngest (f : IngestFlags) : EventFlags :=
  let bit (on : Bool) (b : BitVec 32) : BitVec 32 := if on then b else 0#32
  ⟨bit f.streaming EventFlags.STREAMING ||| bit f.toolCalls EventFlags.TOOL_CALLS |||
    bit f.reasoning EventFlags.REASONING |||
    bit f.streamIncomplete EventFlags.STREAM_INCOMPLETE ||| bit f.cacheUsed EventFlags.CACHED_USED⟩

/-- `build_llm_event` -/
def buildLlmEvent (env : Surroundings) (event : IngestEvent) (provider : Provider) (model : String)
    (cost : Int64) (usage : Usage) (tier : String) : Except ServerError LlmEvent := do
  let tsNs ← match event.timestamp with
    | some (.epochNanos ns) => pure ns
    | some (.iso8601 s) => parseIso8601 env s
    | none => pure env.builtAt
  return {
    id := env.freshId
    tsNs := tsNs
    userId := event.userId
    apiKeyId := event.apiKeyId
    orgId := event.orgId
    projectId := event.projectId
    routeId := event.routeId.getD "default"
    provider := provider
    model := model
    modelFamily := none
    endpoint := event.endpoint
    method := (Method.fromBytes event.method).getD .POST
    httpStatus := event.httpStatus
    usage := usage
    costNanodollars := cost
    latency := ⟨event.latency.ttftMs, event.latency.totalMs, event.latency.timeToCloseMs⟩
    flags := flagsFromIngest event.flags
    error := event.error.map errorFromIngest
    requestSha256 := Sha256.zero
    responseSha256 := Sha256.zero
    clientIp := event.clientIp.bind env.tf.ip.parse
    userAgent := event.userAgent
    requestId := event.requestId
    traceId := event.traceId.bind Store.traceIdFromStr
    source := event.source
    ingestedAt := env.builtAt
    metadata := event.metadata
    tier := tier }

/-- What an event takes over unchanged; only its date can fail. -/
theorem copied_of_buildLlmEvent {env : Surroundings} {event : IngestEvent} {provider : Provider}
    {model : String} {cost : Int64} {usage : Usage} {tier : String} {e : LlmEvent}
    (h : buildLlmEvent env event provider model cost usage tier = .ok e) :
    e.id = env.freshId ∧ e.costNanodollars = cost ∧ e.usage = usage ∧ e.apiKeyId = event.apiKeyId ∧
      e.tier = tier := by
  unfold buildLlmEvent at h
  dsimp only at h
  split at h
  · cases h
    exact ⟨rfl, rfl, rfl, rfl, rfl⟩
  · obtain ⟨ts, -, h⟩ := bind_eq_ok h
    cases h
    exact ⟨rfl, rfl, rfl, rfl, rfl⟩
  · cases h
    exact ⟨rfl, rfl, rfl, rfl, rfl⟩

theorem error_of_buildLlmEvent {env : Surroundings} {event : IngestEvent} {provider : Provider}
    {model : String} {cost : Int64} {usage : Usage} {tier : String} {e : ServerError}
    (h : buildLlmEvent env event provider model cost usage tier = .error e) :
    ∃ message, e = .invalidTimestamp message := by
  unfold buildLlmEvent at h
  dsimp only at h
  split at h
  · cases h
  · rename_i text _
    unfold parseIso8601 at h
    split at h
    · cases h
    · cases h
      exact ⟨_, rfl⟩
  · cases h

/-- `DEFAULT_COST_OPTS` -/
def DEFAULT_COST_OPTS : CostOpts where
  isBatch := false
  serviceTier := .standard
  inferenceGeo := .us
  cacheTtl := .minutes5
  contextBucket := .standard

/-- `Pipeline::compute_cost`. A model without a price costs nothing. -/
def catalogCost (env : Surroundings) (catalog : Catalog) (provider : Provider) (model : String)
    (usage : Usage) : Option Int64 :=
  (catalog.lookup model).map fun found =>
    match found with
    | some p => computeCost env.scale provider p usage DEFAULT_COST_OPTS
    | none => 0

/-- The first step of `process_event`: an authenticated key replaces the client's. -/
def withAuthenticatedKey (event : IngestEvent) (authenticatedKeyId : Option String) : IngestEvent :=
  match authenticatedKeyId with
  | some keyId => { event with apiKeyId := some keyId }
  | none => event

/-- `Pipeline::process_event` -/
def processEvent (env : Surroundings) (catalog : Catalog) (event : IngestEvent)
    (authenticatedKeyId : Option String) (tier : String) :
    Fallible ServerError (LlmEvent × Provider × String × Int64) := do
  let event := withAuthenticatedKey event authenticatedKeyId
  Fallible.ofExcept (validate env.tf env.validatedAt event)
  let provider := normalizeProvider event.provider
  let model := normalizeModel event.model
  let usage := usageFromIngest event.usage
  let cost ← match event.costNanodollars with
    | some c => pure c
    | none => Fallible.ofPartial (catalogCost env catalog provider model usage)
  let llmEvent ← Fallible.ofExcept (buildLlmEvent env event provider model cost usage tier)
  return (llmEvent, provider, model, cost)

/-- What `process_event` has done when it succeeds: the payload, with the authenticated key in it,
passed `validate`, and the event is what `build_llm_event` made of it. -/
theorem processEvent_eq_pure {env : Surroundings} {catalog : Catalog} {event : IngestEvent}
    {authenticatedKeyId : Option String} {tier : String} {built : LlmEvent × Provider × String × Int64}
    (h : processEvent env catalog event authenticatedKeyId tier = pure built) :
    validate env.tf env.validatedAt (withAuthenticatedKey event authenticatedKeyId) = .ok () ∧
    buildLlmEvent env (withAuthenticatedKey event authenticatedKeyId) built.2.1 built.2.2.1 built.2.2.2
      (usageFromIngest event.usage) tier = .ok built.1 := by
  have husage : (withAuthenticatedKey event authenticatedKeyId).usage = event.usage := by
    cases authenticatedKeyId <;> rfl
  unfold processEvent at h
  obtain ⟨_, hv, h⟩ := Fallible.bind_eq_pure h
  dsimp only at h
  -- whether the client sent the cost or the catalog was asked, the rest is the same
  obtain ⟨cost, h⟩ : ∃ cost, (do
      let llmEvent ← Fallible.ofExcept (buildLlmEvent env
        (withAuthenticatedKey event authenticatedKeyId) _ _ cost _ tier)
      return (llmEvent, _, _, cost)) = (pure built : Fallible ServerError _) := by
    split at h
    · obtain ⟨c, -, h⟩ := Fallible.bind_eq_pure h
      exact ⟨c, h⟩
    · obtain ⟨c, -, h⟩ := Fallible.bind_eq_pure h
      exact ⟨c, h⟩
  obtain ⟨e, he, h⟩ := Fallible.bind_eq_pure h
  rw [← Fallible.pure_inj h, ← husage]
  exact ⟨Fallible.ofExcept_eq_pure hv, Fallible.ofExcept_eq_pure he⟩

/-- What it reports next to the event: the two names normalised, and the cost that the client sent or
the catalog gave. -/
theorem priced_of_processEvent {env : Surroundings} {catalog : Catalog} {event : IngestEvent}
    {authenticatedKeyId : Option String} {tier : String} {built : LlmEvent × Provider × String × Int64}
    (h : processEvent env catalog event authenticatedKeyId tier = pure built) :
    built.2.1 = normalizeProvider event.provider ∧ built.2.2.1 = normalizeModel event.model ∧
    event.costNanodollars.or (catalogCost env catalog (normalizeProvider event.provider)
      (normalizeModel event.model) (usageFromIngest event.usage)) = some built.2.2.2 := by
  have hsame : (withAuthenticatedKey event authenticatedKeyId).provider = event.provider ∧
      (withAuthenticatedKey event authenticatedKeyId).model = event.model ∧
      (withAuthenticatedKey event authenticatedKeyId).usage = event.usage ∧
      (withAuthenticatedKey event authenticatedKeyId).costNanodollars = event.costNanodollars := by
    cases authenticatedKeyId <;> exact ⟨rfl, rfl, rfl, rfl⟩
  obtain ⟨hprovider, hmodel, husage, hcost⟩ := hsame
  unfold processEvent at h
  obtain ⟨_, -, h⟩ := Fallible.bind_eq_pure h
  rw [hprovider, hmodel, husage, hcost] at h
  dsimp only at h
  cases hsent : event.costNanodollars with
  | some c =>
    rw [hsent] at h
    obtain ⟨cost, hgiven, h⟩ := Fallible.bind_eq_pure h
    obtain ⟨e, -, h⟩ := Fallible.bind_eq_pure h
    rw [← Fallible.pure_inj h, ← Fallible.pure_inj hgiven]
    exact ⟨rfl, rfl, rfl⟩
  | none =>
    rw [hsent] at h
    obtain ⟨cost, hcatalog, h⟩ := Fallible.bind_eq_pure h
    obtain ⟨e, -, h⟩ := Fallible.bind_eq_pure h
    rw [← Fallible.pure_inj h]
    exact ⟨rfl, rfl, Fallible.ofPartial_eq_pure hcatalog⟩

/-! ## When it returns -/

theorem catalogCost_isSome (env : Surroundings) (catalog : Catalog) (provider : Provider)
    (model : String) (usage : Usage) : (catalogCost env catalog provider model usage).isSome ↔
      (catalog.entries model).isSome ∨ CutsOnBoundaries model.toList := by
  rw [catalogCost, Option.isSome_map, Catalog.lookup_isSome]

/-- Whether a cost came with the payload or not, the rest of `process_event` returns. -/
theorem returns_processEvent {env : Surroundings} {catalog : Catalog} {event : IngestEvent}
    {authenticatedKeyId : Option String} {tier : String} :
    (processEvent env catalog event authenticatedKeyId tier).Returns ↔
      event.costNanodollars.isSome ∨
      (∃ e, validate env.tf env.validatedAt (withAuthenticatedKey event authenticatedKeyId)
        = .error e) ∨
      (catalog.entries (normalizeModel event.model)).isSome ∨
      CutsOnBoundaries (normalizeModel event.model).toList := by
  have hcost : (withAuthenticatedKey event authenticatedKeyId).costNanodollars
      = event.costNanodollars := by
    cases authenticatedKeyId <;> rfl
  have hmodel : (withAuthenticatedKey event authenticatedKeyId).model = event.model := by
    cases authenticatedKeyId <;> rfl
  cases hv : validate env.tf env.validatedAt (withAuthenticatedKey event authenticatedKeyId) with
  | error e =>
    have : processEvent env catalog event authenticatedKeyId tier = throw e := by
      rw [processEvent, hv]
      rfl
    simp [this]
  | ok u =>
    rw [← catalogCost_isSome env catalog
      (normalizeProvider (withAuthenticatedKey event authenticatedKeyId).provider) _
      (usageFromIngest (withAuthenticatedKey event authenticatedKeyId).usage)]
    cases hsent : event.costNanodollars with
    | some cost =>
      simp only [processEvent, hv, hcost, hsent, Fallible.ofExcept_ok, pure_bind,
        Fallible.returns_bind, Option.isSome_some, true_or, iff_true]
      exact ⟨Fallible.returns_ofExcept _, fun e _ => Fallible.returns_pure _⟩
    | none =>
      simp only [processEvent, hv, hcost, hsent, hmodel, Fallible.ofExcept_ok, pure_bind,
        Fallible.returns_bind, Fallible.returns_ofPartial, reduceCtorEq, exists_false, false_or,
        Option.isSome_none, Bool.false_eq_true]
      refine and_iff_left fun cost _ => ⟨Fallible.returns_ofExcept _, fun e _ => ?_⟩
      exact Fallible.returns_pure _

/-- Without a client cost, `process_event` returns on exactly the payloads that are rejected, that
name a model of the catalog, or whose normalised model name no slice cuts through. -/
theorem process_event_returns_iff (env : Surroundings) (catalog : Catalog) (event : IngestEvent)
    (authenticatedKeyId : Option String) (tier : String) (hcost : event.costNanodollars = none) :
    (processEvent env catalog event authenticatedKeyId tier).Returns ↔
      (∃ e, validate env.tf env.validatedAt (withAuthenticatedKey event authenticatedKeyId)
        = .error e) ∨
      (catalog.entries (normalizeModel event.model)).isSome ∨
      CutsOnBoundaries (normalizeModel event.model).toList := by
  rw [returns_processEvent, hcost, Option.isSome_none]
  exact or_iff_right Bool.false_ne_true

/-- An error of `process_event` is one of `validate` or one of the date. -/
theorem error_of_processEvent {env : Surroundings} {catalog : Catalog} {event : IngestEvent}
    {authenticatedKeyId : Option String} {tier : String} {e : ServerError}
    (h : processEvent env catalog event authenticatedKeyId tier = throw e) :
    (∃ message, e = .validation message) ∨ ∃ message, e = .invalidTimestamp message := by
  unfold processEvent at h
  rcases Fallible.bind_eq_throw h with h | ⟨_, -, h⟩
  · exact .inl (checks_validate _ _ _ e (Fallible.ofExcept_eq_throw h))
  · -- looking a cost up gives no error, so what is left is the date
    obtain ⟨cost, h⟩ : ∃ cost, (do
        let llmEvent ← Fallible.ofExcept (buildLlmEvent env
          (withAuthenticatedKey event authenticatedKeyId) _ _ cost _ tier)
        return (llmEvent, _, _, cost)) = (throw e : Fallible ServerError _) := by
      dsimp only at h
      split at h
      · exact ⟨_, h⟩
      · rcases Fallible.bind_eq_throw h with h | ⟨cost, -, h⟩
        · exact absurd h Fallible.ofPartial_ne_throw
        · exact ⟨cost, h⟩
    rcases Fallible.bind_eq_throw h with h | ⟨built, -, h⟩
    · exact .inr (error_of_buildLlmEvent (Fallible.ofExcept_eq_throw h))
    · cases h

/-- A server on the first of January 2026. Its payloads carry no textual date. -/
def sampleSurroundings : Surroundings where
  tf := textFormats
  rfc3339 := fun _ => .error "the 'year' component could not be parsed"
  scale := fun total _ => total
  validatedAt := 1767225600000000000
  builtAt := 1767225600000000000
  freshId := ⟨0x019b76da1000000000000000000000a1#128⟩

/-- A dated name that the catalog does not have is looked up without its date. -/
theorem process_event_returns_on_dated_name :
    (processEvent sampleSurroundings ⟨fun _ => none⟩
      { model := "gpt-4o-2024-08-06", provider := "openai" } none "free").Returns :=
  (process_event_returns_iff sampleSurroundings ⟨fun _ => none⟩
    { model := "gpt-4o-2024-08-06", provider := "openai" } none "free" rfl).mpr
    (.inr (.inr (stripDateSuffix_isSome.mp (by decide +kernel))))

/-- Nine bytes from the end of this name is the middle of its `é`: the payload is valid, and the
process aborts. -/
theorem process_event_aborts_on_accent :
    validate sampleSurroundings.tf sampleSurroundings.validatedAt
      { model := "café-8-turbo", provider := "openai" } = .ok () ∧
    ¬ (processEvent sampleSurroundings ⟨fun _ => none⟩
      { model := "café-8-turbo", provider := "openai" } none "free").Returns := by
  decide +kernel

end Keplor.Server
