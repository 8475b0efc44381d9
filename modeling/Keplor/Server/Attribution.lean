import Keplor.Server.Ingest
import Keplor.Store.BatchQueue
import Keplor.Store.RowRoundTrip

/-!
# Whose event it is

The identity of a stored event is the one the middleware established. The result is about whole runs
of the service: it goes from the token in the header over the key set, the handler, the override in
`process_event`, the call of the writer and the shard the request ends up in, to the row and what is
read back from it.

The second half compares two runs. `forgetClaimed` erases what an authenticated client says about its
own key; the erasure commutes with every step, so nothing a run does depends on what was erased.
-/

set_option autoImplicit false

namespace Keplor.Server

open Keplor.Core Keplor.Lib Keplor.Pricing Keplor.Store

/-! ## The event of an authenticated payload -/

theorem identity_of_processEvent {env : Surroundings} {catalog : Catalog} {event : IngestEvent}
    {keyId tier : String} {made : Made}
    (h : processEvent env catalog event (some keyId) tier = pure made) :
    made.1.apiKeyId = some keyId ∧ made.1.tier = tier :=
  (copied_of_buildLlmEvent (processEvent_eq_pure h).2).2.2.2

/-- What a row keeps of the identity, whatever else is in it. -/
theorem identity_of_fromEventRef {tf : TextFormats} {e e' : LlmEvent} {keyId : String}
    (hne : keyId ≠ "") (hkey : e.apiKeyId = some keyId)
    (h : fromEventRef tf (toLogEvent tf e) = pure e') :
    e'.apiKeyId = some keyId ∧ e'.tier = e.tier := by
  obtain ⟨-, -, hid, htier⟩ := columns_of_fromEventRef h
  have hcolumn : (toLogEvent tf e).dims DIM_API_KEY_ID = keyId := by
    show e.apiKeyId.getD "" = keyId
    rw [hkey, Option.getD_some]
  rw [hcolumn, optSmol, if_neg hne] at hid
  exact ⟨hid, htier⟩

/-! ## Where the events of the writer come from -/

/-- What becomes of a request: who sent it stays, and its calls stay its calls. -/
structure Request.Continues (r r' : Request) : Prop where
  keys : r'.keys = r.keys
  header : r'.header = r.header
  auth : r'.auth = r.auth
  path : r'.path = r.path
  calls : ∀ j ∈ r.calls, j ∈ r'.calls

theorem MadeFor.mono {settings : Settings} {r r' : Request} {e : LlmEvent}
    (h : MadeFor settings r e) (hc : r.Continues r') : MadeFor settings r' e := by
  have hidentity : r'.identity settings = r.identity settings := by
    unfold Request.identity
    rw [hc.auth]
  unfold MadeFor
  rw [hidentity]
  exact h

namespace Service

/-- Every call of the writer belongs to a request, and its events were made for that request. -/
def Owned (s : Service) : Prop :=
  ∀ (j : Nat) (kind : CallKind) (events : List LlmEvent),
    (s.writer.calls.map BatchWriter.asked)[j]? = some (kind, events) →
    ∃ (n : Nat) (r : Request), s.requests[n]? = some r ∧ j ∈ r.calls ∧
      ∀ e ∈ events, MadeFor s.settings r e

structure Inv (s : Service) : Prop where
  writer : s.writer.Inv
  owned : s.Owned
  stored : ∀ t ∈ s.stored, ∃ (i : Nat) (sh : Shard), s.writer.shards[i]? = some sh ∧
    ∃ q ∈ sh.accepted, q.token = t

variable {s : Service}

theorem inv_new (settings : Settings) (config : BatchConfig) (cache : Option IdempotencyCache) :
    Inv (new settings config cache) := by
  refine ⟨BatchWriter.inv_new config, ?_, ?_⟩
  · intro j kind events hj
    cases hj
  · intro t ht
    cases ht

theorem Owned.append (h : s.Owned) (r : Request) :
    Owned { s with requests := s.requests ++ [r] } := by
  intro j kind events hj
  obtain ⟨n, q, hn, hmem, hmade⟩ := h j kind events hj
  exact ⟨n, q, getElem?_append_of hn _, hmem, hmade⟩

/-- A request moves on; the writer is left alone. -/
theorem Owned.set (h : s.Owned) {n : Nat} {r r' : Request} (hn : s.requests[n]? = some r)
    (hc : r.Continues r') (cache : Option IdempotencyCache) :
    Owned { s with cache := cache, requests := s.requests.set n r' } := by
  intro j kind events hj
  obtain ⟨m, q, hm, hmem, hmade⟩ := h j kind events hj
  refine ⟨m, _, getElem?_set_of hm, ?_⟩
  split
  · rename_i hnm
    subst hnm
    rw [hn] at hm
    cases hm
    exact ⟨hc.calls j hmem, fun e he => (hmade e he).mono hc⟩
  · exact ⟨hmem, hmade⟩

theorem Inv.append (h : s.Inv) (r : Request) : Inv { s with requests := s.requests ++ [r] } :=
  ⟨h.writer, h.owned.append r, h.stored⟩

/-- A request moves on without a call of the writer. -/
theorem Inv.advance (h : s.Inv) {n : Nat} {r : Request} (hn : s.requests[n]? = some r)
    (pending : List IngestEvent) (stage : Stage) (results : List (Except ServerError IngestResponse))
    (cache : Option IdempotencyCache) :
    Inv { s with
      cache := cache
      requests := s.requests.set n
        { r with pending := pending, stage := stage, results := results } } := by
  refine ⟨h.writer, ?_, h.stored⟩
  apply h.owned.set hn
  exact ⟨rfl, rfl, rfl, rfl, fun _ hj => hj⟩

theorem asked_begin (w : BatchWriter) (kind : CallKind) (events : List LlmEvent) :
    (w.begin kind events).calls.map BatchWriter.asked
      = w.calls.map BatchWriter.asked ++ [(kind, events)] := by
  simp [BatchWriter.begin, BatchWriter.asked]

/-- A call for events made under the request's identity. -/
theorem Inv.call (h : s.Inv) {n : Nat} {r : Request} (hn : s.requests[n]? = some r)
    {made : List (Except ServerError Made)} (pending : List IngestEvent)
    (hmade : ∀ e ∈ llmEvents made, MadeFor s.settings r e) : Inv (s.call n r made pending) := by
  have hc : r.Continues { r with
      pending := pending
      stage := .waiting s.writer.calls.length made
      calls := r.calls ++ [s.writer.calls.length] } :=
    ⟨rfl, rfl, rfl, rfl, fun j hj => List.mem_append_left _ hj⟩
  refine ⟨h.writer.begin _ _, ?_, h.stored⟩
  intro j kind events hj
  have hj' : (s.writer.calls.map BatchWriter.asked ++ [(r.path.kind, llmEvents made)])[j]?
      = some (kind, events) := by
    rw [← asked_begin]
    exact hj
  rcases getElem?_concat_cases hj' with hj' | ⟨rfl, heq⟩
  · exact h.owned.set hn hc s.cache j kind events hj'
  · cases heq
    refine ⟨n, _, getElem?_set_of hn, ?_⟩
    rw [if_pos rfl]
    exact ⟨by simp, fun e he => (hmade e he).mono hc⟩

/-- The writer moves without a new call. -/
theorem Inv.writerStep (h : s.Inv) {x : BatchWriter.Input} (hx : x.begins = false) :
    Inv { s with writer := s.writer.step x } := by
  refine ⟨BatchWriter.inv_step _ x h.writer, ?_, ?_⟩
  · intro j kind events hj
    apply h.owned j kind events
    rw [← BatchWriter.asked_step s.writer x hx]
    exact hj
  · intro t ht
    obtain ⟨i, sh, hi, q, hq, htok⟩ := h.stored t ht
    obtain ⟨sh', hi', ha, -⟩ := BatchWriter.grows_step s.writer x i sh hi
    exact ⟨i, sh', hi', q, ha q hq, htok⟩

theorem Inv.flush (h : s.Inv) (i : Nat) (outcome : Except StoreError Unit) (kept : Token → Bool) :
    Inv { s with
      writer := s.writer.step (.loop i (.appended outcome))
      stored := s.stored ++ flushed s.writer i outcome kept } := by
  have hwriter := h.writerStep (x := .loop i (.appended outcome)) rfl
  refine ⟨hwriter.writer, hwriter.owned, fun t ht => ?_⟩
  rcases List.mem_append.mp ht with ht | ht
  · exact hwriter.stored t ht
  · obtain ⟨sh, batch, last, hi, hp, q, hq, rfl⟩ := mem_flushed ht
    have haccepted : q ∈ sh.accepted := by
      apply (h.writer.shard i sh hi).mem_accepted_of_queued
      simp [Shard.queued, Shard.undecided, hp, hq]
    obtain ⟨sh', hi', ha, -⟩ := BatchWriter.grows_step s.writer (.loop i (.appended outcome)) i sh hi
    exact ⟨i, sh', hi', q, ha q haccepted, rfl⟩

theorem inv_step (s : Service) (x : Input) (h : s.Inv) : Inv (s.step x) := by
  have heffect := effect s x
  generalize s.step x = s' at heffect
  cases heffect with
  | stay => exact h
  | enter r => exact h.append r
  | hit n now r key cache cached _ hn => exact h.advance hn _ _ _ _
  | miss n now r key cache _ hn => exact h.advance hn _ _ _ _
  | pass n r hn => exact h.advance hn _ _ _ _
  | fail n r pending stage results hn => exact h.advance hn _ _ _ _
  | call n r made pending hn _ hmade => exact h.call hn pending hmade
  | collect n now call r c made results hn => exact h.advance hn _ _ _ _
  | flush i outcome kept => exact h.flush i outcome kept
  | writer y hy => exact h.writerStep (begins_of_isInternal hy)

theorem inv_run (settings : Settings) (config : BatchConfig) (cache : Option IdempotencyCache)
    (xs : List Input) : Inv (run step (new settings config cache) xs) :=
  run_invariant_of_step inv_step (inv_new settings config cache) xs

/-- The event of a write request. -/
def eventAt (w : BatchWriter) (t : Token) : Option LlmEvent :=
  w.calls[t.call]?.bind fun c => c.events[t.slot]?

theorem Inv.owner (h : s.Inv) {t : Token} (ht : t ∈ s.stored) :
    ∃ (e : LlmEvent) (n : Nat) (r : Request), eventAt s.writer t = some e ∧
      s.requests[n]? = some r ∧ t.call ∈ r.calls ∧ MadeFor s.settings r e := by
  obtain ⟨i, sh, hi, q, hq, rfl⟩ := h.stored t ht
  obtain ⟨c, hc, hsent⟩ := h.writer.origin i sh hi q hq
  have hasked : (s.writer.calls.map BatchWriter.asked)[q.token.call]? = some (c.kind, c.events) := by
    rw [List.getElem?_map, hc]
    rfl
  obtain ⟨n, r, hn, hmem, hmade⟩ := h.owned _ _ _ hasked
  refine ⟨q.event, n, r, ?_, hn, hmem, hmade _ (List.mem_of_getElem? hsent.event)⟩
  rw [eventAt, hc, Option.bind_some, hsent.event]

end Service

/-- An event made for an authenticated request carries the id and the tier of its key, through the
row and back. -/
theorem MadeFor.identity {settings : Settings} {r : Request} {e : LlmEvent} {key : AuthenticatedKey}
    (h : MadeFor settings r e) (hauth : r.auth = some key) (hne : key.keyId ≠ "") {tf : TextFormats}
    {e' : LlmEvent} (hread : fromEventRef tf (toLogEvent tf e) = pure e') :
    e'.apiKeyId = some key.keyId ∧ e'.tier = key.tier := by
  obtain ⟨visit, payload, made, hmade, rfl⟩ := h
  rw [Request.identity, hauth] at hmade
  obtain ⟨hkey, htier⟩ := identity_of_processEvent hmade
  obtain ⟨hid, hrow⟩ := identity_of_fromEventRef hne hkey hread
  exact ⟨hid, hrow.trans htier⟩

/-! ## Two runs -/

/-- The payload without the key id that an authenticated client claims. -/
def claimless (auth : Option AuthenticatedKey) (event : IngestEvent) : IngestEvent :=
  if auth.isSome then { event with apiKeyId := none } else event

def Request.claimless (r : Request) : Request :=
  { r with pending := r.pending.map (Server.claimless r.auth) }

/-- The override comes before anything looks at the payload. -/
theorem processEvent_claimless (settings : Settings) (r : Request) (visit : Visit)
    (event : IngestEvent) :
    processEvent visit.env visit.catalog (claimless r.auth event) (r.identity settings).1
        (r.identity settings).2
      = processEvent visit.env visit.catalog event (r.identity settings).1
        (r.identity settings).2 := by
  unfold claimless Request.identity
  cases r.auth with
  | none => rfl
  | some key => rfl

theorem processAll_claimless (settings : Settings) (r : Request) (visits : Nat → Visit)
    (events : List IngestEvent) :
    processAll visits (events.map (claimless r.auth)) (r.identity settings).1
        (r.identity settings).2
      = processAll visits events (r.identity settings).1 (r.identity settings).2 := by
  unfold processAll
  rw [List.zipIdx_map, List.mapM_map]
  congr 1
  funext p
  exact congrArg ExceptT.run (processEvent_claimless settings r (visits p.2) p.1)

namespace Service

def claimless (s : Service) : Service :=
  { s with requests := s.requests.map Request.claimless }

/-- The payload of an input, without the claim if the middleware lets it pass with a key. -/
def withoutClaim (keys : ApiKeySet) (header : Option (List UInt8)) (event : IngestEvent) :
    IngestEvent :=
  match requireApiKey keys header with
  | .ok auth => Server.claimless auth event
  | .error _ => event

def Input.claimless : Input → Input
  | .ingestSingle keys header durable idempotencyKey event =>
    .ingestSingle keys header durable idempotencyKey (withoutClaim keys header event)
  | .ingestBatch keys header durableHeader events =>
    .ingestBatch keys header durableHeader (events.map (withoutClaim keys header))
  | x => x

theorem enter_claimless (s : Service) (keys : ApiKeySet) (header : Option (List UInt8)) (path : Path)
    (stage : Stage) (events : List IngestEvent) (results : List (Except ServerError IngestResponse)) :
    (s.enter keys header path stage events results).claimless
      = s.claimless.enter keys header path stage (events.map (withoutClaim keys header)) results := by
  unfold enter
  split
  · rfl
  · rename_i auth hauth
    have hclaim : withoutClaim keys header = Server.claimless auth := by
      funext event
      rw [withoutClaim, hauth]
    rw [hclaim]
    simp only [claimless, List.map_append]
    rfl

/-- A request that moves on does so the same way without its claims. -/
theorem set_claimless (s : Service) (n : Nat) (r : Request) (cache : Option IdempotencyCache)
    (w : BatchWriter) :
    claimless { s with cache := cache, writer := w, requests := s.requests.set n r }
      = { s.claimless with
          cache := cache, writer := w, requests := s.claimless.requests.set n r.claimless } := by
  simp only [claimless, List.map_set]

theorem lookup_claimless (s : Service) (n : Nat) (r : Request) (now : Nat) :
    (s.lookup n r now).claimless = s.claimless.lookup n r.claimless now := by
  unfold lookup
  rw [show r.claimless.path = r.path from rfl, show s.claimless.cache = s.cache from rfl]
  split
  · split
    · exact set_claimless s n _ _ _
    · exact set_claimless s n _ _ _
  · exact set_claimless s n _ _ _

theorem afterRound_map (f : IngestEvent → IngestEvent) (pending : List IngestEvent) :
    afterRound (pending.map f) = afterRound pending := by
  unfold afterRound
  rw [List.isEmpty_map]

theorem submit_claimless (s : Service) (n : Nat) (r : Request) (visits : Nat → Visit) :
    (s.submit n r visits).claimless = s.claimless.submit n r.claimless visits := by
  unfold submit
  rw [show r.claimless.identity s.claimless.settings = r.identity s.settings from rfl,
    show r.claimless.path = r.path from rfl, show s.claimless.settings = s.settings from rfl,
    show r.claimless.pending = r.pending.map (Server.claimless r.auth) from rfl]
  dsimp only
  split
  · split
    · apply (set_claimless s n _ _ _).trans
      simp only [Request.claimless, List.map_map]
      rfl
    · rw [processAll_claimless]
      split
      · exact set_claimless s n _ _ _
      · exact set_claimless s n _ _ _
  · cases hpending : r.pending with
    | nil =>
      apply (set_claimless s n _ _ _).trans
      simp only [Request.claimless, hpending]
      rfl
    | cons event pending =>
      have hprepare : prepare s.settings (visits 0) (Server.claimless r.auth event)
          (r.identity s.settings).1 (r.identity s.settings).2
            = prepare s.settings (visits 0) event (r.identity s.settings).1
              (r.identity s.settings).2 := by
        unfold prepare
        rw [processEvent_claimless]
      rw [List.map_cons]
      dsimp only
      rw [hprepare]
      split
      · apply (set_claimless s n _ _ _).trans
        simp only [Request.claimless, hpending]
        rfl
      · rw [afterRound_map]
        exact set_claimless s n _ _ _
      · exact set_claimless s n _ _ _

theorem collect_claimless (s : Service) (n : Nat) (r : Request) (c : Call)
    (made : List (Except ServerError Made)) (now : Nat) :
    (s.collect n r c made now).claimless = s.claimless.collect n r.claimless c made now := by
  unfold collect
  rw [show r.claimless.path = r.path from rfl, show s.claimless.settings = s.settings from rfl]
  split
  · rfl
  · rw [show afterRound r.claimless.pending = afterRound r.pending from afterRound_map _ _]
    exact set_claimless s n _ _ _

/-- No step depends on the claims. -/
theorem step_claimless (s : Service) (x : Input) :
    (s.step x).claimless = s.claimless.step x.claimless := by
  have hget : ∀ n, s.claimless.requests[n]? = s.requests[n]?.map Request.claimless :=
    fun n => List.getElem?_map
  cases x with
  | ingestSingle keys header durable idempotencyKey event =>
    simp only [step, Input.claimless, ingestSingle]
    split
    · exact enter_claimless s _ _ _ _ _ _
    · exact enter_claimless s _ _ _ _ _ _
  | ingestBatch keys header durableHeader events =>
    simp only [step, Input.claimless, ingestBatch, List.length_map]
    split
    · exact enter_claimless s _ _ _ _ _ _
    · exact enter_claimless s _ _ _ _ _ _
  | lookup n now =>
    simp only [step, Input.claimless, hget]
    cases s.requests[n]? with
    | none => rfl
    | some r =>
      simp only [Option.map_some]
      rw [show r.claimless.stage = r.stage from rfl]
      split
      · exact lookup_claimless s n r now
      · rfl
  | submit n visits =>
    simp only [step, Input.claimless, hget]
    cases s.requests[n]? with
    | none => rfl
    | some r =>
      simp only [Option.map_some]
      rw [show r.claimless.stage = r.stage from rfl,
        show s.claimless.writer.dropped = s.writer.dropped from rfl]
      split
      · split
        · rfl
        · exact submit_claimless s n r visits
      · rfl
  | collect n now =>
    simp only [step, Input.claimless, hget]
    cases s.requests[n]? with
    | none => rfl
    | some r =>
      simp only [Option.map_some]
      rw [show r.claimless.stage = r.stage from rfl, show s.claimless.writer = s.writer from rfl]
      split
      · split
        · rfl
        · exact collect_claimless s n r _ _ now
      · rfl
  | flush i outcome kept => rfl
  | writer x =>
    simp only [step, Input.claimless]
    split <;> rfl

theorem run_claimless (s : Service) (xs : List Input) :
    (run step s xs).claimless = run step s.claimless (xs.map Input.claimless) := by
  induction xs generalizing s with
  | nil => rfl
  | cons x xs ih => rw [run_cons, ih, step_claimless, List.map_cons, run_cons]

end Service

/-- In every state of every run, each write request that is in the store has an event and belongs to
a request. If that request passed the keys of a validated configuration with a key, the
configuration has an entry with the key's id and tier whose secret is the request's token, and
whoever reads the row of the event finds this id and this tier. And two runs whose inputs differ only
in the key ids that authenticated payloads claim have stored the same events. -/
theorem stored_events_carry_the_authenticated_key (digest : ByteArray → Sha256) (settings : Settings)
    (batching : BatchConfig) (cache : Option IdempotencyCache) (xs : List Service.Input) :
    let s := run Service.step (.new settings batching cache) xs
    (∀ t ∈ s.stored, ∃ (e : LlmEvent) (n : Nat) (r : Request),
      Service.eventAt s.writer t = some e ∧ s.requests[n]? = some r ∧ t.call ∈ r.calls ∧
      ∀ (config : ServerConfig) (pathExists : String → Bool) (key : AuthenticatedKey),
        config.validate pathExists = .ok () → r.keys = ApiKeySet.ofConfig digest config →
        r.auth = some key →
          Configured digest config key.keyId key.tier (bearerToken r.header) ∧
          ∀ tf : TextFormats,
            (MetadataReads tf e → ∃ e', fromEventRef tf (toLogEvent tf e) = pure e') ∧
            ∀ e', fromEventRef tf (toLogEvent tf e) = pure e' →
              e'.apiKeyId = some key.keyId ∧ e'.tier = key.tier) ∧
    ∀ ys : List Service.Input, xs.map Service.Input.claimless = ys.map Service.Input.claimless →
      let s' := run Service.step (.new settings batching cache) ys
      s'.stored = s.stored ∧ ∀ t, Service.eventAt s'.writer t = Service.eventAt s.writer t := by
  intro s
  refine ⟨fun t ht => ?_, fun ys hsame => ?_⟩
  · obtain ⟨e, n, r, he, hn, hcall, hmade⟩ := (Service.inv_run settings batching cache xs).owner ht
    refine ⟨e, n, r, he, hn, hcall, fun config pathExists key hvalid hkeys hauth => ?_⟩
    have hauthentic := r.authentic
    rw [hkeys, hauth] at hauthentic
    have hconfigured := configured_of_requireApiKey hauthentic
    refine ⟨hconfigured, fun tf => ⟨fun hmetadata => ⟨_, fromEventRef_toLogEvent hmetadata⟩, ?_⟩⟩
    intro e' hread
    exact hmade.identity hauth (hconfigured.id_ne_empty hvalid) hread
  · intro s'
    have hrun : s'.claimless = s.claimless := by
      rw [Service.run_claimless, Service.run_claimless, hsame]
    have hstored : s'.claimless.stored = s.claimless.stored := by rw [hrun]
    have hwriter : s'.claimless.writer = s.claimless.writer := by rw [hrun]
    refine ⟨hstored, fun t => ?_⟩
    rw [show s'.writer = s.writer from hwriter]

/-! ## A client that claims another's key -/

/-- The key set of a server with one key. -/
def opsConfig : ServerConfig := { auth := { apiKeys := ["ops:s3cret"] } }

def sampleSettings : Settings where
  tf := textFormats
  defaultTier := "free"
  maxDbBytes := 0
  writeTimeoutSecs := 10
  sizeText := fun _ _ => ""

def bearer (token : String) : Option (List UInt8) :=
  some (("Bearer " ++ token).toList.map fun c => c.toNat.toUInt8)

/-- A payload is stored: the request comes in, is looked up and submitted, and the writer takes its
event through the first shard. -/
def storingRun (event : IngestEvent) : List Service.Input :=
  [.ingestSingle (ApiKeySet.ofConfig (fun _ => Sha256.zero) opsConfig) (bearer "s3cret") true none event,
    .lookup 0 0, .submit 0 fun _ => ⟨sampleSurroundings, ⟨fun _ => none⟩, none⟩,
    .writer (.pick 0), .writer (.send 0), .writer (.loop 0 .recv), .writer (.loop 0 .drain),
    .writer (.loop 0 .tick), .flush 0 (.ok ()) fun _ => false]

/-- A payload that names somebody else's key. -/
def spoofingEvent : IngestEvent :=
  { model := "gpt-4o", provider := "openai", costNanodollars := some 0, apiKeyId := some "victim" }

theorem spoofed_key_is_overridden :
    ∃ e, Service.eventAt (run Service.step (.new sampleSettings .default none)
        (storingRun spoofingEvent)).writer ⟨0, 0⟩ = some e ∧
      ∃ e', fromEventRef textFormats (toLogEvent textFormats e) = pure e' ∧
        e'.apiKeyId = some "ops" ∧ e'.tier = "free" := by
  have hall := (stored_events_carry_the_authenticated_key (fun _ => Sha256.zero) sampleSettings
    .default none (storingRun spoofingEvent)).1
  have hstored : (run Service.step (.new sampleSettings .default none)
      (storingRun spoofingEvent)).stored = [⟨0, 0⟩] := by decide +kernel
  obtain ⟨e, n, r, he, hn, -, hkey⟩ := hall ⟨0, 0⟩ (by rw [hstored]; simp)
  have hrequests : (run Service.step (.new sampleSettings .default none)
      (storingRun spoofingEvent)).requests.map (fun r => (r.keys, r.auth))
        = [(ApiKeySet.ofConfig (fun _ => Sha256.zero) opsConfig, some ⟨"ops", "free"⟩)] := by
    decide +kernel
  have hr : (r.keys, r.auth)
      = (ApiKeySet.ofConfig (fun _ => Sha256.zero) opsConfig, some ⟨"ops", "free"⟩) := by
    have hmem := List.mem_map_of_mem (f := fun r : Request => (r.keys, r.auth))
      (List.mem_of_getElem? hn)
    rw [hrequests] at hmem
    exact List.mem_singleton.mp hmem
  obtain ⟨hkeys, hauth⟩ := Prod.mk.inj hr
  obtain ⟨-, hread⟩ := hkey opsConfig (fun _ => false) ⟨"ops", "free"⟩ (by decide +kernel) hkeys hauth
  refine ⟨e, he, ?_⟩
  have hmetadata : MetadataReads textFormats e := by
    have hnone : (Service.eventAt (run Service.step (.new sampleSettings .default none)
        (storingRun spoofingEvent)).writer ⟨0, 0⟩).bind LlmEvent.metadata = none := by decide +kernel
    rw [he, Option.bind_some] at hnone
    intro v hv
    rw [hnone] at hv
    cases hv
  obtain ⟨e', he'⟩ := (hread textFormats).1 hmetadata
  exact ⟨e', he', (hread textFormats).2 e' he'⟩

end Keplor.Server
