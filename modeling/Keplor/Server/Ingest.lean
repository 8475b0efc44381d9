import Keplor.Server.Auth
import Keplor.Server.Idempotency
import Keplor.Server.Pipeline
import Keplor.Store.Batch

/-!
# `keplor-server/src/{pipeline,routes}.rs` — the ingest requests

A request comes in through `require_api_key`, and its handler takes it through the pipeline: look the
idempotency key up, check the size of the store, process the payload, hand the event to the batch
writer, wait, remember the response. Requests run next to each other. `Service` is all of them
together with the writer and the cache, and a step of it is whatever one task does without another
coming in between.

A batch without the durable header is a sequence of single fire-and-forget events, so there are three
paths. Each handles what is left of its payloads in rounds, and a round is one call of the writer.
-/

set_option autoImplicit false

namespace Keplor.Server

open Keplor.Core Keplor.Lib Keplor.Pricing Keplor.Store

/-- What `process_event` returns: the event, its provider, its model and its cost. -/
abbrev Made := LlmEvent × Provider × String × Int64

/-- What of the pipeline and the handlers' state is fixed when the server starts. -/
structure Settings where
  tf : TextFormats
  defaultTier : String
  /-- 0 = unlimited -/
  maxDbBytes : UInt64
  writeTimeoutSecs : UInt64
  /-- the text of a size and of its limit, in megabytes -/
  sizeText : UInt64 → UInt64 → String

/-- What the processing of one payload finds. -/
structure Visit where
  env : Surroundings
  catalog : Catalog
  /-- `db_size_bytes`, if it returned -/
  dbSize : Option UInt64

/-- `Pipeline::check_db_size` -/
def checkDbSize (settings : Settings) (dbSize : Option UInt64) : Except ServerError Unit :=
  if settings.maxDbBytes = 0 then return
  else
    match dbSize with
    | some size =>
      if settings.maxDbBytes ≤ size then
        throw (.storageFull (settings.sizeText size settings.maxDbBytes))
      else return
    | none => return

/-- What `ingest` and `ingest_fire_and_forget` do before they call the writer. -/
def prepare (settings : Settings) (visit : Visit) (event : IngestEvent)
    (authenticatedKeyId : Option String) (tier : String) : Fallible ServerError Made := do
  Fallible.ofExcept (checkDbSize settings visit.dbSize)
  processEvent visit.env visit.catalog event authenticatedKeyId tier

/-- The loop of `ingest_batch_durable`. One payload that aborts takes the whole handler with it. -/
def processAll (visits : Nat → Visit) (events : List IngestEvent) (authenticatedKeyId : Option String)
    (tier : String) : Option (List (Except ServerError Made)) :=
  events.zipIdx.mapM fun (event, i) =>
    (processEvent (visits i).env (visits i).catalog event authenticatedKeyId tier).run

/-- `llm_events` of `ingest_batch_durable` -/
def llmEvents (made : List (Except ServerError Made)) : List LlmEvent :=
  made.filterMap fun
    | .ok m => some m.1
    | .error _ => none

/-- The response to an event stored under an id. -/
def respond (settings : Settings) (id : EventId) (made : Made) : IngestResponse where
  id := settings.tf.ulid.print id
  costNanodollars := made.2.2.2
  model := made.2.2.1
  provider := made.2.1.idKey

/-- The end of `ingest_batch_durable`: the writer's results go, in order, to the payloads that got as
far as the writer. -/
def assemble (settings : Settings) :
    List (Except ServerError Made) → List Reply → List (Except ServerError IngestResponse)
  | [], _ => []
  | .error e :: made, written => .error e :: assemble settings made written
  | .ok _ :: made, [] => .error (.internal "unreachable") :: assemble settings made []
  | .ok m :: made, .ok id :: written => .ok (respond settings id m) :: assemble settings made written
  | .ok _ :: made, .error e :: written => .error (.store e) :: assemble settings made written

def timeoutText (settings : Settings) : String :=
  "write timed out after " ++ toString settings.writeTimeoutSecs ++ "s"

/-! ## Requests -/

inductive Path where
  /-- `Pipeline::ingest` -/
  | durable (idempotencyKey : Option String)
  /-- `Pipeline::ingest_fire_and_forget`, for one payload after the other -/
  | fireAndForget
  /-- `Pipeline::ingest_batch_durable` -/
  | durableBatch
  deriving DecidableEq

/-- Which entry point of the writer a path calls. -/
def Path.kind : Path → CallKind
  | .durable _ => .write
  | .fireAndForget => .writeFireAndForget
  | .durableBatch => .writeMany

inductive Stage where
  /-- the idempotency cache has not been asked -/
  | arrived
  /-- the next payload, or the whole batch, is to be processed -/
  | ready
  /-- a call of the writer is under way -/
  | waiting (call : Nat) (made : List (Except ServerError Made))
  | returned
  /-- the handler's task died -/
  | aborted

/-- A request behind the middleware. `calls` are the calls of the writer it has made. -/
structure Request where
  keys : ApiKeySet
  header : Option (List UInt8)
  auth : Option AuthenticatedKey
  authentic : requireApiKey keys header = .ok auth
  path : Path
  pending : List IngestEvent
  stage : Stage
  calls : List Nat
  results : List (Except ServerError IngestResponse)

/-- The key id and the tier a handler works with. -/
def Request.identity (settings : Settings) (r : Request) : Option String × String :=
  match r.auth with
  | some key => (some key.keyId, key.tier)
  | none => (none, settings.defaultTier)

/-- Where a request goes on when a round is over. -/
def afterRound (pending : List IngestEvent) : Stage :=
  if pending.isEmpty then .returned else .ready

/-- What the handler gets out of its call, once there is something to get. -/
def outcomeOf (settings : Settings) (path : Path) (made : List (Except ServerError Made)) (c : Call) :
    Option (List (Except ServerError IngestResponse)) :=
  match path, made with
  | .fireAndForget, [.ok m] =>
    match c.sent with
    | .ok _ :: _ => some [.ok (respond settings m.1.id m)]
    | .error e :: _ => some [.error (.store e)]
    | [] => none
  | .durable _, [.ok m] =>
    if c.cancelled then some [.error (.internal (timeoutText settings))]
    else
      match c.results with
      | .ok id :: _ => some [.ok (respond settings id m)]
      | .error e :: _ => some [.error (.store e)]
      | [] => none
  | .durableBatch, made =>
    if c.cancelled then
      some (assemble settings made
        ((llmEvents made).map fun _ => .error (.internal (timeoutText settings))))
    else if c.results.length = (llmEvents made).length then some (assemble settings made c.results)
    else none
  | _, _ => none

/-! ## The service -/

/-- `stored` is there to speak about a run: the write requests whose event is in the store. -/
structure Service where
  settings : Settings
  writer : BatchWriter
  cache : Option IdempotencyCache
  requests : List Request
  stored : List Token

namespace Service

def new (settings : Settings) (config : BatchConfig) (cache : Option IdempotencyCache) : Service where
  settings := settings
  writer := .new config
  cache := cache
  requests := []
  stored := []

/-- `MAX_BATCH_SIZE` -/
def MAX_BATCH_SIZE : Nat := 10000

/-- A request enters a handler, if the middleware lets it. -/
def enter (s : Service) (keys : ApiKeySet) (header : Option (List UInt8)) (path : Path) (stage : Stage)
    (events : List IngestEvent) (results : List (Except ServerError IngestResponse)) : Service :=
  match h : requireApiKey keys header with
  | .error _ => s
  | .ok auth =>
    { s with requests := s.requests ++ [⟨keys, header, auth, h, path, events, stage, [], results⟩] }

/-- `ingest_single` -/
def ingestSingle (s : Service) (keys : ApiKeySet) (header : Option (List UInt8)) (durable : Bool)
    (idempotencyKey : Option (List UInt8)) (event : IngestEvent) : Service :=
  if durable then
    s.enter keys header (.durable ((idempotencyKey.bind headerToStr).map String.ofList)) .arrived
      [event] []
  else s.enter keys header .fireAndForget .ready [event] []

/-- `ingest_batch`; the header is compared without regard to case. -/
def ingestBatch (s : Service) (keys : ApiKeySet) (header : Option (List UInt8))
    (durableHeader : Option (List UInt8)) (events : List IngestEvent) : Service :=
  let durable := ((durableHeader.bind headerToStr).map toAsciiLowercase) == some "true".toList
  let path := if durable then .durableBatch else .fireAndForget
  if MAX_BATCH_SIZE < events.length then
    s.enter keys header path .returned []
      [.error (.validation ("batch size " ++ toString events.length ++ " exceeds maximum "
        ++ toString MAX_BATCH_SIZE))]
  else s.enter keys header path .ready events []

/-- The first lines of `ingest`. -/
def lookup (s : Service) (n : Nat) (r : Request) (now : Nat) : Service :=
  match r.path, s.cache with
  | .durable (some key), some cache =>
    match cache.get key now with
    | (some cached, cache) =>
      { s with
        cache := some cache
        requests := s.requests.set n
          { r with pending := [], stage := .returned, results := [.ok cached] } }
    | (none, cache) =>
      { s with cache := some cache, requests := s.requests.set n { r with stage := .ready } }
  | _, _ => { s with requests := s.requests.set n { r with stage := .ready } }

/-- A call of the writer begins. -/
def call (s : Service) (n : Nat) (r : Request) (made : List (Except ServerError Made))
    (pending : List IngestEvent) : Service :=
  let started := s.writer.calls.length
  { s with
    writer := s.writer.begin r.path.kind (llmEvents made)
    requests := s.requests.set n
      { r with pending := pending, stage := .waiting started made, calls := r.calls ++ [started] } }

/-- A round up to the call of the writer. -/
def submit (s : Service) (n : Nat) (r : Request) (visits : Nat → Visit) : Service :=
  let (keyId, tier) := r.identity s.settings
  match r.path with
  | .durableBatch =>
    match checkDbSize s.settings (visits 0).dbSize with
    | .error e =>
      { s with
        requests := s.requests.set n
          { r with
            pending := []
            stage := .returned
            results := r.pending.map fun _ => .error (.storageFull e.display) } }
    | .ok () =>
      match processAll visits r.pending keyId tier with
      | none => { s with requests := s.requests.set n { r with stage := .aborted } }
      | some made => s.call n r made []
  | _ =>
    match r.pending with
    | [] => { s with requests := s.requests.set n { r with stage := .returned } }
    | event :: pending =>
      match (prepare s.settings (visits 0) event keyId tier).run with
      | none => { s with requests := s.requests.set n { r with stage := .aborted } }
      | some (.error e) =>
        { s with
          requests := s.requests.set n
            { r with pending := pending, stage := afterRound pending, results := r.results ++ [.error e] } }
      | some (.ok m) => s.call n r [.ok m] pending

/-- What `ingest` puts into the cache at the end of a round. -/
def remember (cache : Option IdempotencyCache) (path : Path)
    (results : List (Except ServerError IngestResponse)) (now : Nat) : Option IdempotencyCache :=
  match path, results with
  | .durable (some key), [.ok response] => cache.map fun c => c.insert key response now
  | _, _ => cache

/-- The end of a round. -/
def collect (s : Service) (n : Nat) (r : Request) (c : Call) (made : List (Except ServerError Made))
    (now : Nat) : Service :=
  match outcomeOf s.settings r.path made c with
  | none => s
  | some results =>
    { s with
      cache := remember s.cache r.path results now
      requests := s.requests.set n
        { r with stage := afterRound r.pending, results := r.results ++ results } }

/-- The write requests a flush puts into the store: all of them, or after an error any of them. -/
def flushed (w : BatchWriter) (i : Nat) (outcome : Except StoreError Unit) (kept : Token → Bool) :
    List Token :=
  match w.shards[i]? with
  | none => []
  | some sh =>
    match sh.phase, outcome with
    | .flushing batch _, .ok () => batch.map WriteRequest.token
    | .flushing batch _, .error _ => (batch.map WriteRequest.token).filter kept
    | _, _ => []

inductive Input where
  | ingestSingle (keys : ApiKeySet) (header : Option (List UInt8)) (durable : Bool)
      (idempotencyKey : Option (List UInt8)) (event : IngestEvent)
  | ingestBatch (keys : ApiKeySet) (header : Option (List UInt8)) (durableHeader : Option (List UInt8))
      (events : List IngestEvent)
  | lookup (n : Nat) (now : Nat)
  | submit (n : Nat) (visits : Nat → Visit)
  | collect (n : Nat) (now : Nat)
  /-- `append_batch_durable` of a shard returned -/
  | flush (i : Nat) (outcome : Except StoreError Unit) (kept : Token → Bool)
  | writer (x : BatchWriter.Input)

/-- The steps the writer takes by itself, other than the end of a flush. -/
def isInternal : BatchWriter.Input → Bool
  | .write _ | .writeMany _ | .writeFireAndForget _ => false
  | .loop _ (.appended _) => false
  | _ => true

/-- One step. -/
def step (s : Service) : Input → Service
  | .ingestSingle keys header durable idempotencyKey event =>
    s.ingestSingle keys header durable idempotencyKey event
  | .ingestBatch keys header durableHeader events => s.ingestBatch keys header durableHeader events
  | .lookup n now =>
    match s.requests[n]? with
    | none => s
    | some r =>
      match r.stage with
      | .arrived => s.lookup n r now
      | _ => s
  | .submit n visits =>
    match s.requests[n]? with
    | none => s
    | some r =>
      match r.stage with
      | .ready => if s.writer.dropped then s else s.submit n r visits
      | _ => s
  | .collect n now =>
    match s.requests[n]? with
    | none => s
    | some r =>
      match r.stage with
      | .waiting call made =>
        match s.writer.calls[call]? with
        | none => s
        | some c => s.collect n r c made now
      | _ => s
  | .flush i outcome kept =>
    { s with
      writer := s.writer.step (.loop i (.appended outcome))
      stored := s.stored ++ flushed s.writer i outcome kept }
  | .writer x => if isInternal x then { s with writer := s.writer.step x } else s

end Service

/-! ## What a step can do -/

/-- The event was made of some payload under the identity of the request. -/
def MadeFor (settings : Settings) (r : Request) (e : LlmEvent) : Prop :=
  ∃ (visit : Visit) (payload : IngestEvent) (made : Made),
    processEvent visit.env visit.catalog payload (r.identity settings).1 (r.identity settings).2
      = pure made ∧ made.1 = e

theorem mem_llmEvents {made : List (Except ServerError Made)} {e : LlmEvent}
    (h : e ∈ llmEvents made) : ∃ m : Made, .ok m ∈ made ∧ m.1 = e := by
  obtain ⟨outcome, hmem, hsome⟩ := List.mem_filterMap.mp h
  cases outcome with
  | error err => cases hsome
  | ok m => exact ⟨m, hmem, Option.some.inj hsome⟩

theorem madeFor_of_processAll {settings : Settings} {r : Request} {visits : Nat → Visit}
    {payloads : List IngestEvent} {made : List (Except ServerError Made)}
    (h : processAll visits payloads (r.identity settings).1 (r.identity settings).2 = some made) :
    ∀ e ∈ llmEvents made, MadeFor settings r e := by
  intro e he
  obtain ⟨m, hm, rfl⟩ := mem_llmEvents he
  unfold processAll at h
  obtain ⟨p, -, hp⟩ := exists_left_of_forall₂ (mapM_eq_some_iff.mp h) hm
  exact ⟨visits p.2, p.1, m, hp, rfl⟩

/-- The handler has work to do or to wait for. -/
def Stage.running : Stage → Bool
  | .ready | .waiting _ _ => true
  | _ => false

namespace Service

/-- A flush stores requests of its batch. -/
theorem mem_flushed {w : BatchWriter} {i : Nat} {outcome : Except StoreError Unit}
    {kept : Token → Bool} {t : Token} (h : t ∈ flushed w i outcome kept) :
    ∃ (sh : Shard) (batch : List WriteRequest) (last : Bool), w.shards[i]? = some sh ∧
      sh.phase = .flushing batch last ∧ ∃ q ∈ batch, q.token = t := by
  unfold flushed at h
  split at h
  · cases h
  · rename_i sh hi
    split at h
    · rename_i batch last hp
      exact ⟨sh, batch, last, hi, hp, List.mem_map.mp h⟩
    · rename_i batch last _ hp
      exact ⟨sh, batch, last, hi, hp, List.mem_map.mp (List.mem_of_mem_filter h)⟩
    · cases h

/-- The effects a step of the service can have, with what must be so before it. -/
inductive Effect (s : Service) (x : Input) : Service → Prop where
  | stay : Effect s x s
  | enter (r : Request) (hcalls : r.calls = []) (hresults : ∀ response, .ok response ∉ r.results)
      (hdurable : ∀ key, r.path = .durable key → r.stage = .arrived ∧ r.pending.length ≤ 1) :
      Effect s x { s with requests := s.requests ++ [r] }
  | hit (n now : Nat) (r : Request) (key : String) (cache : IdempotencyCache) (cached : IngestResponse)
      (hx : x = .lookup n now) (hn : s.requests[n]? = some r) (hstage : r.stage = .arrived)
      (hpath : r.path = .durable (some key)) (hcache : s.cache = some cache)
      (hget : (cache.get key now).1 = some cached) :
      Effect s x { s with
        cache := some (cache.get key now).2
        requests := s.requests.set n
          { r with pending := [], stage := .returned, results := [.ok cached] } }
  | miss (n now : Nat) (r : Request) (key : String) (cache : IdempotencyCache)
      (hx : x = .lookup n now) (hn : s.requests[n]? = some r) (hstage : r.stage = .arrived)
      (hpath : r.path = .durable (some key)) (hcache : s.cache = some cache)
      (hget : (cache.get key now).1 = none) :
      Effect s x { s with
        cache := some (cache.get key now).2
        requests := s.requests.set n { r with stage := .ready } }
  | pass (n : Nat) (r : Request) (hn : s.requests[n]? = some r) (hstage : r.stage = .arrived)
      (hpath : ∀ key, r.path = .durable (some key) → s.cache = none) :
      Effect s x { s with requests := s.requests.set n { r with stage := .ready } }
  | fail (n : Nat) (r : Request) (pending : List IngestEvent) (stage : Stage)
      (results : List (Except ServerError IngestResponse)) (hn : s.requests[n]? = some r)
      (hstage : r.stage = .ready)
      (hnext : stage = .returned ∨ stage = .aborted ∨ stage = .ready ∧ 1 < r.pending.length)
      (hresults : ∀ response, .ok response ∈ results → .ok response ∈ r.results) :
      Effect s x { s with
        requests := s.requests.set n
          { r with pending := pending, stage := stage, results := results } }
  | call (n : Nat) (r : Request) (made : List (Except ServerError Made)) (pending : List IngestEvent)
      (hn : s.requests[n]? = some r) (hstage : r.stage = .ready)
      (hmade : ∀ e ∈ llmEvents made, MadeFor s.settings r e)
      (hdurable : ∀ key, r.path = .durable key →
        (llmEvents made).length = 1 ∧ pending.length < r.pending.length) :
      Effect s x (s.call n r made pending)
  | collect (n now call : Nat) (r : Request) (c : Call) (made : List (Except ServerError Made))
      (results : List (Except ServerError IngestResponse)) (hn : s.requests[n]? = some r)
      (hstage : r.stage = .waiting call made) (hc : s.writer.calls[call]? = some c)
      (hresults : outcomeOf s.settings r.path made c = some results) :
      Effect s x { s with
        cache := remember s.cache r.path results now
        requests := s.requests.set n
          { r with stage := afterRound r.pending, results := r.results ++ results } }
  | flush (i : Nat) (outcome : Except StoreError Unit) (kept : Token → Bool) :
      Effect s x { s with
        writer := s.writer.step (.loop i (.appended outcome))
        stored := s.stored ++ flushed s.writer i outcome kept }
  | writer (y : BatchWriter.Input) (hy : isInternal y = true) :
      Effect s x { s with writer := s.writer.step y }

variable {s : Service} {x : Input}

theorem effect_enter (keys : ApiKeySet) (header : Option (List UInt8)) (path : Path) (stage : Stage)
    (events : List IngestEvent) (results : List (Except ServerError IngestResponse))
    (hresults : ∀ response, .ok response ∉ results)
    (hdurable : ∀ key, path = .durable key → stage = .arrived ∧ events.length ≤ 1) :
    Effect s x (s.enter keys header path stage events results) := by
  unfold enter
  split
  · exact .stay
  · exact .enter _ rfl hresults hdurable

theorem effect_lookup {n now : Nat} {r : Request} (hx : x = .lookup n now)
    (hn : s.requests[n]? = some r) (hstage : r.stage = .arrived) :
    Effect s x (s.lookup n r now) := by
  unfold lookup
  split
  · rename_i key cache hpath hcache
    rcases hget : cache.get key now with ⟨found, cache'⟩
    have hsnd : cache' = (cache.get key now).2 := by rw [hget]
    rw [hsnd]
    cases found with
    | none => exact .miss n now r key cache hx hn hstage hpath hcache (by rw [hget])
    | some cached => exact .hit n now r key cache cached hx hn hstage hpath hcache (by rw [hget])
  · rename_i hno
    refine .pass n r hn hstage fun key hpath => ?_
    cases hcache : s.cache with
    | none => rfl
    | some cache => exact absurd hcache (hno key cache hpath)

theorem effect_submit {n : Nat} {r : Request} (visits : Nat → Visit) (hn : s.requests[n]? = some r)
    (hstage : r.stage = .ready) : Effect s x (s.submit n r visits) := by
  unfold submit
  dsimp only
  split
  · rename_i hpath
    split
    · refine .fail n r _ _ _ hn hstage (.inl rfl) ?_
      intro response hmem
      simp at hmem
    · split
      · exact .fail n r _ _ _ hn hstage (.inr (.inl rfl)) fun _ h => h
      · rename_i made hmade
        refine .call n r made [] hn hstage (madeFor_of_processAll hmade) fun key hkey => ?_
        rw [hpath] at hkey
        cases hkey
  · split
    · exact .fail n r _ _ _ hn hstage (.inl rfl) fun _ h => h
    · rename_i event pending hpending
      split
      · exact .fail n r _ _ _ hn hstage (.inr (.inl rfl)) fun _ h => h
      · refine .fail n r _ _ _ hn hstage ?_ ?_
        · unfold afterRound
          split
          · exact .inl rfl
          · rename_i hne
            refine .inr (.inr ⟨rfl, ?_⟩)
            rw [hpending]
            simpa [List.length_pos_iff] using hne
        · intro response hmem
          simpa using hmem
      · rename_i m hm
        refine .call n r [.ok m] pending hn hstage ?_ fun key _ => ⟨rfl, by simp [hpending]⟩
        intro e he
        rw [show llmEvents [.ok m] = [m.1] from rfl, List.mem_singleton] at he
        obtain ⟨_, -, hm⟩ := Fallible.bind_eq_pure (b := m) hm
        exact ⟨visits 0, event, m, hm, he.symm⟩

theorem effect (s : Service) (x : Input) : Effect s x (s.step x) := by
  cases hx : x with
  | ingestSingle keys header durable idempotencyKey event =>
    rw [step, ingestSingle]
    split
    · exact effect_enter _ _ _ _ _ _ (by simp) fun _ _ => ⟨rfl, by simp⟩
    · exact effect_enter _ _ _ _ _ _ (by simp) fun _ h => by cases h
  | ingestBatch keys header durableHeader events =>
    rw [step, ingestBatch]
    have hpath : ∀ (b : Bool) (key : Option String),
        (if b then Path.durableBatch else Path.fireAndForget) ≠ .durable key := by
      intro b key
      cases b <;> simp
    split
    · exact effect_enter _ _ _ _ _ _ (by simp) fun key h => absurd h (hpath _ key)
    · exact effect_enter _ _ _ _ _ _ (by simp) fun key h => absurd h (hpath _ key)
  | lookup n now =>
    rw [step]
    split
    · exact .stay
    · rename_i r hn
      split
      · rename_i hstage
        exact effect_lookup rfl hn hstage
      · exact .stay
  | submit n visits =>
    rw [step]
    split
    · exact .stay
    · rename_i r hn
      split
      · rename_i hstage
        split
        · exact .stay
        · exact effect_submit visits hn hstage
      · exact .stay
  | collect n now =>
    rw [step]
    split
    · exact .stay
    · rename_i r hn
      split
      · rename_i call made hstage
        split
        · exact .stay
        · rename_i c hc
          unfold collect
          split
          · exact .stay
          · rename_i results hresults
            exact .collect n now call r c made results hn hstage hc hresults
      · exact .stay
  | flush i outcome kept => exact .flush i outcome kept
  | writer y =>
    rw [step]
    split
    · rename_i hy
      exact .writer y hy
    · exact .stay

theorem begins_of_isInternal {y : BatchWriter.Input} (h : isInternal y = true) : y.begins = false := by
  cases y with
  | write event => cases h
  | writeMany events => cases h
  | writeFireAndForget event => cases h
  | _ => rfl

end Service

end Keplor.Server
