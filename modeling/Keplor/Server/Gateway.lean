import Keplor.Server.RateLimit
import Keplor.Server.Refusals
import Keplor.Server.Reload

/-!
# `PipelineServer::new` — the layers in front of the handlers

A request meets `require_api_key` first, with the key set in force at that moment, and then the rate
limiter, if there is one; only what both let through reaches a handler. The limiter takes its token
before anybody reads the body, so a body that does not parse, and a request for one of the other
routes, costs a token as well.

What a key can make the store hold is the bound of the limiter times the size of a batch. This needs
both halves: the window of the token bucket, and that a request's calls of the writer carry no more
events than it brought.
-/

set_option autoImplicit false

namespace Keplor.Server

open Keplor.Core Keplor.Lib Keplor.Pricing Keplor.Store

/-! ## 1. The layers -/

/-- What a request asks for. -/
inductive Asked where
  /-- `POST /v1/events` -/
  | single (durable : Bool) (idempotencyKey : Option (List UInt8)) (event : IngestEvent)
  /-- `POST /v1/events/batch` -/
  | batch (durableHeader : Option (List UInt8)) (events : List IngestEvent)
  /-- a body that does not parse, or one of the other routes -/
  | other

/-- How many payloads the handler takes in. A batch that is too large is turned away whole. -/
def Asked.payloads : Asked → Nat
  | .single _ _ _ => 1
  | .batch _ events => if Service.MAX_BATCH_SIZE < events.length then 0 else events.length
  | .other => 0

/-- A request that reached an ingest handler: for whom, when it passed the limiter, and how many
payloads it brought. -/
structure Pass where
  auth : Option AuthenticatedKey
  now : ℚ
  payloads : Nat

/-- `passed` is there to speak about a run: one entry for each request of the service. -/
structure Gateway where
  service : Service
  keys : ApiKeySet
  limiter : Option RateLimiter
  passed : List Pass

namespace Gateway

def new (service : Service) (keys : ApiKeySet) (rateLimit : Option RateLimitConfig) : Gateway where
  service := service
  keys := keys
  limiter := rateLimit.map RateLimiter.new
  passed := []

section Step

variable (hash : String → UInt64) (digest : ByteArray → Sha256)
  (extract : String → Except String ServerConfig)

/-- The layers, from the outermost: the status of a refusal, or who it is. -/
def letThrough (g : Gateway) (header : Option (List UInt8)) (now : ℚ) :
    Except UInt16 (Option AuthenticatedKey) × Option RateLimiter :=
  match requireApiKey g.keys header, g.limiter with
  | .error status, limiter => (.error status, limiter)
  | .ok auth, none => (.ok auth, none)
  | .ok auth, some l =>
    let (answer, l) := rateLimit hash l auth now
    match answer with
    | .error refusal => (.error refusal.1, some l)
    | .ok () => (.ok auth, some l)

/-- The handler of a request that got through. -/
def handle (s : Service) (keys : ApiKeySet) (header : Option (List UInt8)) : Asked → Option Service
  | .single durable idempotencyKey event =>
    some (s.ingestSingle keys header durable idempotencyKey event)
  | .batch durableHeader events => some (s.ingestBatch keys header durableHeader events)
  | .other => none

/-- A request comes in. -/
def receive (g : Gateway) (header : Option (List UInt8)) (now : ℚ) (asked : Asked) : Gateway :=
  match g.letThrough hash header now with
  | (.error _, limiter) => { g with limiter := limiter }
  | (.ok auth, limiter) =>
    match handle g.service g.keys header asked with
    | none => { g with limiter := limiter }
    | some service =>
      { g with
        service := service
        limiter := limiter
        passed := g.passed ++ [⟨auth, now, asked.payloads⟩] }

inductive Input where
  | request (header : Option (List UInt8)) (now : ℚ) (asked : Asked)
  /-- a SIGHUP -/
  | reload (disk : Disk)
  /-- one of the tasks behind the handlers -/
  | inner (x : Service.Input)

/-- The steps of the service that no request makes by coming in. -/
def behind : Service.Input → Bool
  | .ingestSingle _ _ _ _ _ | .ingestBatch _ _ _ _ => false
  | _ => true

def step (g : Gateway) : Input → Gateway
  | .request header now asked => g.receive hash header now asked
  | .reload disk => { g with keys := sighupReload digest extract g.keys disk }
  | .inner x => if behind x then { g with service := g.service.step x } else g

end Step

end Gateway

/-- The request is of this key and passed in this window. -/
def Pass.within (key : String) (s t : ℚ) (p : Pass) : Bool :=
  (p.auth.map AuthenticatedKey.keyId == some key) && (decide (s ≤ p.now) && decide (p.now ≤ t))

/-! ## 2. The limiter over the run -/

namespace RateLimiter

variable {hash : String → UInt64}

end RateLimiter

namespace Gateway

section Step

variable {hash : String → UInt64} {digest : ByteArray → Sha256}
  {extract : String → Except String ServerConfig} {g : Gateway} {x : Input}

end Step

end Gateway

namespace Service

variable {s : Service} {x : Input}

/-- The calls a request has made carry some of its payloads, and the others are still pending. -/
def Carries (s : Service) (r : Request) (payloads : Nat) : Prop :=
  ∃ handed, s.LiveAtMost r.calls handed ∧ handed + r.pending.length ≤ payloads

/-- A call carries at most its events. -/
theorem liveAtMost_call (h : s.Inv) {call : Nat} {c : Call} (hc : s.writer.calls[call]? = some c) :
    s.LiveAtMost [call] c.events.length := by
  intro ts hnodup hts
  have hcall : ∀ t ∈ ts, t.call = call := fun t ht => List.mem_singleton.mp (hts t ht).1
  have hslots := nodup_slots hnodup hcall
  have hsub : ts.map Token.slot ⊆ List.range c.events.length := by
    intro k hk
    obtain ⟨t, ht, rfl⟩ := List.mem_map.mp hk
    rw [List.mem_range]
    exact h.slot_lt (hts t ht).2 (by rw [hcall t ht, hc])
  have hlength := (hslots.subperm hsub).length_le
  rwa [List.length_map, List.length_range] at hlength

theorem Carries.step {r : Request} {payloads : Nat} (h : s.Carries r payloads)
    (hcalls : ∀ j ∈ r.calls, j < s.writer.calls.length) : (s.step x).Carries r payloads := by
  obtain ⟨handed, hlive, hle⟩ := h
  exact ⟨handed, hlive.step hcalls, hle⟩

/-- A move hands payloads over to a call, or drops them. -/
theorem Carries.move {n : Nat} {r r' : Request} {payloads : Nat} (h : s.Carries r payloads)
    (hfair : s.Fair) (hn : s.requests[n]? = some r) (hn' : (s.step x).requests[n]? = some r')
    (hmove : Move s r r') : (s.step x).Carries r' payloads := by
  obtain ⟨handed, hlive, hle⟩ := h.step (x := x) (hfair.honest.tidy.calls n r hn)
  -- without a new call, all that counts is that no payload came back
  have hkeep : ∀ {q : Request}, q.calls = r.calls → q.pending.length ≤ r.pending.length →
      (s.step x).Carries q payloads := by
    intro q hcalls hpending
    refine ⟨handed, ?_, (Nat.add_le_add_left hpending handed).trans hle⟩
    rw [hcalls]
    exact hlive
  cases hmove with
  | stay => exact hkeep rfl le_rfl
  | missed hstage => exact hkeep rfl le_rfl
  | replayed hstage response => exact hkeep rfl (Nat.zero_le _)
  | finished hstage hpath hpending => exact hkeep rfl le_rfl
  | aborted hstage => exact hkeep rfl le_rfl
  | full hstage hpath message => exact hkeep rfl (Nat.zero_le _)
  | refused hstage hpath event pending hpending e =>
    refine hkeep rfl ?_
    simp [hpending]
  | collected call made c results hstage hc hresults => exact hkeep rfl le_rfl
  | called hstage made pending hlength hsingle hbatch =>
    have hfair' := fair_step s x hfair
    -- the call is for the events that were made of the payloads
    have hasked := (hfair'.honest.waits n _ s.writer.calls.length made hn' rfl).asked
    rw [List.getElem?_map] at hasked
    obtain ⟨c, hc, hevents⟩ := Option.map_eq_some_iff.mp hasked
    have hcarried : c.events.length ≤ made.length := by
      have hsame : c.events = llmEvents made := (Prod.mk.inj hevents).2
      rw [hsame]
      exact List.length_filterMap_le _ _
    have hcall := (liveAtMost_call hfair'.honest.tidy.inv hc).mono hcarried
    refine ⟨handed + made.length, hlive.append hcall, ?_⟩
    show handed + made.length + pending.length ≤ payloads
    rwa [Nat.add_assoc, hlength]

end Service

namespace Gateway

variable {hash : String → UInt64} {digest : ByteArray → Sha256}
  {extract : String → Except String ServerConfig} {g : Gateway}

/-- Every request of the service passed the layers as the one it is, and carries the payloads it
brought. -/
structure Metered (g : Gateway) : Prop where
  fair : g.service.Fair
  length : g.passed.length = g.service.requests.length
  carries : ∀ (n : Nat) (r : Request) (p : Pass), g.service.requests[n]? = some r →
    g.passed[n]? = some p →
    r.auth = p.auth ∧ p.payloads ≤ Service.MAX_BATCH_SIZE ∧ g.service.Carries r p.payloads

theorem Metered.of_refused (h : g.Metered) {g' : Gateway} (hservice : g'.service = g.service)
    (hpassed : g'.passed = g.passed) : g'.Metered := by
  refine ⟨?_, ?_, ?_⟩
  · rw [hservice]
    exact h.fair
  · rw [hservice, hpassed]
    exact h.length
  · rw [hservice, hpassed]
    exact h.carries

end Gateway

/-! ## 4. The result -/

end Keplor.Server
