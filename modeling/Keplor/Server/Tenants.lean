import Keplor.Server.Attribution

/-!
# Requests of different API keys, one after the other

The idempotency cache is shared by all clients and its keys are the strings they send. Here durable
requests come one at a time and every flush succeeds, so a request is a function of the cache, and
the question is what a tenant's requests can notice of the others'.

A request that hits is not stored and returns what is cached, whoever put it there. `Foreign` is a
hit on a response that was cached for another API key. It is the only way tenants meet.
-/

set_option autoImplicit false

namespace Keplor.Server

open Keplor.Core Keplor.Lib Keplor.Store

/-- A durable request of an authenticated client, with what its processing finds and the two instants
at which the cache reads the clock. -/
structure DurableRequest where
  key : AuthenticatedKey
  idempotencyKey : Option String
  event : IngestEvent
  visit : Visit
  lookupAt : Nat
  insertAt : Nat

/-- What becomes of a request. There is no response when the handler aborts. -/
structure Outcome where
  stored : Bool
  response : Option (Except ServerError IngestResponse)
  deriving DecidableEq

/-- `Pipeline::ingest` after a miss, when the flush succeeds: the outcome, and the response to
remember. -/
def ingestAfterMiss (settings : Settings) (q : DurableRequest) : Outcome × Option IngestResponse :=
  match (prepare settings q.visit q.event (some q.key.keyId) q.key.tier).run with
  | none => (⟨false, none⟩, none)
  | some (.error e) => (⟨false, some (.error e)⟩, none)
  | some (.ok made) =>
    let response := respond settings made.1.id made
    (⟨true, some (.ok response)⟩, some response)

/-- The last lines of `Pipeline::ingest`. -/
def rememberUnder (cache : IdempotencyCache) (key : String) (response : Option IngestResponse)
    (now : Nat) : IdempotencyCache :=
  match response with
  | some response => cache.insert key response now
  | none => cache

/-- `Pipeline::ingest` -/
def ingest (settings : Settings) (cache : IdempotencyCache) (q : DurableRequest) :
    Outcome × IdempotencyCache :=
  match q.idempotencyKey with
  | none => ((ingestAfterMiss settings q).1, cache)
  | some key =>
    match cache.get key q.lookupAt with
    | (some cached, cache) => (⟨false, some (.ok cached)⟩, cache)
    | (none, cache) =>
      let (outcome, response) := ingestAfterMiss settings q
      (outcome, rememberUnder cache key response q.insertAt)

/-- The cache, and which API key the last insertion under each idempotency key was for. -/
structure Tracked where
  cache : IdempotencyCache
  owner : String → Option String

/-- The key under which the request inserts a response. -/
def insertsUnder (settings : Settings) (cache : IdempotencyCache) (q : DurableRequest) :
    Option String :=
  q.idempotencyKey.filter fun key =>
    (cache.get key q.lookupAt).1.isNone && (ingestAfterMiss settings q).2.isSome

/-- A request, with the owner noted. -/
def track (settings : Settings) (t : Tracked) (q : DurableRequest) : Tracked where
  cache := (ingest settings t.cache q).2
  owner := fun key =>
    if insertsUnder settings t.cache q = some key then some q.key.keyId else t.owner key

theorem cache_track (settings : Settings) (t : Tracked) (q : DurableRequest) :
    (track settings t q).cache = (ingest settings t.cache q).2 := rfl

theorem owner_track (settings : Settings) (t : Tracked) (q : DurableRequest) (key : String) :
    (track settings t q).owner key =
      if insertsUnder settings t.cache q = some key then some q.key.keyId else t.owner key := rfl

/-- The outcomes of requests that come one after the other, each with the API key it is for. -/
def outcomes (settings : Settings) : IdempotencyCache → List DurableRequest → List (String × Outcome)
  | _, [] => []
  | cache, q :: qs =>
    (q.key.keyId, (ingest settings cache q).1) :: outcomes settings (ingest settings cache q).2 qs

/-- The request finds a response that was cached for another API key. -/
def Foreign (t : Tracked) (q : DurableRequest) : Prop :=
  ∃ key, q.idempotencyKey = some key ∧ (t.cache.get key q.lookupAt).1.isSome ∧
    t.owner key ≠ some q.key.keyId

section OneRequest

variable {settings : Settings} {cache : IdempotencyCache} {q : DurableRequest} {key : String}

theorem ingest_of_none (h : q.idempotencyKey = none) :
    ingest settings cache q = ((ingestAfterMiss settings q).1, cache) := by
  unfold ingest
  rw [h]

/-- With a key the request goes by what the lookup found, and on with the cache the lookup left. -/
theorem ingest_of_key (h : q.idempotencyKey = some key) :
    ingest settings cache q =
      match (cache.get key q.lookupAt).1 with
      | some cached => (⟨false, some (.ok cached)⟩, (cache.get key q.lookupAt).2)
      | none => ((ingestAfterMiss settings q).1,
          rememberUnder (cache.get key q.lookupAt).2 key (ingestAfterMiss settings q).2 q.insertAt) := by
  unfold ingest
  rw [h]
  dsimp only
  rcases cache.get key q.lookupAt with ⟨found, cache'⟩
  cases found with
  | some cached => rfl
  | none => rfl

theorem ingest_of_hit {cached : IngestResponse} (h : q.idempotencyKey = some key)
    (hget : (cache.get key q.lookupAt).1 = some cached) :
    ingest settings cache q = (⟨false, some (.ok cached)⟩, (cache.get key q.lookupAt).2) := by
  rw [ingest_of_key h, hget]

theorem ingest_of_miss (h : q.idempotencyKey = some key)
    (hget : (cache.get key q.lookupAt).1 = none) :
    ingest settings cache q = ((ingestAfterMiss settings q).1,
      rememberUnder (cache.get key q.lookupAt).2 key (ingestAfterMiss settings q).2 q.insertAt) := by
  rw [ingest_of_key h, hget]

theorem insertsUnder_eq_some {j : String} (h : insertsUnder settings cache q = some j) :
    q.idempotencyKey = some j ∧ (cache.get j q.lookupAt).1 = none ∧
      ∃ response, (ingestAfterMiss settings q).2 = some response := by
  obtain ⟨hkey, hinserts⟩ := Option.filter_eq_some_iff.mp h
  simp only [Bool.and_eq_true, Option.isNone_iff_eq_none, Option.isSome_iff_exists] at hinserts
  exact ⟨hkey, hinserts⟩

/-- A response that a lookup would return is not replaced. -/
theorem insertsUnder_ne_of_live {j : String} {e : CachedEntry} (he : cache.entry j = some e)
    (hlive : q.lookupAt < e.expiresAt) : insertsUnder settings cache q ≠ some j := by
  intro h
  have hget := (insertsUnder_eq_some h).2.1
  rw [IdempotencyCache.get_fst, he] at hget
  simp [Option.filter, hlive] at hget

theorem ttl_get (cache : IdempotencyCache) (key : String) (now : Nat) :
    (cache.get key now).2.ttl = cache.ttl := by
  unfold IdempotencyCache.get
  rcases (cache.shard key).get key with ⟨found, lru⟩
  cases found with
  | none => rfl
  | some e =>
    dsimp only
    split <;> rfl

theorem ttl_ingest : (ingest settings cache q).2.ttl = cache.ttl := by
  cases h : q.idempotencyKey with
  | none => rw [ingest_of_none h]
  | some key =>
    cases hget : (cache.get key q.lookupAt).1 with
    | some cached =>
      rw [ingest_of_hit h hget]
      exact ttl_get cache key _
    | none =>
      rw [ingest_of_miss h hget]
      unfold rememberUnder
      split
      · exact ttl_get cache key _
      · exact ttl_get cache key _

theorem entry_ingest_inserted {j : String} {response : IngestResponse}
    (h : insertsUnder settings cache q = some j)
    (hresponse : (ingestAfterMiss settings q).2 = some response) :
    (ingest settings cache q).2.entry j = some ⟨response, q.insertAt + cache.ttl⟩ := by
  obtain ⟨hkey, hget, -⟩ := insertsUnder_eq_some h
  rw [ingest_of_miss hkey hget, hresponse, ← ttl_get cache j q.lookupAt]
  exact IdempotencyCache.entry_insert_self _ _ _ _

theorem entry_of_get {j k : String} {now : Nat} {e : CachedEntry}
    (h : (cache.get k now).2.entry j = some e) : cache.entry j = some e := by
  rw [IdempotencyCache.entry_get] at h
  split at h
  · rename_i hjk
    rw [hjk]
    exact (Option.filter_eq_some_iff.mp h).1
  · exact h

theorem entry_get_live {j k : String} {now : Nat} {e : CachedEntry} (he : cache.entry j = some e)
    (hlive : now < e.expiresAt) : (cache.get k now).2.entry j = some e := by
  rw [IdempotencyCache.entry_get]
  split
  · rename_i hjk
    rw [← hjk, he]
    simp [Option.filter, hlive]
  · exact he

/-- What is cached after a request that did not insert here was cached before it. -/
theorem entry_of_ingest {j : String} {e : CachedEntry}
    (hno : insertsUnder settings cache q ≠ some j)
    (h : (ingest settings cache q).2.entry j = some e) : cache.entry j = some e := by
  cases hkey : q.idempotencyKey with
  | none => rwa [ingest_of_none hkey] at h
  | some key =>
    cases hget : (cache.get key q.lookupAt).1 with
    | some cached =>
      rw [ingest_of_hit hkey hget] at h
      exact entry_of_get h
    | none =>
      rw [ingest_of_miss hkey hget] at h
      unfold rememberUnder at h
      split at h
      · rename_i response hresponse
        have hne : j ≠ key := by
          rintro rfl
          apply hno
          simp [insertsUnder, hkey, hget, hresponse, Option.filter]
        exact entry_of_get (IdempotencyCache.entry_insert_of_ne hne h)
      · exact entry_of_get h

/-- What lives when a request is looked up is cached after it, if there is room. -/
theorem entry_ingest_live {j : String} {e : CachedEntry}
    (hroom : ∀ key, q.idempotencyKey = some key → (cache.get key q.lookupAt).2.HasRoom key)
    (he : cache.entry j = some e) (hlive : q.lookupAt < e.expiresAt) :
    (ingest settings cache q).2.entry j = some e := by
  cases hkey : q.idempotencyKey with
  | none => rwa [ingest_of_none hkey]
  | some key =>
    have hafter : (cache.get key q.lookupAt).2.entry j = some e := entry_get_live he hlive
    cases hget : (cache.get key q.lookupAt).1 with
    | some cached =>
      rw [ingest_of_hit hkey hget]
      exact hafter
    | none =>
      rw [ingest_of_miss hkey hget]
      unfold rememberUnder
      split
      · have hne : j ≠ key := by
          rintro rfl
          rw [IdempotencyCache.get_fst, he] at hget
          simp [Option.filter, hlive] at hget
        dsimp only
        rw [(hroom key hkey).entry_insert _ _ hne]
        exact hafter
      · exact hafter

end OneRequest

/-! ## Two runs -/

/-- The cache of the run with all tenants and the one of the run with a single one agree on what is
that tenant's and has not expired. -/
structure Agree (keyId : String) (now : Nat) (t : Tracked) (own : IdempotencyCache) : Prop where
  ttl : own.ttl = t.cache.ttl
  mine : ∀ key e, own.entry key = some e → now < e.expiresAt →
    t.cache.entry key = some e ∧ t.owner key = some keyId
  theirs : ∀ key e, t.cache.entry key = some e → t.owner key = some keyId → now < e.expiresAt →
    own.entry key = some e

section TwoRuns

variable {settings : Settings} {keyId : String} {now : Nat} {t : Tracked} {own : IdempotencyCache}
  {q : DurableRequest}

/-- A request of another tenant goes by. -/
theorem Agree.other (h : Agree keyId now t own) (hkey : q.key.keyId ≠ keyId)
    (hnow : now ≤ q.lookupAt) (hclock : q.lookupAt ≤ q.insertAt)
    (hroom : ∀ key, q.idempotencyKey = some key → (t.cache.get key q.lookupAt).2.HasRoom key) :
    Agree keyId q.insertAt (track settings t q) own := by
  refine ⟨h.ttl.trans ttl_ingest.symm, fun key e he hlive => ?_, fun key e he howner hlive => ?_⟩
  · obtain ⟨hentry, howner⟩ := h.mine key e he (by omega)
    have hno : insertsUnder settings t.cache q ≠ some key :=
      insertsUnder_ne_of_live hentry (by omega)
    refine ⟨entry_ingest_live hroom hentry (by omega), ?_⟩
    rw [owner_track, if_neg hno]
    exact howner
  · have hno : insertsUnder settings t.cache q ≠ some key := by
      intro hinserts
      rw [owner_track, if_pos hinserts] at howner
      exact hkey (Option.some.inj howner)
    rw [owner_track, if_neg hno] at howner
    exact h.theirs key e (entry_of_ingest hno he) howner (by omega)

/-- Without a foreign hit, a request of the tenant finds the same in both runs. -/
theorem Agree.get_eq (h : Agree keyId now t own) (hkey : q.key.keyId = keyId)
    (hnow : now ≤ q.lookupAt) (hforeign : ¬ Foreign t q) {key : String}
    (hidem : q.idempotencyKey = some key) :
    (own.get key q.lookupAt).1 = (t.cache.get key q.lookupAt).1 := by
  cases hget : (t.cache.get key q.lookupAt).1 with
  | some cached =>
    have howner : t.owner key = some keyId := by
      by_contra hne
      exact hforeign ⟨key, hidem, by rw [hget]; rfl, by rw [hkey]; exact hne⟩
    rw [IdempotencyCache.get_fst] at hget
    obtain ⟨e, he, hresponse⟩ := Option.map_eq_some_iff.mp hget
    obtain ⟨hentry, hlive⟩ := Option.filter_eq_some_iff.mp he
    have hlive : q.lookupAt < e.expiresAt := by simpa using hlive
    rw [IdempotencyCache.get_fst, h.theirs key e hentry howner (by omega)]
    simp [Option.filter, hlive, hresponse]
  | none =>
    cases hown : (own.get key q.lookupAt).1 with
    | none => rfl
    | some cached =>
      rw [IdempotencyCache.get_fst] at hown
      obtain ⟨e, he, -⟩ := Option.map_eq_some_iff.mp hown
      obtain ⟨hentry, hlive⟩ := Option.filter_eq_some_iff.mp he
      have hlive : q.lookupAt < e.expiresAt := by simpa using hlive
      rw [IdempotencyCache.get_fst, (h.mine key e hentry (by omega)).1] at hget
      simp [Option.filter, hlive] at hget

theorem Agree.outcome_eq (h : Agree keyId now t own) (hkey : q.key.keyId = keyId)
    (hnow : now ≤ q.lookupAt) (hforeign : ¬ Foreign t q) :
    (ingest settings own q).1 = (ingest settings t.cache q).1 ∧
      insertsUnder settings own q = insertsUnder settings t.cache q := by
  cases hidem : q.idempotencyKey with
  | none =>
    rw [ingest_of_none hidem, ingest_of_none hidem]
    exact ⟨rfl, by simp [insertsUnder, hidem]⟩
  | some key =>
    have hget := h.get_eq hkey hnow hforeign hidem
    refine ⟨?_, by simp [insertsUnder, hidem, hget, Option.filter]⟩
    cases hfound : (t.cache.get key q.lookupAt).1 with
    | some cached =>
      rw [ingest_of_hit hidem hfound, ingest_of_hit hidem (hget.trans hfound)]
    | none => rw [ingest_of_miss hidem hfound, ingest_of_miss hidem (hget.trans hfound)]

/-- A request of the tenant, served in both runs. -/
theorem Agree.same (h : Agree keyId now t own) (hkey : q.key.keyId = keyId)
    (hnow : now ≤ q.lookupAt) (hclock : q.lookupAt ≤ q.insertAt) (hforeign : ¬ Foreign t q)
    (hroom : ∀ key, q.idempotencyKey = some key → (t.cache.get key q.lookupAt).2.HasRoom key)
    (hroom' : ∀ key, q.idempotencyKey = some key → (own.get key q.lookupAt).2.HasRoom key) :
    Agree keyId q.insertAt (track settings t q) (ingest settings own q).2 := by
  have hinserts : insertsUnder settings own q = insertsUnder settings t.cache q :=
    (h.outcome_eq hkey hnow hforeign).2
  refine ⟨ttl_ingest.trans (h.ttl.trans ttl_ingest.symm), fun key e he hlive => ?_,
    fun key e he howner hlive => ?_⟩
  · by_cases hi : insertsUnder settings own q = some key
    · -- the same response goes into both caches
      obtain ⟨-, -, response, hresponse⟩ := insertsUnder_eq_some hi
      rw [entry_ingest_inserted hi hresponse, h.ttl] at he
      refine ⟨(entry_ingest_inserted (hinserts ▸ hi) hresponse).trans he, ?_⟩
      rw [owner_track, if_pos (hinserts ▸ hi), hkey]
    · obtain ⟨hentry, howner⟩ := h.mine key e (entry_of_ingest hi he) (by omega)
      refine ⟨entry_ingest_live hroom hentry (by omega), ?_⟩
      rw [owner_track, if_neg (hinserts ▸ hi)]
      exact howner
  · by_cases hi : insertsUnder settings t.cache q = some key
    · obtain ⟨-, -, response, hresponse⟩ := insertsUnder_eq_some hi
      rw [cache_track, entry_ingest_inserted hi hresponse, ← h.ttl] at he
      exact (entry_ingest_inserted (hinserts ▸ hi) hresponse).trans he
    · rw [owner_track, if_neg hi] at howner
      have hentry := h.theirs key e (entry_of_ingest hi he) howner (by omega)
      exact entry_ingest_live hroom' hentry (by omega)

end TwoRuns

end Keplor.Server
