import Keplor.Lib.Lru
import Keplor.Server.Schema

/-!
# `keplor-server/src/idempotency.rs` — responses to repeated requests

Sixteen caches, and a hash that says which of them a key belongs to. Instants are nanoseconds of a
monotonic clock. An entry found too old is removed by the lookup that finds it.

The standard library does not specify its default hash, so it is a parameter: nothing depends on it
but which keys compete for room.
-/

set_option autoImplicit false

namespace Keplor.Server

open Keplor.Lib

/-- `NUM_SHARDS` -/
def NUM_SHARDS : Nat := 16

/-- `CachedEntry` -/
structure CachedEntry where
  response : IngestResponse
  expiresAt : Nat
  deriving DecidableEq

/-- `IdempotencyCache` -/
structure IdempotencyCache where
  hash : String → UInt64
  shards : Fin NUM_SHARDS → Lru String CachedEntry
  ttl : Nat

namespace IdempotencyCache

/-- `IdempotencyCache::new` -/
def new (hash : String → UInt64) (maxEntries ttl : Nat) : IdempotencyCache where
  hash := hash
  shards := fun _ => Lru.new (max (maxEntries / NUM_SHARDS) 1) (Nat.le_max_right _ 1)
  ttl := ttl

/-- `shard_index` -/
def shardIndex (cache : IdempotencyCache) (key : String) : Fin NUM_SHARDS :=
  ⟨(cache.hash key).toNat % NUM_SHARDS, Nat.mod_lt _ (by decide)⟩

def shard (cache : IdempotencyCache) (key : String) : Lru String CachedEntry :=
  cache.shards (cache.shardIndex key)

/-- The caches with the one of a key replaced. -/
def setShard (cache : IdempotencyCache) (key : String) (lru : Lru String CachedEntry) :
    IdempotencyCache :=
  { cache with shards := fun i => if i = cache.shardIndex key then lru else cache.shards i }

/-- `IdempotencyCache::get` at an instant. -/
def get (cache : IdempotencyCache) (key : String) (now : Nat) :
    Option IngestResponse × IdempotencyCache :=
  match (cache.shard key).get key with
  | (none, lru) => (none, cache.setShard key lru)
  | (some entry, lru) =>
    if now < entry.expiresAt then (some entry.response, cache.setShard key lru)
    else (none, cache.setShard key (lru.pop key))

/-- `IdempotencyCache::insert` at an instant. -/
def insert (cache : IdempotencyCache) (key : String) (response : IngestResponse) (now : Nat) :
    IdempotencyCache :=
  cache.setShard key ((cache.shard key).put key ⟨response, now + cache.ttl⟩)

/-! ## What is cached under a key -/

def entry (cache : IdempotencyCache) (key : String) : Option CachedEntry := (cache.shard key).peek key

/-- An insertion under this key evicts nothing. -/
def HasRoom (cache : IdempotencyCache) (key : String) : Prop := (cache.shard key).HasRoom key

variable {cache : IdempotencyCache} {key other : String} {now : Nat}

theorem shard_setShard (cache : IdempotencyCache) (key other : String) (lru : Lru String CachedEntry) :
    (cache.setShard key lru).shard other =
      if cache.shardIndex other = cache.shardIndex key then lru else cache.shard other := rfl

theorem entry_setShard (cache : IdempotencyCache) (key other : String) (lru : Lru String CachedEntry) :
    (cache.setShard key lru).entry other =
      if cache.shardIndex other = cache.shardIndex key then lru.peek other else cache.entry other := by
  unfold entry
  rw [shard_setShard]
  split
  · rfl
  · rfl

/-- A lookup answers with the entry of the key, as long as it lives. -/
theorem get_fst (cache : IdempotencyCache) (key : String) (now : Nat) :
    (cache.get key now).1 =
      ((cache.entry key).filter fun e => now < e.expiresAt).map CachedEntry.response := by
  have hget := (cache.shard key).get_fst key
  unfold get entry
  rw [← hget]
  rcases (cache.shard key).get key with ⟨found, lru⟩
  cases found with
  | none => rfl
  | some e =>
    by_cases hlive : now < e.expiresAt
    · simp [hlive, Option.filter]
    · simp [hlive, Option.filter]

/-- A lookup that answers has used the entry, and one that does not leaves none. -/
theorem get_snd (cache : IdempotencyCache) (key : String) (now : Nat) :
    (cache.get key now).2 = cache.setShard key
      (if (cache.get key now).1.isSome then ((cache.shard key).get key).2
        else (cache.shard key).pop key) := by
  have hfst := (cache.shard key).get_fst key
  have hpop := (cache.shard key).pop_get key
  unfold get
  rcases hg : (cache.shard key).get key with ⟨found, lru⟩
  rw [hg] at hfst hpop
  cases found with
  | none =>
    have hsame : lru = cache.shard key := by
      have hsnd := Lru.get_snd_of_peek_none hfst.symm
      rwa [hg] at hsnd
    simp [hsame, Lru.pop_of_peek_none hfst.symm]
  | some e =>
    by_cases hlive : now < e.expiresAt
    · simp [hlive]
    · simpa [hlive] using congrArg (cache.setShard key) hpop

/-- A lookup removes the entry of its key when that is too old, and nothing else. -/
theorem entry_get (cache : IdempotencyCache) (key other : String) (now : Nat) :
    (cache.get key now).2.entry other =
      if other = key then (cache.entry key).filter fun e => now < e.expiresAt
      else cache.entry other := by
  have hfst := cache.get_fst key now
  rw [get_snd, entry_setShard]
  by_cases hkey : other = key
  · subst hkey
    rw [if_pos rfl, if_pos rfl, hfst, Option.isSome_map]
    cases hlive : (cache.entry other).filter fun e => now < e.expiresAt with
    | none => simp
    | some e =>
      have hentry : (cache.shard other).peek other = some e := (Option.filter_eq_some_iff.mp hlive).1
      simpa using hentry
  · rw [if_neg hkey]
    split
    · rename_i hshard
      have hentry : (cache.shard key).peek other = cache.entry other := by
        rw [entry, shard, shard, hshard]
      split
      · rw [Lru.peek_get, hentry]
      · rw [Lru.peek_pop, if_neg hkey, hentry]
    · rfl

@[simp] theorem entry_new (hash : String → UInt64) (maxEntries ttl : Nat) (key : String) :
    (new hash maxEntries ttl).entry key = none := rfl

theorem entry_insert_self (cache : IdempotencyCache) (key : String) (response : IngestResponse)
    (now : Nat) : (cache.insert key response now).entry key = some ⟨response, now + cache.ttl⟩ := by
  unfold insert
  rw [entry_setShard, if_pos rfl]
  exact Lru.peek_put_self _ _ _

/-- Under another key nothing appears by an insertion; without room, something may disappear. -/
theorem entry_insert_of_ne {response : IngestResponse} {e : CachedEntry} (hne : other ≠ key)
    (h : (cache.insert key response now).entry other = some e) : cache.entry other = some e := by
  unfold insert at h
  rw [entry_setShard] at h
  split at h
  · rename_i hshard
    rcases Lru.peek_put_cases h with ⟨heq, -⟩ | ⟨-, h⟩
    · exact absurd heq hne
    · rwa [entry, shard, hshard]
  · exact h

theorem HasRoom.entry_insert (h : cache.HasRoom key) (response : IngestResponse) (now : Nat)
    (hne : other ≠ key) : (cache.insert key response now).entry other = cache.entry other := by
  unfold insert
  rw [entry_setShard]
  split
  · rename_i hshard
    rw [Lru.HasRoom.peek_put h, if_neg hne, entry, shard, shard, hshard]
  · rfl

end IdempotencyCache

end Keplor.Server
