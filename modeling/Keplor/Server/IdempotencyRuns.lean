import Keplor.Lib.Run
import Keplor.Server.Idempotency

/-!
# The idempotency cache over whole histories

The cache is asked call after call, and each call is noted with whether it used the entry of its key:
an insertion always does, a lookup when it answers. From these notes alone one can say what a lookup
must answer (`latestInsert`, `othersSince`) without a word about shards' order or eviction.

`Faithful` connects the notes to the cache. Its two halves are the two ways to be wrong: an entry that
is not the latest insertion (`entry_latest`), and a latest insertion that is gone too early (`kept`).
-/

set_option autoImplicit false

namespace Keplor.Server

open Keplor.Lib

/-- A call of the cache at an instant. -/
inductive CacheCall where
  | get (key : String) (now : Nat)
  | insert (key : String) (response : IngestResponse) (now : Nat)

namespace CacheCall

def key : CacheCall → String
  | get key _ => key
  | insert key _ _ => key

def now : CacheCall → Nat
  | get _ now => now
  | insert _ _ now => now

/-- What the call inserts under a key, and when. -/
def inserted (key : String) : CacheCall → Option (IngestResponse × Nat)
  | get _ _ => none
  | insert k response now => if k = key then some (response, now) else none

end CacheCall

/-- The last insertion under a key among calls in their order. -/
def latestInsert (key : String) (calls : List CacheCall) : Option (IngestResponse × Nat) :=
  calls.reverse.findSome? (CacheCall.inserted key)

/-- A call and whether it used the entry of its key. -/
structure Noted where
  call : CacheCall
  used : Bool

/-- A cache with the calls made to it, the last one first. -/
structure Watched where
  cache : IdempotencyCache
  notes : List Noted

namespace Watched

def new (hash : String → UInt64) (maxEntries ttl : Nat) : Watched :=
  ⟨IdempotencyCache.new hash maxEntries ttl, []⟩

def step (s : Watched) : CacheCall → Watched
  | .get key now =>
    ⟨(s.cache.get key now).2, ⟨.get key now, (s.cache.get key now).1.isSome⟩ :: s.notes⟩
  | .insert key response now =>
    ⟨s.cache.insert key response now, ⟨.insert key response now, true⟩ :: s.notes⟩

/-- The call used the entry of this key. -/
def uses (key : String) (n : Noted) : Bool := n.used && n.call.key == key

/-- The call used the entry of a key of the same shard. -/
def competes (cache : IdempotencyCache) (key : String) (n : Noted) : Bool :=
  n.used && cache.shardIndex n.call.key == cache.shardIndex key

/-- The keys of the shard that were inserted or found since this one last was. -/
def othersSince (s : Watched) (key : String) : Finset String :=
  (((s.notes.takeWhile fun n => !uses key n).filter (competes s.cache key)).map
    fun n => n.call.key).toFinset

/-- The last insertion under a key among the noted calls. -/
def latest (s : Watched) (key : String) : Option (IngestResponse × Nat) :=
  s.notes.findSome? fun n => n.call.inserted key

variable {s : Watched} {hash : String → UInt64} {maxEntries ttl : Nat} {key other : String}

theorem notes_step (s : Watched) (c : CacheCall) : ∃ used, (s.step c).notes = ⟨c, used⟩ :: s.notes := by
  cases c with
  | get key now => exact ⟨_, rfl⟩
  | insert key response now => exact ⟨_, rfl⟩

/-- The notes have every call, in the opposite order. -/
theorem notes_run (s : Watched) (calls : List CacheCall) :
    (run step s calls).notes.map Noted.call = calls.reverse ++ s.notes.map Noted.call := by
  induction calls generalizing s with
  | nil => rfl
  | cons c calls ih =>
    obtain ⟨used, hnotes⟩ := s.notes_step c
    rw [run_cons, ih, hnotes, List.reverse_cons, List.append_assoc]
    rfl

theorem notes_run_new (hash : String → UInt64) (maxEntries ttl : Nat) (calls : List CacheCall) :
    (run step (new hash maxEntries ttl) calls).notes.map Noted.call = calls.reverse :=
  (notes_run (new hash maxEntries ttl) calls).trans (List.append_nil _)

theorem latest_run_new (calls : List CacheCall) :
    (run step (new hash maxEntries ttl) calls).latest key = latestInsert key calls := by
  unfold latest latestInsert
  rw [← notes_run_new hash maxEntries ttl, List.findSome?_map]
  rfl

/-- How a call changes the keys since: the key's own use starts afresh, another key's use adds it. -/
theorem othersSince_cons (s s' : Watched) (n : Noted) (hhash : s'.cache.hash = s.cache.hash)
    (hnotes : s'.notes = n :: s.notes) (key : String) :
    s'.othersSince key =
      if uses key n then ∅
      else if competes s.cache key n then insert n.call.key (s.othersSince key)
      else s.othersSince key := by
  have hcomp : competes s'.cache key = competes s.cache key := by
    funext n
    simp [competes, IdempotencyCache.shardIndex, hhash]
  unfold othersSince
  rw [hcomp, hnotes, List.takeWhile_cons]
  cases huse : uses key n with
  | true => simp
  | false =>
    by_cases hshard : competes s.cache key n
    · simp [hshard]
    · simp [hshard]

theorem othersSince_insert (s : Watched) (key : String) (response : IngestResponse) (now : Nat)
    (other : String) :
    (s.step (.insert key response now)).othersSince other =
      if key = other then ∅
      else if s.cache.shardIndex key = s.cache.shardIndex other then insert key (s.othersSince other)
      else s.othersSince other := by
  have hcons := othersSince_cons s (s.step (.insert key response now))
    ⟨.insert key response now, true⟩ rfl rfl other
  simpa [uses, competes, CacheCall.key] using hcons

theorem othersSince_get (s : Watched) (key : String) (now : Nat) (other : String) :
    (s.step (.get key now)).othersSince other =
      if (s.cache.get key now).1.isSome then
        if key = other then ∅
        else if s.cache.shardIndex key = s.cache.shardIndex other then
          insert key (s.othersSince other)
        else s.othersSince other
      else s.othersSince other := by
  have hhash : (s.step (.get key now)).cache.hash = s.cache.hash := by
    rw [step, IdempotencyCache.get_snd]
    rfl
  rw [othersSince_cons s _ ⟨.get key now, (s.cache.get key now).1.isSome⟩ hhash rfl]
  cases (s.cache.get key now).1.isSome with
  | true => simp [uses, competes, CacheCall.key]
  | false => simp [uses, competes]

theorem latest_get (s : Watched) (key : String) (now : Nat) (other : String) :
    (s.step (.get key now)).latest other = s.latest other := rfl

theorem latest_insert (s : Watched) (key : String) (response : IngestResponse) (now : Nat)
    (other : String) :
    (s.step (.insert key response now)).latest other =
      if key = other then some (response, now) else s.latest other := by
  show List.findSome? _ (_ :: s.notes) = _
  rw [List.findSome?_cons, CacheCall.inserted]
  by_cases hkey : key = other
  · rw [if_pos hkey, if_pos hkey]
  · rw [if_neg hkey, if_neg hkey]
    rfl

theorem shard_step_insert (s : Watched) (key : String) (response : IngestResponse) (now : Nat)
    (other : String) :
    (s.step (.insert key response now)).cache.shard other =
      if s.cache.shardIndex other = s.cache.shardIndex key then
        (s.cache.shard key).put key ⟨response, now + s.cache.ttl⟩
      else s.cache.shard other := rfl

theorem shard_step_get (s : Watched) (key : String) (now : Nat) (other : String) :
    (s.step (.get key now)).cache.shard other =
      if s.cache.shardIndex other = s.cache.shardIndex key then
        if (s.cache.get key now).1.isSome then ((s.cache.shard key).get key).2
        else (s.cache.shard key).pop key
      else s.cache.shard other := by
  rw [step, IdempotencyCache.get_snd]
  exact IdempotencyCache.shard_setShard _ _ _ _

/-- The latest insertion is in its place, unless so many other keys came since that it may have been
evicted. Lookups that found it too old do not count: none of the calls came that late. -/
def Kept (room ttl : Nat) (s : Watched) (key : String) : Prop :=
  ∀ response t, s.latest key = some (response, t) → (∀ n ∈ s.notes, n.call.now < t + ttl) →
    (s.cache.shard key).UsedBefore key ⟨response, t + ttl⟩ (s.othersSince key) ∨
      room ≤ (s.othersSince key).card

/-- What the cache holds is what the notes say. -/
structure Faithful (room ttl : Nat) (s : Watched) : Prop where
  ttl_eq : s.cache.ttl = ttl
  capacity_eq : ∀ i, (s.cache.shards i).capacity = room
  entry_latest : ∀ key e, s.cache.entry key = some e →
    ∃ response t, s.latest key = some (response, t) ∧ e = ⟨response, t + ttl⟩
  kept : ∀ key, Kept room ttl s key

theorem faithful_new : Faithful (max (maxEntries / NUM_SHARDS) 1) ttl (new hash maxEntries ttl) where
  ttl_eq := rfl
  capacity_eq := fun _ => rfl
  entry_latest := by
    intro key e h
    rw [new, IdempotencyCache.entry_new] at h
    cases h
  kept := by
    intro key response t h
    cases h

section Step

variable {room : Nat} (h : s.Faithful room ttl)

include h

theorem Faithful.entry_latest_get (key : String) (now : Nat) :
    ∀ other e, (s.step (.get key now)).cache.entry other = some e →
      ∃ response t, s.latest other = some (response, t) ∧ e = ⟨response, t + ttl⟩ := by
  intro other e he
  rw [step, IdempotencyCache.entry_get] at he
  apply h.entry_latest other
  split at he
  · rename_i hkey
    rw [hkey]
    exact (Option.filter_eq_some_iff.mp he).1
  · exact he

theorem Faithful.entry_latest_insert (key : String) (response : IngestResponse) (now : Nat) :
    ∀ other e, (s.step (.insert key response now)).cache.entry other = some e →
      ∃ response' t, (s.step (.insert key response now)).latest other = some (response', t) ∧
        e = ⟨response', t + ttl⟩ := by
  intro other e he
  rw [latest_insert]
  by_cases hkey : key = other
  · subst hkey
    rw [step, IdempotencyCache.entry_insert_self, h.ttl_eq] at he
    exact ⟨response, now, if_pos rfl, (Option.some.inj he).symm⟩
  · rw [if_neg hkey]
    exact h.entry_latest other e (IdempotencyCache.entry_insert_of_ne (Ne.symm hkey) he)

theorem Faithful.kept_insert (key : String) (response : IngestResponse) (now : Nat) (other : String) :
    Kept room ttl (s.step (.insert key response now)) other := by
  intro response' t hlatest hlive
  rw [latest_insert] at hlatest
  rw [othersSince_insert, shard_step_insert, h.ttl_eq]
  by_cases hkey : key = other
  · subst hkey
    rw [if_pos rfl] at hlatest ⊢
    cases hlatest
    rw [if_pos rfl]
    exact .inl (Lru.usedBefore_put_self _ _ _)
  · rw [if_neg hkey] at hlatest ⊢
    have hkept := h.kept other response' t hlatest fun n hn => hlive n (List.mem_cons_of_mem _ hn)
    by_cases hshard : s.cache.shardIndex other = s.cache.shardIndex key
    · rw [if_pos hshard, if_pos hshard.symm]
      -- the key comes before the entry, and the entry goes only when that fills the shard
      by_cases hroom : (insert key (s.othersSince other)).card < room
      · rcases hkept with hused | hfull
        · rw [IdempotencyCache.shard, hshard] at hused
          exact .inl (hused.put hkey _ (by rwa [h.capacity_eq]))
        · have hle := Finset.card_le_card (Finset.subset_insert key (s.othersSince other))
          exact absurd hroom (Nat.not_lt.mpr (Nat.le_trans hfull hle))
      · exact .inr (Nat.not_lt.mp hroom)
    · rw [if_neg hshard, if_neg (Ne.symm hshard)]
      exact hkept

theorem Faithful.kept_get (key : String) (now : Nat) (other : String) :
    Kept room ttl (s.step (.get key now)) other := by
  intro response t hlatest hlive
  rw [latest_get] at hlatest
  have hkept := h.kept other response t hlatest fun n hn => hlive n (List.mem_cons_of_mem _ hn)
  have hnow : now < t + ttl := hlive ⟨.get key now, _⟩ List.mem_cons_self
  rw [othersSince_get, shard_step_get]
  by_cases hkey : key = other
  · subst hkey
    rw [if_pos rfl, if_pos rfl]
    cases hentry : s.cache.entry key with
    | none =>
      -- the latest insertion is gone already
      rcases hkept with hused | hfull
      · cases hentry.symm.trans hused.peek_eq
      · rw [IdempotencyCache.get_fst, hentry]
        exact .inr hfull
    | some e =>
      obtain ⟨response', t', hlatest', rfl⟩ := h.entry_latest key e hentry
      cases hlatest.symm.trans hlatest'
      have hfound : (s.cache.get key now).1.isSome = true := by
        rw [IdempotencyCache.get_fst, hentry]
        simp [Option.filter, hnow]
      rw [if_pos hfound, if_pos hfound]
      exact .inl (Lru.usedBefore_get_self hentry)
  · by_cases hshard : s.cache.shardIndex other = s.cache.shardIndex key
    · rw [if_pos hshard, if_neg hkey, if_pos hshard.symm]
      have hsame : s.cache.shard other = s.cache.shard key := by
        rw [IdempotencyCache.shard, IdempotencyCache.shard, hshard]
      rw [hsame] at hkept
      split
      · rcases hkept with hused | hfull
        · exact .inl (hused.get hkey)
        · exact .inr (Nat.le_trans hfull (Finset.card_le_card (Finset.subset_insert _ _)))
      · rcases hkept with hused | hfull
        · exact .inl (hused.pop hkey)
        · exact .inr hfull
    · rw [if_neg hshard, if_neg hkey, if_neg (Ne.symm hshard), ite_self]
      exact hkept

/-- A call of either kind keeps the notes true. -/
theorem Faithful.step (c : CacheCall) : (s.step c).Faithful room ttl := by
  have hcap : ∀ (key : String) (lru : Lru String CachedEntry), lru.capacity = room →
      ∀ i, ((s.cache.setShard key lru).shards i).capacity = room := by
    intro key lru hlru i
    show (if _ then lru else s.cache.shards i).capacity = room
    split
    · exact hlru
    · exact h.capacity_eq i
  cases c with
  | get key now =>
    refine ⟨?_, ?_, h.entry_latest_get key now, h.kept_get key now⟩
    · rw [Watched.step, IdempotencyCache.get_snd]
      exact h.ttl_eq
    · rw [Watched.step, IdempotencyCache.get_snd]
      apply hcap
      split
      · rw [Lru.capacity_get]
        exact h.capacity_eq _
      · exact h.capacity_eq _
  | insert key response now =>
    exact ⟨h.ttl_eq, hcap key _ (h.capacity_eq _), h.entry_latest_insert key response now,
      h.kept_insert key response now⟩

end Step

/-- After any calls the notes are true. -/
theorem faithful_run (hash : String → UInt64) (maxEntries ttl : Nat) (calls : List CacheCall) :
    (run step (new hash maxEntries ttl) calls).Faithful (max (maxEntries / NUM_SHARDS) 1) ttl :=
  run_invariant_of_step (fun _ c h => h.step c) faithful_new calls

theorem mem_notes_run_new {calls : List CacheCall} {n : Noted}
    (h : n ∈ (run step (new hash maxEntries ttl) calls).notes) : n.call ∈ calls := by
  rw [← List.mem_reverse, ← notes_run_new hash maxEntries ttl]
  exact List.mem_map_of_mem h

/-- A lookup answers with the latest insertion while that is younger than the lifetime, unless as many
other keys of the shard were used since as the shard has room for; and it answers with nothing else. -/
theorem get_answers_latest_insert (hash : String → UInt64) (maxEntries ttl : Nat) (calls : List CacheCall)
    (key : String) (now : Nat)
    (hclock : (calls ++ [CacheCall.get key now]).Pairwise fun c d => c.now ≤ d.now) :
    let s := run step (new hash maxEntries ttl) calls
    (∀ response, (s.cache.get key now).1 = some response →
      ∃ t, latestInsert key calls = some (response, t) ∧ now < t + ttl) ∧
    (∀ response t, latestInsert key calls = some (response, t) → now < t + ttl →
      (s.othersSince key).card < max 1 (maxEntries / NUM_SHARDS) →
      (s.cache.get key now).1 = some response) := by
  intro s
  have hs : s.Faithful (max (maxEntries / NUM_SHARDS) 1) ttl := faithful_run hash maxEntries ttl calls
  have hlatest : s.latest key = latestInsert key calls := latest_run_new calls
  rw [IdempotencyCache.get_fst, ← hlatest]
  refine ⟨?_, ?_⟩
  · intro response h
    obtain ⟨e, he, rfl⟩ := Option.map_eq_some_iff.mp h
    obtain ⟨hentry, hlive⟩ := Option.filter_eq_some_iff.mp he
    obtain ⟨response, t, hrt, rfl⟩ := hs.entry_latest key e hentry
    exact ⟨t, hrt, by simpa using hlive⟩
  · intro response t hrt hyoung hfew
    have hbefore : ∀ n ∈ s.notes, n.call.now < t + ttl := by
      intro n hn
      have hle := (List.pairwise_append.mp hclock).2.2 n.call (mem_notes_run_new hn) _
        List.mem_cons_self
      exact Nat.lt_of_le_of_lt hle hyoung
    rcases hs.kept key response t hrt hbefore with hused | hfull
    · have hentry : s.cache.entry key = some ⟨response, t + ttl⟩ := hused.peek_eq
      simp [hentry, Option.filter, hyoung]
    · rw [Nat.max_comm] at hfew
      exact absurd hfew (Nat.not_lt.mpr hfull)

/-- Two keys in one shard with room for two: the one looked up again is still answered. -/
theorem get_answers_latest_insert_two_keys :
    let response : IngestResponse := ⟨"01ABC", 100, "gpt-4o", "openai"⟩
    let calls : List CacheCall :=
      [.insert "key-1" response 0, .insert "key-2" response 1, .get "key-1" 2]
    ((run step (new (fun _ => 0) 32 10) calls).cache.get "key-1" 3).1 = some response := by
  intro response calls
  have hclock : (calls ++ [CacheCall.get "key-1" 3]).Pairwise fun c d => c.now ≤ d.now := by
    simp [calls, CacheCall.now]
  exact (get_answers_latest_insert (fun _ => 0) 32 10 calls "key-1" 3 hclock).2 response 0 rfl
    (by decide) (by decide)

end Watched

end Keplor.Server
