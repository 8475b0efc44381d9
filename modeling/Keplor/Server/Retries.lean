import Keplor.Server.Attribution

/-!
# Requests with one idempotency key

A request with a key stores an event only if its lookup missed. So the events of a key are stored one
at most as long as no lookup misses while an event of an earlier request with the key is in the store
or may still get there. A response in the cache makes the lookup hit; but the response is put there
only after the flush, and not at all when the writer was too slow or reported an error. In between, a
second request with the key misses.

`Serial` excludes exactly these lookups, `WithinTtl` and `NotEvicted` are what a cache can be asked
for.
-/

set_option autoImplicit false

namespace Keplor.Server

open Keplor.Core Keplor.Lib Keplor.Store

def Request.HasKey (r : Request) (key : String) : Prop := r.path = .durable (some key)

instance (r : Request) (key : String) : Decidable (r.HasKey key) :=
  inferInstanceAs (Decidable (_ = _))

namespace Service

/-! ## Calls and what they stored -/

/-- Where a request with one payload stands with its calls. -/
def StageOk (r : Request) : Prop :=
  match r.stage with
  | .arrived | .ready => r.calls = [] ∧ r.pending.length ≤ 1
  | .waiting call _ => r.calls = [call] ∧ r.pending = []
  | .returned | .aborted => r.calls.length ≤ 1

/-- What holds of calls, write requests and the store, whatever the keys. -/
structure Tidy (s : Service) : Prop where
  inv : s.Inv
  calls : ∀ (n : Nat) (r : Request), s.requests[n]? = some r → ∀ j ∈ r.calls,
    j < s.writer.calls.length
  disjoint : ∀ (n m j : Nat) (r r' : Request), s.requests[n]? = some r → s.requests[m]? = some r' →
    j ∈ r.calls → j ∈ r'.calls → n = m
  decided : ∀ t ∈ s.stored, ¬ s.writer.OnItsWay t
  nodup : s.stored.Nodup
  earned : ∀ (i : Nat) (sh : Shard), s.writer.shards[i]? = some sh → ∀ batch,
    (batch, .ok ()) ∈ sh.appends → ∀ q ∈ batch, q.token ∈ s.stored
  stage : ∀ (n : Nat) (r : Request) (key : Option String), s.requests[n]? = some r →
    r.path = .durable key → StageOk r
  single : ∀ (n : Nat) (r : Request) (key : Option String), s.requests[n]? = some r →
    r.path = .durable key → ∀ j ∈ r.calls, ∃ kind event,
      (s.writer.calls.map BatchWriter.asked)[j]? = some (kind, [event])

variable {s : Service}

theorem tidy_new (settings : Settings) (config : BatchConfig) (cache : Option IdempotencyCache) :
    Tidy (new settings config cache) := by
  refine ⟨inv_new settings config cache, ?_, ?_, ?_, List.nodup_nil, ?_, ?_, ?_⟩
  · intro n r hn
    cases hn
  · intro n m j r r' hn
    cases hn
  · intro t ht
    cases ht
  · intro i sh hi batch hbatch
    have hnew : sh = Shard.new := (List.mem_replicate.mp (List.mem_of_getElem? hi)).2
    rw [hnew] at hbatch
    cases hbatch
  · intro n r key hn
    cases hn
  · intro n r key hn
    cases hn

/-- A request with one payload that has not called the writer. -/
theorem Tidy.uncalled (h : s.Tidy) {n : Nat} {r : Request} {key : Option String}
    (hn : s.requests[n]? = some r) (hkey : r.path = .durable key)
    (hstage : r.stage = .arrived ∨ r.stage = .ready) : r.calls = [] ∧ r.pending.length ≤ 1 := by
  have hold := h.stage n r key hn hkey
  unfold StageOk at hold
  rcases hstage with hstage | hstage
  · rwa [hstage] at hold
  · rwa [hstage] at hold

/-- And one that has, and waits. -/
theorem Tidy.called (h : s.Tidy) {n call : Nat} {r : Request} {key : Option String}
    {made : List (Except ServerError Made)} (hn : s.requests[n]? = some r)
    (hkey : r.path = .durable key) (hstage : r.stage = .waiting call made) :
    r.calls = [call] ∧ r.pending = [] := by
  have hold := h.stage n r key hn hkey
  unfold StageOk at hold
  rwa [hstage] at hold

theorem StageOk.length_calls_le {r : Request} (h : StageOk r) : r.calls.length ≤ 1 := by
  unfold StageOk at h
  split at h
  · simp [h.1]
  · simp [h.1]
  · simp [h.1]
  · exact h
  · exact h

theorem Tidy.append (h : s.Tidy) {r : Request} (hcalls : r.calls = [])
    (hstage : ∀ key, r.path = .durable key → StageOk r) :
    Tidy { s with requests := s.requests ++ [r] } := by
  refine ⟨h.inv.append r, ?_, ?_, h.decided, h.nodup, h.earned, ?_, ?_⟩
  · intro n q hn j hj
    rcases getElem?_concat_cases hn with hn | ⟨-, rfl⟩
    · exact h.calls n q hn j hj
    · rw [hcalls] at hj
      cases hj
  · intro n m j q q' hn hm hj hj'
    rcases getElem?_concat_cases hn with hn | ⟨-, rfl⟩
    · rcases getElem?_concat_cases hm with hm | ⟨-, rfl⟩
      · exact h.disjoint n m j q q' hn hm hj hj'
      · rw [hcalls] at hj'
        cases hj'
    · rw [hcalls] at hj
      cases hj
  · intro n q key hn hkey
    rcases getElem?_concat_cases hn with hn | ⟨-, rfl⟩
    · exact h.stage n q key hn hkey
    · exact hstage key hkey
  · intro n q key hn hkey j hj
    rcases getElem?_concat_cases hn with hn | ⟨-, rfl⟩
    · exact h.single n q key hn hkey j hj
    · rw [hcalls] at hj
      cases hj

/-- A request moves on without a call of the writer. -/
theorem Tidy.advance (h : s.Tidy) {n : Nat} {r : Request} (hn : s.requests[n]? = some r)
    (pending : List IngestEvent) (stage : Stage) (results : List (Except ServerError IngestResponse))
    (cache : Option IdempotencyCache)
    (hstage : ∀ key, r.path = .durable key →
      StageOk { r with pending := pending, stage := stage, results := results }) :
    Tidy { s with
      cache := cache
      requests := s.requests.set n
        { r with pending := pending, stage := stage, results := results } } := by
  -- in each clause the new request stands for the old one, whose calls and path it has
  refine ⟨h.inv.advance hn _ _ _ _, ?_, ?_, h.decided, h.nodup, h.earned, ?_, ?_⟩
  · intro m q hm j hj
    rcases getElem?_set_cases hm with ⟨rfl, rfl⟩ | ⟨-, hm⟩
    · exact h.calls n r hn j hj
    · exact h.calls m q hm j hj
  · intro m m' j q q' hm hm' hj hj'
    rcases getElem?_set_cases hm with ⟨rfl, rfl⟩ | ⟨-, hm⟩
    · rcases getElem?_set_cases hm' with ⟨rfl, rfl⟩ | ⟨-, hm'⟩
      · rfl
      · exact h.disjoint n m' j r q' hn hm' hj hj'
    · rcases getElem?_set_cases hm' with ⟨rfl, rfl⟩ | ⟨-, hm'⟩
      · exact h.disjoint m n j q r hm hn hj hj'
      · exact h.disjoint m m' j q q' hm hm' hj hj'
  · intro m q key hm hkey
    rcases getElem?_set_cases hm with ⟨rfl, rfl⟩ | ⟨-, hm⟩
    · exact hstage key hkey
    · exact h.stage m q key hm hkey
  · intro m q key hm hkey j hj
    rcases getElem?_set_cases hm with ⟨rfl, rfl⟩ | ⟨-, hm⟩
    · exact h.single n r key hn hkey j hj
    · exact h.single m q key hm hkey j hj

theorem Inv.call_lt_of_stored (h : s.Inv) {t : Token} (ht : t ∈ s.stored) :
    t.call < s.writer.calls.length := by
  obtain ⟨i, sh, hi, q, hq, rfl⟩ := h.stored t ht
  obtain ⟨c, hc, -⟩ := h.writer.origin i sh hi q hq
  exact (List.getElem?_eq_some_iff.mp hc).1

theorem Tidy.call (h : s.Tidy) {n : Nat} {r : Request} (hn : s.requests[n]? = some r)
    (hready : r.stage = .ready) {made : List (Except ServerError Made)} {pending : List IngestEvent}
    (hmade : ∀ e ∈ llmEvents made, MadeFor s.settings r e)
    (hdurable : ∀ key, r.path = .durable key →
      (llmEvents made).length = 1 ∧ pending.length < r.pending.length) :
    Tidy (s.call n r made pending) := by
  have hlength : (s.call n r made pending).writer.calls.length = s.writer.calls.length + 1 := by
    simp [Service.call, BatchWriter.begin]
  have hasked : (s.call n r made pending).writer.calls.map BatchWriter.asked
      = s.writer.calls.map BatchWriter.asked ++ [(r.path.kind, llmEvents made)] :=
    asked_begin s.writer _ _
  refine ⟨h.inv.call hn pending hmade, ?_, ?_, ?_, h.nodup, h.earned, ?_, ?_⟩
  · intro m q hm j hj
    rw [hlength]
    rcases getElem?_set_cases hm with ⟨rfl, rfl⟩ | ⟨-, hm⟩
    · rcases List.mem_append.mp hj with hj | hj
      · exact Nat.lt_succ_of_lt (h.calls n r hn j hj)
      · rw [List.mem_singleton.mp hj]
        exact Nat.lt_succ_self _
    · exact Nat.lt_succ_of_lt (h.calls m q hm j hj)
  · -- the number of the new call is not among the calls there are
    have hnew : ∀ (m : Nat) (q : Request), s.requests[m]? = some q →
        s.writer.calls.length ∉ q.calls :=
      fun m q hm hj => Nat.lt_irrefl _ (h.calls m q hm _ hj)
    intro m m' j q q' hm hm' hj hj'
    rcases getElem?_set_cases hm with ⟨rfl, rfl⟩ | ⟨-, hm⟩
    · rcases getElem?_set_cases hm' with ⟨rfl, rfl⟩ | ⟨-, hm'⟩
      · rfl
      · rcases List.mem_append.mp hj with hj | hj
        · exact h.disjoint n m' j r q' hn hm' hj hj'
        · rw [List.mem_singleton.mp hj] at hj'
          exact absurd hj' (hnew m' q' hm')
    · rcases getElem?_set_cases hm' with ⟨rfl, rfl⟩ | ⟨-, hm'⟩
      · rcases List.mem_append.mp hj' with hj' | hj'
        · exact h.disjoint m n j q r hm hn hj hj'
        · rw [List.mem_singleton.mp hj'] at hj
          exact absurd hj (hnew m q hm)
      · exact h.disjoint m m' j q q' hm hm' hj hj'
  · intro t ht hway
    exact h.decided t ht (BatchWriter.onItsWay_of_begin (h.inv.call_lt_of_stored ht) hway)
  · intro m q key hm hkey
    rcases getElem?_set_cases hm with ⟨rfl, rfl⟩ | ⟨-, hm⟩
    · have hold := h.uncalled hn hkey (.inr hready)
      refine ⟨by simp [hold.1], ?_⟩
      have hlt : pending.length < 1 := Nat.lt_of_lt_of_le (hdurable key hkey).2 hold.2
      exact List.eq_nil_of_length_eq_zero (Nat.lt_one_iff.mp hlt)
    · exact h.stage m q key hm hkey
  · intro m q key hm hkey j hj
    rw [hasked]
    rcases getElem?_set_cases hm with ⟨rfl, rfl⟩ | ⟨-, hm⟩
    · rcases List.mem_append.mp hj with hj | hj
      · obtain ⟨kind, event, hj⟩ := h.single n r key hn hkey j hj
        exact ⟨kind, event, getElem?_append_of hj _⟩
      · obtain ⟨event, hevent⟩ := List.length_eq_one_iff.mp (hdurable key hkey).1
        refine ⟨r.path.kind, event, ?_⟩
        rw [List.mem_singleton.mp hj, ← hevent, ← List.length_map (f := BatchWriter.asked)]
        exact List.getElem?_concat_length
    · obtain ⟨kind, event, hj⟩ := h.single m q key hm hkey j hj
      exact ⟨kind, event, getElem?_append_of hj _⟩

/-- The writer moves without a new call and without the end of a flush. -/
theorem Tidy.writerStep (h : s.Tidy) {y : BatchWriter.Input} (hy : isInternal y = true) :
    Tidy { s with writer := s.writer.step y } := by
  have hbegins := begins_of_isInternal hy
  have hasked := BatchWriter.asked_step s.writer y hbegins
  have hlength := BatchWriter.length_calls_step s.writer hbegins
  refine ⟨h.inv.writerStep hbegins, ?_, h.disjoint, ?_, h.nodup, ?_, h.stage, ?_⟩
  · intro n r hn j hj
    rw [hlength]
    exact h.calls n r hn j hj
  · intro t ht hway
    exact h.decided t ht (BatchWriter.onItsWay_of_step (h.inv.call_lt_of_stored ht) hway)
  · intro i sh' hi batch hbatch q hq
    obtain ⟨sh, hsh, hold | ⟨last, -, rfl⟩⟩ := BatchWriter.mem_appends_step hi hbatch
    · exact h.earned i sh hsh batch hold q hq
    · cases hy
  · rw [hasked]
    exact h.single

/-- What a flush stores was on its way. -/
theorem onItsWay_of_mem_flushed {w : BatchWriter} {i : Nat} {outcome : Except StoreError Unit}
    {kept : Token → Bool} {t : Token} (h : t ∈ flushed w i outcome kept) : w.OnItsWay t := by
  obtain ⟨sh, batch, last, hi, hp, q, hq, rfl⟩ := mem_flushed h
  exact .inr ⟨i, sh, hi, q, by simp [Shard.queued, Shard.undecided, hp, hq], rfl⟩

theorem flushed_ok {w : BatchWriter} {i : Nat} {sh : Shard} (hi : w.shards[i]? = some sh)
    {batch : List WriteRequest} {last : Bool} (hp : sh.phase = .flushing batch last)
    (kept : Token → Bool) : flushed w i (.ok ()) kept = batch.map WriteRequest.token := by
  simp only [flushed, hi, hp]

theorem nodup_flushed {w : BatchWriter} (h : w.Inv) (i : Nat) (outcome : Except StoreError Unit)
    (kept : Token → Bool) : (flushed w i outcome kept).Nodup := by
  have hbatch : ∀ (sh : Shard) (batch : List WriteRequest) (last : Bool), w.shards[i]? = some sh →
      sh.phase = .flushing batch last → (batch.map WriteRequest.token).Nodup := by
    intro sh batch last hi hp
    have hsh := h.shard i sh hi
    have hphase := hsh.phase
    simp only [Shard.PhaseOk, hp] at hphase
    have hnodup := h.nodup i sh hi
    rw [hsh.queue, hphase.1, List.map_append, List.map_append] at hnodup
    exact hnodup.of_append_left.of_append_right
  unfold flushed
  split
  · exact List.nodup_nil
  · rename_i sh hi
    split
    · rename_i batch last hp
      exact hbatch sh batch last hi hp
    · rename_i batch last _ hp
      exact (hbatch sh batch last hi hp).filter _
    · exact List.nodup_nil

theorem Tidy.flush (h : s.Tidy) (i : Nat) (outcome : Except StoreError Unit) (kept : Token → Bool) :
    Tidy { s with
      writer := s.writer.step (.loop i (.appended outcome))
      stored := s.stored ++ flushed s.writer i outcome kept } := by
  have hasked := BatchWriter.asked_step s.writer (.loop i (.appended outcome)) rfl
  have hlength : (s.writer.step (.loop i (.appended outcome))).calls.length
      = s.writer.calls.length := BatchWriter.length_calls_step s.writer rfl
  refine ⟨h.inv.flush i outcome kept, ?_, h.disjoint, ?_, ?_, ?_, h.stage, ?_⟩
  · intro n r hn j hj
    rw [hlength]
    exact h.calls n r hn j hj
  · intro t ht hway
    rcases List.mem_append.mp ht with ht | ht
    · exact h.decided t ht (BatchWriter.onItsWay_of_step (h.inv.call_lt_of_stored ht) hway)
    · obtain ⟨sh, batch, last, hi, hp, q, hq, rfl⟩ := mem_flushed ht
      exact h.inv.writer.not_onItsWay_of_appended hi hp outcome hq hway
  · refine List.nodup_append.mpr ⟨h.nodup, nodup_flushed h.inv.writer i outcome kept, ?_⟩
    intro t ht t' ht' heq
    exact h.decided t ht (heq ▸ onItsWay_of_mem_flushed ht')
  · intro j sh' hj batch hbatch q hq
    obtain ⟨sh, hsh, hold | ⟨last, hp, heq⟩⟩ := BatchWriter.mem_appends_step hj hbatch
    · exact List.mem_append_left _ (h.earned j sh hsh batch hold q hq)
    · cases heq
      apply List.mem_append_right
      rw [flushed_ok hsh hp]
      exact List.mem_map_of_mem hq
  · rw [hasked]
    exact h.single

theorem tidy_step (s : Service) (x : Input) (h : s.Tidy) : Tidy (s.step x) := by
  have heffect := effect s x
  generalize s.step x = s' at heffect
  cases heffect with
  | stay => exact h
  | enter r hcalls _ hdurable =>
    refine h.append hcalls fun key hkey => ?_
    obtain ⟨hstage, hpending⟩ := hdurable key hkey
    unfold StageOk
    rw [hstage]
    exact ⟨hcalls, hpending⟩
  | hit n now r key cache cached _ hn hstage =>
    refine h.advance hn _ _ _ _ fun key' hkey => ?_
    exact (h.stage n r key' hn hkey).length_calls_le
  | miss n now r key cache _ hn hstage =>
    refine h.advance hn _ _ _ _ fun key' hkey => ?_
    have hold := h.uncalled hn hkey (.inl hstage)
    exact hold
  | pass n r hn hstage =>
    refine h.advance hn _ _ _ _ fun key' hkey => ?_
    have hold := h.uncalled hn hkey (.inl hstage)
    exact hold
  | fail n r pending stage results hn hstage hnext =>
    refine h.advance hn _ _ _ _ fun key' hkey => ?_
    have hold := h.uncalled hn hkey (.inr hstage)
    rcases hnext with rfl | rfl | ⟨rfl, hlt⟩
    · exact (h.stage n r key' hn hkey).length_calls_le
    · exact (h.stage n r key' hn hkey).length_calls_le
    · exact absurd hold.2 (Nat.not_le.mpr hlt)
  | call n r made pending hn hstage hmade hdurable => exact h.call hn hstage hmade hdurable
  | collect n now call r c made results hn hstage =>
    refine h.advance hn _ _ _ _ fun key' hkey => ?_
    have hold := h.called hn hkey hstage
    unfold StageOk afterRound
    rw [hold.2]
    exact (h.stage n r key' hn hkey).length_calls_le
  | flush i outcome kept => exact h.flush i outcome kept
  | writer y hy => exact h.writerStep hy

/-- An event whose caller was told `Ok` is in the store. -/
theorem Tidy.stored_of_ok (h : s.Tidy) {call : Nat} {c : Call} (hc : s.writer.calls[call]? = some c)
    {id : EventId} (hid : c.results[0]? = some (.ok id)) : ⟨call, 0⟩ ∈ s.stored := by
  rcases (h.inv.writer.call call c hc).told 0 (.ok id) hid with hclosed | ⟨i, sh, -, hi, hreply⟩
  · cases hclosed
  · obtain ⟨batch, hbatch, q, hq, htok, -⟩ := (h.inv.writer.shard i sh hi).truthful _ _ hreply
    rw [← htok]
    exact h.earned i sh hi batch hbatch q hq

/-! ## The requests of one key -/

/-- The event of the request is in the store or can still get there. -/
def InPlay (s : Service) (r : Request) : Prop :=
  ∃ j ∈ r.calls, ⟨j, 0⟩ ∈ s.stored ∨ s.writer.OnItsWay ⟨j, 0⟩

def Live (s : Service) (r : Request) : Prop := r.stage.running = true ∨ s.InPlay r

/-- Nothing more is to come of the request than the cache knows: it is not running, and it returned
`Ok` or its event is neither stored nor on its way. -/
def Settled (s : Service) (r : Request) : Prop :=
  r.stage.running = false ∧ ((∃ response, .ok response ∈ r.results) ∨ ¬ s.InPlay r)

def entryOf (s : Service) (key : String) : Option CachedEntry := s.cache.bind fun c => c.entry key

/-- A request with the key is looked up only when every other request with the key is settled. -/
def Serial (s : Service) (key : String) : Input → Prop
  | .lookup n _ => ∀ r, s.requests[n]? = some r → r.stage = .arrived → r.HasKey key →
      ∀ m r', m ≠ n → s.requests[m]? = some r' → r'.HasKey key → s.Settled r'
  | _ => True

/-- A response cached under the key is not too old when the key is looked up. -/
def WithinTtl (s : Service) (key : String) : Input → Prop
  | .lookup n now => ∀ r ∈ s.requests[n]?, r.HasKey key → ∀ e ∈ s.entryOf key, now < e.expiresAt
  | _ => True

/-- The step does not push the response out of the cache. -/
def NotEvicted (s : Service) (key : String) (x : Input) : Prop :=
  (s.entryOf key).isSome → ((s.step x).entryOf key).isSome

instance decidableWithinTtl (key : String) (s : Service) : (x : Input) → Decidable (s.WithinTtl key x)
  | .lookup n now => inferInstanceAs (Decidable (∀ r ∈ s.requests[n]?, r.HasKey key →
      ∀ e ∈ s.entryOf key, now < e.expiresAt))
  | .ingestSingle _ _ _ _ _ | .ingestBatch _ _ _ _ | .submit _ _ | .collect _ _ | .flush _ _ _
  | .writer _ => isTrue trivial

instance decidableNotEvicted (key : String) (s : Service) (x : Input) : Decidable (s.NotEvicted key x) :=
  inferInstanceAs (Decidable (_ = true → _ = true))

/-- At most one request of the key is live; what any of them returned is in the cache, and what is in
the cache comes from one whose event is stored. -/
structure Once (key : String) (s : Service) : Prop where
  tidy : s.Tidy
  enabled : s.cache.isSome
  exclusive : ∀ (n m : Nat) (r r' : Request), s.requests[n]? = some r → s.requests[m]? = some r' →
    r.HasKey key → r'.HasKey key → s.Live r → s.Live r' → n = m
  cached : ∀ (n : Nat) (r : Request) (response : IngestResponse), s.requests[n]? = some r →
    r.HasKey key → .ok response ∈ r.results → ∃ e, s.entryOf key = some e ∧ e.response = response
  source : ∀ e, s.entryOf key = some e → ∃ (n j : Nat) (r : Request), s.requests[n]? = some r ∧
    r.HasKey key ∧ r.stage.running = false ∧ j ∈ r.calls ∧ ⟨j, 0⟩ ∈ s.stored

variable {key : String}

theorem once_new (settings : Settings) (config : BatchConfig) (hash : String → UInt64)
    (maxEntries ttl : Nat) :
    Once key (new settings config (some (.new hash maxEntries ttl))) := by
  refine ⟨tidy_new _ _ _, rfl, ?_, ?_, ?_⟩
  · intro n m r r' hn
    cases hn
  · intro n r response hn
    cases hn
  · intro e he
    cases he

/-- While a request of the key runs, nothing is cached under it. -/
theorem Once.entry_none_of_running (h : Once key s) {n : Nat} {r : Request}
    (hn : s.requests[n]? = some r) (hkey : r.HasKey key) (hrunning : r.stage.running = true) :
    s.entryOf key = none := by
  cases he : s.entryOf key with
  | none => rfl
  | some e =>
    obtain ⟨m, j, r', hm, hkey', hidle, hj, hstored⟩ := h.source e he
    have hnm := h.exclusive n m r r' hn hm hkey hkey' (.inl hrunning) (.inr ⟨j, hj, .inl hstored⟩)
    subst hnm
    rw [hn] at hm
    cases hm
    rw [hrunning] at hidle
    cases hidle

/-- Requests that get no livelier stay apart. -/
theorem Once.exclusive_of (h : Once key s) {s' : Service}
    (hback : ∀ (n : Nat) (r' : Request), s'.requests[n]? = some r' → r'.HasKey key → s'.Live r' →
      ∃ r : Request, s.requests[n]? = some r ∧ r.HasKey key ∧ s.Live r) :
    ∀ (n m : Nat) (r r' : Request), s'.requests[n]? = some r → s'.requests[m]? = some r' →
      r.HasKey key → r'.HasKey key → s'.Live r → s'.Live r' → n = m := by
  intro n m r r' hn hm hkey hkey' hlive hlive'
  obtain ⟨q, hq, hqkey, hqlive⟩ := hback n r hn hkey hlive
  obtain ⟨q', hq', hqkey', hqlive'⟩ := hback m r' hm hkey' hlive'
  exact h.exclusive n m q q' hq hq' hqkey hqkey' hqlive hqlive'

/-- A request moves on and gets no livelier, returns nothing new, and the cache keeps what it has
under the key. -/
theorem Once.advance (h : Once key s) {n : Nat} {r : Request} (hn : s.requests[n]? = some r)
    {pending : List IngestEvent} {stage : Stage} {results : List (Except ServerError IngestResponse)}
    {cache : Option IdempotencyCache}
    (htidy : Tidy { s with
      cache := cache
      requests := s.requests.set n { r with pending := pending, stage := stage, results := results } })
    (henabled : cache.isSome)
    (hentry : (cache.bind fun c => c.entry key) = s.entryOf key)
    (hstage : r.HasKey key → stage.running = true → s.Live r)
    (hsource : r.HasKey key → stage.running = true → r.stage.running = true)
    (hresults : r.HasKey key → ∀ response, .ok response ∈ results →
      ∃ e, s.entryOf key = some e ∧ e.response = response) :
    Once key { s with
      cache := cache
      requests := s.requests.set n
        { r with pending := pending, stage := stage, results := results } } := by
  refine ⟨htidy, henabled, ?_, ?_, ?_⟩
  · apply h.exclusive_of
    intro m q hm hkey hlive
    rcases getElem?_set_cases hm with ⟨rfl, rfl⟩ | ⟨-, hm⟩
    · refine ⟨r, hn, hkey, ?_⟩
      rcases hlive with hrunning | hplay
      · exact hstage hkey hrunning
      · exact .inr hplay
    · exact ⟨q, hm, hkey, hlive⟩
  · intro m q response hm hkey hmem
    show ∃ e, (cache.bind fun c => c.entry key) = some e ∧ _
    rw [hentry]
    rcases getElem?_set_cases hm with ⟨rfl, rfl⟩ | ⟨-, hm⟩
    · exact hresults hkey response hmem
    · exact h.cached m q response hm hkey hmem
  · intro e he
    rw [show entryOf _ key = (cache.bind fun c => c.entry key) from rfl, hentry] at he
    obtain ⟨m, j, q, hm, hkey, hidle, hj, hstored⟩ := h.source e he
    by_cases hnm : n = m
    · subst hnm
      rw [hn] at hm
      cases hm
      refine ⟨n, j, _, getElem?_set_of hn, ?_⟩
      rw [if_pos rfl]
      refine ⟨hkey, ?_, hj, hstored⟩
      cases hrunning : stage.running with
      | false => rfl
      | true =>
        rw [hsource hkey hrunning] at hidle
        cases hidle
    · exact ⟨m, j, q, by rw [List.getElem?_set_ne hnm]; exact hm, hkey, hidle, hj, hstored⟩

theorem entry_get_of_live {cache : IdempotencyCache} {k : String} {now : Nat}
    (hlive : ∀ e, cache.entry key = some e → k = key → now < e.expiresAt) :
    (cache.get k now).2.entry key = cache.entry key := by
  rw [IdempotencyCache.entry_get]
  split
  · rename_i hk
    subst hk
    cases he : cache.entry key with
    | none => rfl
    | some e => simp [Option.filter, hlive e he rfl]
  · rfl

theorem live_of_get {cache : IdempotencyCache} {k : String} {now : Nat} {cached : IngestResponse}
    (h : (cache.get k now).1 = some cached) :
    ∃ e, cache.entry k = some e ∧ now < e.expiresAt ∧ e.response = cached := by
  rw [IdempotencyCache.get_fst] at h
  obtain ⟨e, he, hresponse⟩ := Option.map_eq_some_iff.mp h
  obtain ⟨hentry, hlive⟩ := Option.filter_eq_some_iff.mp he
  exact ⟨e, hentry, by simpa using hlive, hresponse⟩

/-- A lookup that hits. -/
theorem Once.hit (h : Once key s) {n now : Nat} {r : Request} {k : String} {cache : IdempotencyCache}
    {cached : IngestResponse} (hn : s.requests[n]? = some r) (hpath : r.path = .durable (some k))
    (hcache : s.cache = some cache) (hget : (cache.get k now).1 = some cached)
    (htidy : Tidy { s with
      cache := some (cache.get k now).2
      requests := s.requests.set n
        { r with pending := [], stage := .returned, results := [.ok cached] } }) :
    Once key { s with
      cache := some (cache.get k now).2
      requests := s.requests.set n
        { r with pending := [], stage := .returned, results := [.ok cached] } } := by
  obtain ⟨e, he, hlive, hresponse⟩ := live_of_get hget
  have hentry : s.entryOf key = cache.entry key := by rw [entryOf, hcache, Option.bind_some]
  refine h.advance hn htidy rfl ?_ (fun _ hrun => by cases hrun) (fun _ hrun => by cases hrun) ?_
  · rw [hentry, Option.bind_some]
    apply entry_get_of_live
    rintro e' he' rfl
    rw [he] at he'
    cases he'
    exact hlive
  · intro hkey response hmem
    rw [Request.HasKey, hpath] at hkey
    cases hkey
    rw [List.mem_singleton] at hmem
    cases hmem
    exact ⟨e, hentry.trans he, hresponse⟩

/-- A lookup that misses, under another key. -/
theorem Once.miss_other (h : Once key s) {n now : Nat} {r : Request} {k : String}
    {cache : IdempotencyCache} (hn : s.requests[n]? = some r)
    (hpath : r.path = .durable (some k)) (hcache : s.cache = some cache) (hne : k ≠ key)
    (htidy : Tidy { s with
      cache := some (cache.get k now).2, requests := s.requests.set n { r with stage := .ready } }) :
    Once key { s with
      cache := some (cache.get k now).2, requests := s.requests.set n { r with stage := .ready } } := by
  have hentry : s.entryOf key = cache.entry key := by rw [entryOf, hcache, Option.bind_some]
  have hother : ¬ r.HasKey key := by
    intro hkey
    rw [Request.HasKey, hpath] at hkey
    cases hkey
    exact hne rfl
  refine h.advance hn htidy rfl ?_ (fun hkey => absurd hkey hother) (fun hkey => absurd hkey hother)
    fun hkey => absurd hkey hother
  rw [hentry, Option.bind_some]
  exact entry_get_of_live fun _ _ heq => absurd heq hne

/-- A lookup of the key that misses: all the others are settled, and none of them returned `Ok`, for
then the lookup would have hit. -/
theorem Once.miss (h : Once key s) {n now : Nat} {r : Request} {cache : IdempotencyCache}
    (hn : s.requests[n]? = some r) (hkey : r.HasKey key)
    (hcache : s.cache = some cache) (hget : (cache.get key now).1 = none)
    (hserial : ∀ m r', m ≠ n → s.requests[m]? = some r' → r'.HasKey key → s.Settled r')
    (httl : ∀ e, s.entryOf key = some e → now < e.expiresAt)
    (htidy : Tidy { s with
      cache := some (cache.get key now).2, requests := s.requests.set n { r with stage := .ready } }) :
    Once key { s with
      cache := some (cache.get key now).2, requests := s.requests.set n { r with stage := .ready } } := by
  have hentry : s.entryOf key = cache.entry key := by rw [entryOf, hcache, Option.bind_some]
  have hnone : s.entryOf key = none := by
    cases he : s.entryOf key with
    | none => rfl
    | some e =>
      rw [IdempotencyCache.get_fst, ← hentry, he] at hget
      simp [Option.filter, httl e he] at hget
  have hafter : (cache.get key now).2.entry key = none := by
    rw [entry_get_of_live fun e he _ => httl e (hentry.trans he), ← hentry, hnone]
  have hdead : ∀ m r', m ≠ n → s.requests[m]? = some r' → r'.HasKey key → ¬ s.Live r' := by
    intro m r' hmn hm hkey' hlive
    obtain ⟨hidle, hok | hout⟩ := hserial m r' hmn hm hkey'
    · obtain ⟨response, hmem⟩ := hok
      obtain ⟨e, he, -⟩ := h.cached m r' response hm hkey' hmem
      rw [hnone] at he
      cases he
    · rcases hlive with hrunning | hplay
      · rw [hidle] at hrunning
        cases hrunning
      · exact hout hplay
  refine ⟨htidy, rfl, ?_, ?_, ?_⟩
  · intro m m' q q' hm hm' hq hq' hlive hlive'
    rcases getElem?_set_cases hm with ⟨rfl, -⟩ | ⟨hne, hm⟩
    · rcases getElem?_set_cases hm' with ⟨rfl, -⟩ | ⟨hne', hm'⟩
      · rfl
      · exact absurd hlive' (hdead m' q' (Ne.symm hne') hm' hq')
    · exact absurd hlive (hdead m q (Ne.symm hne) hm hq)
  · intro m q response hm hq hmem
    have hold : ∃ e, s.entryOf key = some e ∧ e.response = response := by
      rcases getElem?_set_cases hm with ⟨rfl, rfl⟩ | ⟨-, hm⟩
      · exact h.cached n r response hn hkey hmem
      · exact h.cached m q response hm hq hmem
    obtain ⟨e, he, -⟩ := hold
    rw [hnone] at he
    cases he
  · intro e he
    rw [show entryOf _ key = (cache.get key now).2.entry key from rfl, hafter] at he
    cases he

/-- A step after which nobody is livelier, nothing stored is lost, and requests and cache are the
same. -/
theorem Once.of_writer (h : Once key s) {w : BatchWriter} {stored : List Token}
    (htidy : Tidy { s with writer := w, stored := stored })
    (hgrows : ∀ t ∈ s.stored, t ∈ stored)
    (hquiet : ∀ t, t.call < s.writer.calls.length → t ∈ stored ∨ w.OnItsWay t →
      t ∈ s.stored ∨ s.writer.OnItsWay t) :
    Once key { s with writer := w, stored := stored } := by
  refine ⟨htidy, h.enabled, ?_, h.cached, ?_⟩
  · apply h.exclusive_of
    intro n r hn hkey hlive
    refine ⟨r, hn, hkey, ?_⟩
    rcases hlive with hrunning | ⟨j, hj, hplay⟩
    · exact .inl hrunning
    · exact .inr ⟨j, hj, hquiet ⟨j, 0⟩ (h.tidy.calls n r hn j hj) hplay⟩
  · intro e he
    obtain ⟨n, j, r, hn, hkey, hidle, hj, hstored⟩ := h.source e he
    exact ⟨n, j, r, hn, hkey, hidle, hj, hgrows _ hstored⟩

theorem Once.call (h : Once key s) {n : Nat} {r : Request} {made : List (Except ServerError Made)}
    {pending : List IngestEvent} (hn : s.requests[n]? = some r) (hstage : r.stage = .ready)
    (htidy : Tidy (s.call n r made pending)) : Once key (s.call n r made pending) := by
  have hrunning : r.stage.running = true := by rw [hstage]; rfl
  refine ⟨htidy, h.enabled, ?_, ?_, ?_⟩
  · apply h.exclusive_of
    intro m q hm hkey hlive
    rcases getElem?_set_cases hm with ⟨rfl, rfl⟩ | ⟨-, hm⟩
    · exact ⟨r, hn, hkey, .inl hrunning⟩
    · refine ⟨q, hm, hkey, ?_⟩
      rcases hlive with hq | ⟨j, hj, hstored | hway⟩
      · exact .inl hq
      · exact .inr ⟨j, hj, .inl hstored⟩
      · exact .inr ⟨j, hj, .inr (BatchWriter.onItsWay_of_begin (h.tidy.calls m q hm j hj) hway)⟩
  · intro m q response hm hkey hmem
    rcases getElem?_set_cases hm with ⟨rfl, rfl⟩ | ⟨-, hm⟩
    · exact h.cached n r response hn hkey hmem
    · exact h.cached m q response hm hkey hmem
  · intro e he
    obtain ⟨m, j, q, hm, hkey, hidle, hj, hstored⟩ := h.source e he
    have hnm : n ≠ m := by
      rintro rfl
      rw [hn] at hm
      cases hm
      rw [hrunning] at hidle
      cases hidle
    exact ⟨m, j, q, by rw [show (s.call n r made pending).requests = s.requests.set n _ from rfl,
      List.getElem?_set_ne hnm]; exact hm, hkey, hidle, hj, hstored⟩

theorem outcomeOf_durable {settings : Settings} {k : Option String}
    {made : List (Except ServerError Made)} {c : Call}
    {results : List (Except ServerError IngestResponse)}
    (h : outcomeOf settings (.durable k) made c = some results) :
    (∃ e, results = [.error e]) ∨
      ∃ id response, c.results[0]? = some (.ok id) ∧ results = [.ok response] := by
  unfold outcomeOf at h
  split at h
  · contradiction
  · split at h
    · cases h
      exact .inl ⟨_, rfl⟩
    · split at h
      · rename_i id rest hc
        cases h
        exact .inr ⟨id, _, by rw [hc]; rfl, rfl⟩
      · cases h
        exact .inl ⟨_, rfl⟩
      · cases h
  · rename_i hpath
    cases hpath
  · cases h

theorem remember_error (cache : Option IdempotencyCache) (path : Path) (e : ServerError) (now : Nat) :
    remember cache path [.error e] now = cache := by
  unfold remember
  split
  · rename_i heq
    cases heq
  · rfl

/-- What a request of another key, or of none, remembers leaves the key alone, unless it evicts. -/
theorem entry_remember_other {cache : Option IdempotencyCache} {path : Path}
    {results : List (Except ServerError IngestResponse)} {now : Nat}
    (hpath : path ≠ .durable (some key))
    (hkept : (cache.bind fun c => c.entry key).isSome →
      ((remember cache path results now).bind fun c => c.entry key).isSome) :
    ((remember cache path results now).bind fun c => c.entry key)
      = cache.bind fun c => c.entry key := by
  unfold remember at hkept ⊢
  split
  · rename_i k response
    cases cache with
    | none => rfl
    | some cache =>
      have hne : key ≠ k := by
        rintro rfl
        exact hpath rfl
      simp only [Option.map_some, Option.bind_some] at hkept ⊢
      cases he : (cache.insert k response now).entry key with
      | some e => rw [IdempotencyCache.entry_insert_of_ne hne he]
      | none =>
        cases hold : cache.entry key with
        | none => rfl
        | some e =>
          rw [hold, he] at hkept
          cases hkept rfl
  · rfl

/-- The end of a round. An `Ok` under the key is the first there is, since the request was running. -/
theorem Once.collect (h : Once key s) {n now call : Nat} {r : Request} {c : Call}
    {made : List (Except ServerError Made)} {results : List (Except ServerError IngestResponse)}
    (hn : s.requests[n]? = some r) (hstage : r.stage = .waiting call made)
    (hc : s.writer.calls[call]? = some c) (hresults : outcomeOf s.settings r.path made c = some results)
    (htidy : Tidy { s with
      cache := remember s.cache r.path results now
      requests := s.requests.set n
        { r with stage := afterRound r.pending, results := r.results ++ results } })
    (hkept : (s.entryOf key).isSome →
      ((remember s.cache r.path results now).bind fun c => c.entry key).isSome) :
    Once key { s with
      cache := remember s.cache r.path results now
      requests := s.requests.set n
        { r with stage := afterRound r.pending, results := r.results ++ results } } := by
  have hrunning : r.stage.running = true := by rw [hstage]; rfl
  have henabled : (remember s.cache r.path results now).isSome := by
    have hold := h.enabled
    unfold remember
    split
    · simpa using hold
    · exact hold
  by_cases hkey : r.HasKey key
  · have hnone := h.entry_none_of_running hn hkey hrunning
    have hshape := h.tidy.called hn hkey hstage
    rw [Request.HasKey] at hkey
    rw [hkey] at hresults
    -- the request is of the durable path and has one event: an error is not remembered, an `Ok` is
    rcases outcomeOf_durable hresults with ⟨e, rfl⟩ | ⟨id, response, hid, rfl⟩
    · refine h.advance hn htidy henabled ?_ (fun _ _ => .inl hrunning) (fun _ _ => hrunning) ?_
      · rw [remember_error]
        rfl
      · intro _ response hmem
        rw [List.mem_append] at hmem
        rcases hmem with hmem | hmem
        · exact h.cached n r response hn hkey hmem
        · simp at hmem
    · -- nothing was cached before, so this is the only `Ok` of the key
      obtain ⟨cache, hcache⟩ := Option.isSome_iff_exists.mp h.enabled
      have hafter : (remember s.cache r.path [.ok response] now).bind (fun c => c.entry key)
          = some ⟨response, now + cache.ttl⟩ := by
        rw [hkey, hcache]
        exact cache.entry_insert_self key response now
      have hfresh : ∀ (m : Nat) (q : Request) (response' : IngestResponse),
          s.requests[m]? = some q → q.HasKey key → .ok response' ∉ q.results := by
        intro m q response' hm hq hmem
        obtain ⟨e, he, -⟩ := h.cached m q response' hm hq hmem
        rw [hnone] at he
        cases he
      refine ⟨htidy, henabled, ?_, ?_, ?_⟩
      · apply h.exclusive_of
        intro m q hm hq hlive
        rcases getElem?_set_cases hm with ⟨rfl, rfl⟩ | ⟨-, hm⟩
        · exact ⟨r, hn, hkey, .inl hrunning⟩
        · exact ⟨q, hm, hq, hlive⟩
      · intro m q response' hm hq hmem
        refine ⟨_, hafter, ?_⟩
        rcases getElem?_set_cases hm with ⟨rfl, rfl⟩ | ⟨-, hm⟩
        · rw [List.mem_append] at hmem
          rcases hmem with hmem | hmem
          · exact absurd hmem (hfresh n r response' hn hkey)
          · rw [List.mem_singleton] at hmem
            cases hmem
            rfl
        · exact absurd hmem (hfresh m q response' hm hq)
      · intro e _
        refine ⟨n, call, _, getElem?_set_of hn, ?_⟩
        rw [if_pos rfl]
        refine ⟨hkey, ?_, by simp [hshape.1], h.tidy.stored_of_ok hc hid⟩
        rw [hshape.2]
        rfl
  · exact h.advance hn htidy henabled (entry_remember_other hkey hkept) (fun _ _ => .inl hrunning)
      (fun _ _ => hrunning) fun hkey' => absurd hkey' hkey

/-- The write request is one of a request with the key. -/
def ofKey (s : Service) (key : String) (t : Token) : Bool :=
  s.requests.any fun r => decide (r.HasKey key) && r.calls.contains t.call

theorem ofKey_iff {t : Token} : s.ofKey key t = true ↔
    ∃ (n : Nat) (r : Request), s.requests[n]? = some r ∧ r.HasKey key ∧ t.call ∈ r.calls := by
  simp only [ofKey, List.any_eq_true, Bool.and_eq_true, decide_eq_true_eq, List.contains_iff_mem]
  constructor
  · rintro ⟨r, hr, hkey, hcall⟩
    obtain ⟨n, hn⟩ := List.mem_iff_getElem?.mp hr
    exact ⟨n, r, hn, hkey, hcall⟩
  · rintro ⟨n, r, hn, hkey, hcall⟩
    exact ⟨r, List.mem_of_getElem? hn, hkey, hcall⟩

theorem once_step (s : Service) (x : Input) (h : Once key s)
    (hx : s.Serial key x ∧ s.WithinTtl key x ∧ s.NotEvicted key x) : Once key (s.step x) := by
  have heffect := effect s x
  have htidy := tidy_step s x h.tidy
  obtain ⟨hserial, httl, hkept⟩ := hx
  unfold NotEvicted at hkept
  generalize s.step x = s' at heffect htidy hkept
  cases heffect with
  | stay => exact h
  | enter r hcalls hresults hdurable =>
    refine ⟨htidy, h.enabled, ?_, ?_, ?_⟩
    · apply h.exclusive_of
      intro n q hn hkey hlive
      rcases getElem?_concat_cases hn with hn | ⟨-, rfl⟩
      · exact ⟨q, hn, hkey, hlive⟩
      · rcases hlive with hrunning | ⟨j, hj, -⟩
        · rw [(hdurable _ hkey).1] at hrunning
          cases hrunning
        · rw [hcalls] at hj
          cases hj
    · intro n q response hn hkey hmem
      rcases getElem?_concat_cases hn with hn | ⟨-, rfl⟩
      · exact h.cached n q response hn hkey hmem
      · exact absurd hmem (hresults response)
    · intro e he
      obtain ⟨n, j, q, hn, hrest⟩ := h.source e he
      exact ⟨n, j, q, getElem?_append_of hn _, hrest⟩
  | hit n now r k cache cached _ hn _ hpath hcache hget => exact h.hit hn hpath hcache hget htidy
  | miss n now r k cache hx hn hstage hpath hcache hget =>
    by_cases hk : k = key
    · subst hk hx
      exact h.miss hn hpath hcache hget (hserial r hn hstage hpath) (httl r hn hpath) htidy
    · exact h.miss_other hn hpath hcache hk htidy
  | pass n r hn hstage hpath =>
    have hother : ¬ r.HasKey key := by
      intro hkey
      have henabled := h.enabled
      rw [hpath key hkey] at henabled
      cases henabled
    exact h.advance hn htidy h.enabled rfl (fun hkey => absurd hkey hother)
      (fun hkey => absurd hkey hother) fun hkey => absurd hkey hother
  | fail n r pending stage results hn hstage hnext hresults =>
    have hrunning : r.stage.running = true := by rw [hstage]; rfl
    exact h.advance hn htidy h.enabled rfl (fun _ _ => .inl hrunning) (fun _ _ => hrunning)
      fun hkey response hmem => h.cached n r response hn hkey (hresults response hmem)
  | call n r made pending hn hstage => exact h.call hn hstage htidy
  | collect n now call r c made results hn hstage hc hresults =>
    exact h.collect hn hstage hc hresults htidy hkept
  | flush i outcome kept =>
    refine h.of_writer htidy (fun t ht => List.mem_append_left _ ht) fun t hlt ht => ?_
    rcases ht with ht | hway
    · rcases List.mem_append.mp ht with ht | ht
      · exact .inl ht
      · exact .inr (onItsWay_of_mem_flushed ht)
    · exact .inr (BatchWriter.onItsWay_of_step hlt hway)
  | writer y hy =>
    refine h.of_writer htidy (fun _ ht => ht) fun t hlt ht => ?_
    rcases ht with ht | hway
    · exact .inl ht
    · exact .inr (BatchWriter.onItsWay_of_step hlt hway)

/-- A request with a key has one event, so its write request is the first of its call. -/
theorem Tidy.slot_eq_zero (h : s.Tidy) {t : Token} (ht : t ∈ s.stored) {n : Nat} {r : Request}
    (hn : s.requests[n]? = some r) (hkey : r.HasKey key) (hcall : t.call ∈ r.calls) :
    t = ⟨t.call, 0⟩ := by
  obtain ⟨kind, event, hasked⟩ := h.single n r _ hn hkey t.call hcall
  obtain ⟨i, sh, hi, q, hq, rfl⟩ := h.inv.stored t ht
  obtain ⟨c, hc, hsent⟩ := h.inv.writer.origin i sh hi q hq
  have hevents : c.events = [event] := by
    rw [List.getElem?_map, hc] at hasked
    exact congrArg Prod.snd (Option.some.inj hasked)
  have hevent := hsent.event
  rw [hevents] at hevent
  have hslot : q.token.slot = 0 := by
    have hlt := (List.getElem?_eq_some_iff.mp hevent).1
    exact Nat.lt_one_iff.mp hlt
  rw [← hslot]

theorem Once.stored_unique (h : Once key s) {t t' : Token} (ht : t ∈ s.stored) (ht' : t' ∈ s.stored)
    (hkey : s.ofKey key t = true) (hkey' : s.ofKey key t' = true) : t = t' := by
  obtain ⟨n, r, hn, hr, hcall⟩ := ofKey_iff.mp hkey
  obtain ⟨m, r', hm, hr', hcall'⟩ := ofKey_iff.mp hkey'
  have hzero := h.tidy.slot_eq_zero ht hn hr hcall
  have hzero' := h.tidy.slot_eq_zero ht' hm hr' hcall'
  have hnm := h.exclusive n m r r' hn hm hr hr' (.inr ⟨t.call, hcall, .inl (hzero ▸ ht)⟩)
    (.inr ⟨t'.call, hcall', .inl (hzero' ▸ ht')⟩)
  subst hnm
  rw [hn] at hm
  cases hm
  -- the one request has at most one call
  have hone : r.calls.length ≤ 1 := (h.tidy.stage n r _ hn hr).length_calls_le
  have hsame : t.call = t'.call := by
    match hcalls : r.calls with
    | [] => rw [hcalls] at hcall; cases hcall
    | [j] =>
      rw [hcalls, List.mem_singleton] at hcall hcall'
      rw [hcall, hcall']
    | _ :: _ :: _ => rw [hcalls] at hone; simp at hone
  rw [hzero, hzero', hsame]

end Service

theorem length_le_one_of_eq {α : Type} {l : List α} (hnodup : l.Nodup)
    (h : ∀ a ∈ l, ∀ b ∈ l, a = b) : l.length ≤ 1 := by
  match l with
  | [] => simp
  | [_] => simp
  | a :: b :: l =>
    have hab := h a (by simp) b (by simp)
    rw [hab] at hnodup
    simp at hnodup

/-- In every run in which a request with the key is looked up only when all others with it are
settled, and the cache holds on to the key, at most one event is stored for the key, and all requests
with it that return `Ok` return the same id. -/
theorem idempotency_at_most_once_when_serial {settings : Settings} {batching : BatchConfig}
    {hash : String → UInt64} {maxEntries ttl : Nat} {key : String} {xs : List Service.Input}
    (hxs : Allowed Service.step (fun s x => s.Serial key x ∧ s.WithinTtl key x ∧ s.NotEvicted key x)
      (.new settings batching (some (.new hash maxEntries ttl))) xs) :
    let s := run Service.step (.new settings batching (some (.new hash maxEntries ttl))) xs
    (s.stored.filter (s.ofKey key)).length ≤ 1 ∧
    ∀ r ∈ s.requests, ∀ r' ∈ s.requests, r.HasKey key → r'.HasKey key →
      ∀ response response', .ok response ∈ r.results → .ok response' ∈ r'.results →
        response.id = response'.id := by
  intro s
  have honce : Service.Once key s :=
    run_invariant Service.once_step (Service.once_new settings batching hash maxEntries ttl) hxs
  constructor
  · apply length_le_one_of_eq (honce.tidy.nodup.filter _)
    intro t ht t' ht'
    rw [List.mem_filter] at ht ht'
    exact honce.stored_unique ht.1 ht'.1 ht.2 ht'.2
  · intro r hr r' hr' hkey hkey' response response' hmem hmem'
    obtain ⟨n, hn⟩ := List.mem_iff_getElem?.mp hr
    obtain ⟨m, hm⟩ := List.mem_iff_getElem?.mp hr'
    obtain ⟨e, he, hresponse⟩ := honce.cached n r response hn hkey hmem
    obtain ⟨e', he', hresponse'⟩ := honce.cached m r' response' hm hkey' hmem'
    rw [he] at he'
    cases he'
    rw [← hresponse, ← hresponse']

/-! ## Two requests with one key -/

namespace Service

/-- When every request of the service is settled for all to see, any lookup is in order. -/
theorem serial_of_all {s : Service} {key : String} {n now : Nat}
    (h : (s.requests.all fun r => !r.stage.running &&
      (r.calls.isEmpty || r.results.any fun result => result.toOption.isSome)) = true) :
    s.Serial key (.lookup n now) := by
  intro _ _ _ _ m r _ hm _
  have hr := List.all_eq_true.mp h r (List.mem_of_getElem? hm)
  simp only [Bool.and_eq_true, Bool.not_eq_true', Bool.or_eq_true, List.isEmpty_iff,
    List.any_eq_true] at hr
  obtain ⟨hidle, hcalls | ⟨result, hmem, hok⟩⟩ := hr
  · refine ⟨hidle, .inr ?_⟩
    rintro ⟨j, hj, -⟩
    rw [hcalls] at hj
    cases hj
  · cases result with
    | error e => cases hok
    | ok response => exact ⟨hidle, .inl ⟨response, hmem⟩⟩

/-- A durable request with the key `retry-1`. -/
def retryRequest : Input :=
  .ingestSingle (ApiKeySet.ofConfig (fun _ => Sha256.zero) opsConfig) (bearer "s3cret") true
    (some ("retry-1".toList.map fun c => c.toNat.toUInt8))
    { model := "gpt-4o", provider := "openai", costNanodollars := some 0 }

/-- A visit that draws this id. -/
def visitWith (id : BitVec 128) : Nat → Visit :=
  fun _ => ⟨{ sampleSurroundings with freshId := ⟨id⟩ }, ⟨fun _ => none⟩, none⟩

/-- The writer takes the event of a call through a shard and tells the caller. -/
def writeThrough (call shard : Nat) : List Input :=
  [.writer (.pick call), .writer (.send call), .writer (.loop shard .recv),
    .writer (.loop shard .drain), .writer (.loop shard .tick), .flush shard (.ok ()) fun _ => false,
    .writer (.loop shard .reply), .writer (.await call)]

/-- A server with a cache that keeps responses for five minutes. -/
def retryStart : Service :=
  .new sampleSettings .default (some (.new (fun _ => 0) 10000 300000000000))

/-- The retry comes a second after the first request returned. -/
def retryRun : List Input :=
  [retryRequest, .lookup 0 0, .submit 0 (visitWith 1)] ++ writeThrough 0 0 ++
    [.collect 0 0, retryRequest, .lookup 1 1000000000]

/-- The retry comes while the first request waits for its flush. -/
def racingRun : List Input :=
  [retryRequest, retryRequest, .lookup 0 0, .lookup 1 0, .submit 0 (visitWith 1),
    .submit 1 (visitWith 2)] ++ writeThrough 0 0 ++ writeThrough 1 1 ++ [.collect 0 0, .collect 1 0]

end Service

theorem retry_after_return_is_answered :
    let s := run Service.step Service.retryStart Service.retryRun
    (s.stored.filter (s.ofKey "retry-1")).length ≤ 1 ∧
      s.requests.map (fun r => r.results.map fun result => result.toOption.map IngestResponse.id)
        = [[some "00000000000000000000000001"], [some "00000000000000000000000001"]] := by
  have hserial : Allowed Service.step (fun s x => s.Serial "retry-1" x) Service.retryStart
      Service.retryRun :=
    ⟨trivial, Service.serial_of_all (by decide +kernel), trivial, trivial, trivial, trivial, trivial,
      trivial, trivial, trivial, trivial, trivial, trivial, Service.serial_of_all (by decide +kernel),
      trivial⟩
  have hcache : Allowed Service.step (fun s x => s.WithinTtl "retry-1" x ∧ s.NotEvicted "retry-1" x)
      Service.retryStart Service.retryRun := by decide +kernel
  exact ⟨(idempotency_at_most_once_when_serial (allowed_and.mpr ⟨hserial, hcache⟩)).1,
    by decide +kernel⟩

/-- Both requests miss, both events are stored, and the two responses have different ids. The cache
did all it can: nothing expired and nothing was evicted. -/
theorem racing_retries_store_twice :
    let s := run Service.step Service.retryStart Service.racingRun
    Allowed Service.step (fun s x => s.WithinTtl "retry-1" x ∧ s.NotEvicted "retry-1" x)
        Service.retryStart Service.racingRun ∧
      (s.stored.filter (s.ofKey "retry-1")).length = 2 ∧
      s.requests.map (fun r => r.results.map fun result => result.toOption.map IngestResponse.id)
        = [[some "00000000000000000000000001"], [some "00000000000000000000000002"]] := by
  decide +kernel

end Keplor.Server
