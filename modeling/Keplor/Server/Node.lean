import Keplor.Lib.Aggregate
import Keplor.Server.Posted
import Keplor.Server.Reported
import Keplor.Store.Rotation

/-!
# The server over its store

`Service` leaves open what an append does: a flush returns whatever it returns. `BusyStore` leaves open
who appends. Here the one is put on top of the other. The loop of a shard hands its batch to
`append_batch_durable`, the store writes it tier by tier while everything else goes on, and what the
store returns is what the loop makes its replies of (`append_only`).

A run of the two together is a run of the service, with outcomes the store has earned, and a run of the
store. So what is known of either holds here, and it meets in the middle: an event the service counts
as stored has its row in the engine of its tier (`Inv.stored`).
-/

set_option autoImplicit false

namespace Keplor.Server

open Keplor.Core Keplor.Lib Keplor.Pricing Keplor.Store

/-- The pipeline and the store under it. `appending` says which call of `append_batch_durable` the loop
of a shard waits for. -/
structure Node (db : Keplordb) where
  service : Service
  store : BusyStore db
  appending : Nat → Option Nat

namespace Node

variable {db : Keplordb}

def new (settings : Settings) (config : BatchConfig) (cache : Option IdempotencyCache)
    (start : KdbStore db) : Node db :=
  ⟨.new settings config cache, .idle start, fun _ => none⟩

/-- The batch the loop of a shard wants appended. -/
def batchOf (w : BatchWriter) (i : Nat) : Option (List WriteRequest) :=
  match w.shards[i]? with
  | none => none
  | some sh =>
    match sh.phase with
    | .flushing batch _ => some batch
    | _ => none

inductive Input (tf : TextFormats) where
  /-- a task of the pipeline; an append ends when the store says so -/
  | service (x : Service.Input)
  /-- the loop of a shard calls `append_batch_durable`; `order` is the one of the hash map -/
  | append (shard : Nat) (order : IterOrder (String × List LogEvent))
  /-- the call has returned -/
  | appended (shard : Nat)
  /-- or its task died -/
  | died (shard : Nat) (message : String)
  /-- anything else that uses the store, and the turns of the appends -/
  | store (x : BusyStore.Input tf)

/-- The flush of a shard is over. -/
def isFlush : Service.Input → Bool
  | .flush _ _ _ => true
  | _ => false

def isAppend {tf : TextFormats} : BusyStore.Input tf → Bool
  | .append _ _ _ => true
  | _ => false

/-- The sub-batch with the event of a write request has been written. -/
def written (w : BatchWriter) (a : AppendCall) (t : Token) : Bool :=
  (Service.eventAt w t).any fun e => (a.left.map Prod.fst).all fun tier => tier != e.tier

/-- The loop of a shard goes on with what its append returned. -/
def finish (s : Node db) (i : Nat) (a : AppendCall) (outcome : Except StoreError Unit) : Node db :=
  { s with
    service := s.service.step (.flush i outcome (written s.service.writer a))
    appending := Function.update s.appending i none }

/-- The call of `append_batch_durable` a shard waits for. -/
def call (s : Node db) (i : Nat) : Option AppendCall :=
  (s.appending i).bind fun k => s.store.appends[k]?

variable (ro : Rotation db) (tf : TextFormats)

def step (s : Node db) : Input tf → Node db
  | .service x => if isFlush x then s else { s with service := s.service.step x }
  | .append i order =>
    match s.appending i, batchOf s.service.writer i with
    | none, some batch =>
      let events := batch.map WriteRequest.event
      { s with
        store := s.store.step tf ro
          (.append events (order.arrange (byTier tf events)) (order.perm _))
        appending := Function.update s.appending i (some s.store.appends.length) }
    | _, _ => s
  | .appended i =>
    match s.call i with
    | none => s
    | some a =>
      match a.outcome with
      | none => s
      | some outcome => s.finish i a outcome
  | .died i message =>
    match s.call i with
    | none => s
    | some a => s.finish i a (.error (.internal message))
  | .store x => if isAppend x then s else { s with store := s.store.step tf ro x }

/-! ## 1. The two halves -/

variable {ro} {tf}

/-- The inputs of the service that a run of both comes down to. -/
def Input.posts : Input tf → List Service.Input
  | .service x => [x]
  | _ => []

/-- The service takes a step of its own, or ends a flush, or none. -/
theorem service_step (ro : Rotation db) (s : Node db) (x : Input tf) :
    (s.step ro tf x).service = s.service ∨
      ∃ y, (s.step ro tf x).service = s.service.step y ∧ (isFlush y = true ∨ y ∈ x.posts) := by
  have hfinish : ∀ i a outcome, ∃ y, (s.finish i a outcome).service = s.service.step y ∧
      (isFlush y = true ∨ y ∈ x.posts) := fun i a outcome =>
    ⟨.flush i outcome (written s.service.writer a), rfl, .inl rfl⟩
  cases x with
  | service y =>
    rw [step]
    split
    · exact .inl rfl
    · exact .inr ⟨y, rfl, .inr (List.mem_singleton_self y)⟩
  | append i order =>
    rw [step]
    split
    · exact .inl rfl
    · exact .inl rfl
  | appended i =>
    rw [step]
    split
    · exact .inl rfl
    · split
      · exact .inl rfl
      · exact .inr (hfinish _ _ _)
  | died i message =>
    rw [step]
    split
    · exact .inl rfl
    · exact .inr (hfinish _ _ _)
  | store y =>
    rw [step]
    split
    · exact .inl rfl
    · exact .inl rfl

/-- The store takes a step, or none. -/
theorem store_step (ro : Rotation db) (s : Node db) (x : Input tf) :
    (s.step ro tf x).store = s.store ∨ ∃ y, (s.step ro tf x).store = s.store.step tf ro y := by
  cases x with
  | service y =>
    rw [step]
    split
    · exact .inl rfl
    · exact .inl rfl
  | append i order =>
    rw [step]
    split
    · rename_i batch _ _
      exact .inr ⟨.append (batch.map WriteRequest.event) _ (order.perm _), rfl⟩
    · exact .inl rfl
  | appended i =>
    rw [step]
    split
    · exact .inl rfl
    · split
      · exact .inl rfl
      · exact .inl rfl
  | died i message =>
    rw [step]
    split
    · exact .inl rfl
    · exact .inl rfl
  | store y =>
    rw [step]
    split
    · exact .inl rfl
    · exact .inr ⟨y, rfl⟩

/-! ## 2. Batches on their way -/

theorem batchOf_eq_some {w : BatchWriter} {i : Nat} {batch : List WriteRequest} :
    batchOf w i = some batch ↔
      ∃ sh last, w.shards[i]? = some sh ∧ sh.phase = .flushing batch last := by
  unfold batchOf
  constructor
  · intro h
    split at h
    · cases h
    · rename_i sh hi
      split at h
      · rename_i hp
        cases h
        exact ⟨sh, _, hi, hp⟩
      · cases h
  · rintro ⟨sh, last, hi, hp⟩
    simp only [hi, hp]

/-- Nothing but the end of its append takes the batch from a shard. -/
theorem batchOf_writer_step {w : BatchWriter} {y : BatchWriter.Input} {i : Nat}
    {batch : List WriteRequest} (hy : ∀ outcome, y ≠ .loop i (.appended outcome))
    (h : batchOf w i = some batch) : batchOf (w.step y) i = some batch := by
  obtain ⟨sh, last, hi, hp⟩ := batchOf_eq_some.mp h
  have hset : ∀ {j : Nat} {sh₀ sh' : Shard}, w.shards[j]? = some sh₀ →
      (j = i → sh₀ = sh → sh'.phase = .flushing batch last) →
      ∃ sh₁ last, (w.shards.set j sh')[i]? = some sh₁ ∧ sh₁.phase = .flushing batch last := by
    intro j sh₀ sh' hj hphase
    refine ⟨_, last, getElem?_set_of hi, ?_⟩
    split
    · rename_i hji
      subst hji
      rw [hi] at hj
      exact hphase rfl (Option.some.inj hj).symm
    · exact hp
  have heffect := BatchWriter.effect w y
  generalize w.step y = w' at heffect
  cases heffect with
  | nothing => exact h
  | begin kind events _ => exact h
  | turn hn hturn t => exact h
  | deliver hn hcancelled hevent hj =>
    refine batchOf_eq_some.mpr (hset hj fun _ hsame => ?_)
    rw [← hp, ← hsame]
    rfl
  | @loop j z sh₀ hx hj =>
    refine batchOf_eq_some.mpr (hset hj fun hji hsame => ?_)
    subst hji hsame
    have heffect := Shard.effect w.batchSize w.dropped z sh₀
    generalize sh₀.step w.batchSize w.dropped z = sh' at heffect
    cases heffect with
    | nothing => exact hp
    | appended hp' hz => exact absurd (hz ▸ hx) (hy _)
    | take hreceiving | flush hreceiving =>
      rcases hreceiving with h | h <;> rw [hp] at h <;> cases h
    | rest hp' | leave hp' | reply hp' | finish hp' => rw [hp] at hp'; cases hp'
  | shutdown => exact h
  | drop _ => exact h

/-- Of the service's steps too, only the end of a flush does. -/
theorem batchOf_service_step {s : Service} {x : Service.Input} {i : Nat} {batch : List WriteRequest}
    (hx : ∀ outcome kept, x ≠ .flush i outcome kept) (h : batchOf s.writer i = some batch) :
    batchOf (s.step x).writer i = some batch := by
  rcases s.writer_move x with hw | ⟨y, hw, hflush⟩
  · rw [hw]
    exact h
  · rw [hw]
    refine batchOf_writer_step (fun outcome heq => ?_) h
    obtain ⟨kept, hkept⟩ := hflush i outcome heq
    exact hx outcome kept hkept

/-- An append keeps its number and its events. -/
theorem append_step (ro : Rotation db) {s : BusyStore db} {k : Nat} {a : AppendCall}
    (hk : s.appends[k]? = some a) (x : BusyStore.Input tf) :
    ∃ a', (s.step tf ro x).appends[k]? = some a' ∧ a'.events = a.events := by
  have hset : ∀ {m : Nat} {a₀ a₁ : AppendCall}, s.appends[m]? = some a₀ → a₁.events = a₀.events →
      ∃ a', (s.appends.set m a₁)[k]? = some a' ∧ a'.events = a.events := by
    intro m a₀ a₁ hm hsame
    refine ⟨_, getElem?_set_of hk, ?_⟩
    split
    · rename_i hmk
      subst hmk
      rw [hk] at hm
      cases hm
      exact hsame
    · rfl
  cases x with
  | append events visit hvisit => exact ⟨a, getElem?_append_of hk _, rfl⟩
  | appendTurn m =>
    rw [BusyStore.step]
    split
    · exact ⟨a, hk, rfl⟩
    · rename_i a₀ hm
      rw [BusyStore.appendNext]
      split
      · exact ⟨a, hk, rfl⟩
      · exact hset hm rfl
      · split
        · exact hset hm rfl
        · exact hset hm rfl
  | checkpointTurn m =>
    rw [BusyStore.step]
    split
    · exact ⟨a, hk, rfl⟩
    · rw [BusyStore.appends_checkpointNext]
      exact ⟨a, hk, rfl⟩
  | checkpoint | delete _ _ | collect _ _ | openTier _ => exact ⟨a, hk, rfl⟩

/-- The shard has a batch, and its append is an append of the events of that batch. -/
def Waiting (s : Node db) (i k : Nat) : Prop :=
  ∃ batch a, batchOf s.service.writer i = some batch ∧ s.store.appends[k]? = some a ∧
    a.events = batch.map WriteRequest.event

/-! ## 3. What is stored has a row -/

/-- The event of the write request has its row in the engine of its tier. -/
def HasRow (tf : TextFormats) (s : Node db) (t : Token) : Prop :=
  ∃ e, Service.eventAt s.service.writer t = some e ∧ s.store.Holds e.tier (toLogEvent tf e)

structure Inv (tf : TextFormats) (ro : Rotation db) (start : KdbStore db) (s : Node db) : Prop where
  service : s.service.Inv
  sound : s.store.Sound tf ro start
  waiting : ∀ i k, s.appending i = some k → s.Waiting i k
  stored : ∀ t ∈ s.service.stored, s.HasRow tf t

variable {start : KdbStore db} {s : Node db}

/-- A request of a batch is for the event its token names. -/
theorem eventAt_of_batchOf (h : s.service.Inv) {i : Nat} {batch : List WriteRequest}
    (hbatch : batchOf s.service.writer i = some batch) {q : WriteRequest} (hq : q ∈ batch) :
    Service.eventAt s.service.writer q.token = some q.event := by
  obtain ⟨sh, last, hi, hp⟩ := batchOf_eq_some.mp hbatch
  have haccepted : q ∈ sh.accepted := by
    apply (h.writer.shard i sh hi).mem_accepted_of_queued
    simp [Shard.queued, Shard.undecided, hp, hq]
  obtain ⟨c, hc, hsent⟩ := h.writer.origin i sh hi q haccepted
  rw [Service.eventAt, hc, Option.bind_some, hsent.event]

/-- A shard that waits, waits for an append of its own batch. -/
theorem Inv.call (h : s.Inv tf ro start) {i : Nat} {a : AppendCall} (hcall : s.call i = some a) :
    ∃ batch, batchOf s.service.writer i = some batch ∧ a.events = batch.map WriteRequest.event ∧
      s.store.Writes tf a := by
  obtain ⟨k, hk, ha⟩ := Option.bind_eq_some_iff.mp hcall
  obtain ⟨batch, a', hbatch, ha', hevents⟩ := h.waiting i k hk
  rw [ha] at ha'
  cases ha'
  exact ⟨batch, hbatch, hevents, h.sound.appends k a ha⟩

/-- What the end of a flush counts as stored has been written. -/
theorem Inv.hasRow_of_flushed (h : s.Inv tf ro start) {i : Nat} {a : AppendCall}
    (hcall : s.call i = some a) {outcome : Except StoreError Unit}
    (hok : outcome = .ok () → a.outcome = some (.ok ())) {t : Token}
    (ht : t ∈ Service.flushed s.service.writer i outcome (written s.service.writer a)) :
    s.HasRow tf t := by
  obtain ⟨batch, hbatch, hevents, hwrites⟩ := h.call hcall
  obtain ⟨sh, last, hi, hp⟩ := batchOf_eq_some.mp hbatch
  have hrow : ∀ q ∈ batch, (∃ p ∈ a.left, p.1 = q.event.tier) ∨
      s.store.Holds q.event.tier (toLogEvent tf q.event) := by
    intro q hq
    have hmem : q.event ∈ a.events := by
      rw [hevents]
      exact List.mem_map_of_mem hq
    exact (hwrites.rows q.event hmem).imp_left fun ⟨p, hp, htier, _⟩ => ⟨p, hp, htier⟩
  simp only [Service.flushed, hi, hp] at ht
  cases outcome with
  | ok _ =>
    obtain ⟨q, hq, rfl⟩ := List.mem_map.mp ht
    refine ⟨q.event, eventAt_of_batchOf h.service hbatch hq, ?_⟩
    rcases hrow q hq with ⟨p, hp, -⟩ | hholds
    · rw [hwrites.done (hok rfl)] at hp
      cases hp
    · exact hholds
  | error e =>
    obtain ⟨ht, hwritten⟩ := List.mem_filter.mp ht
    obtain ⟨q, hq, rfl⟩ := List.mem_map.mp ht
    have hevent := eventAt_of_batchOf h.service hbatch hq
    refine ⟨q.event, hevent, ?_⟩
    rcases hrow q hq with ⟨p, hp, htier⟩ | hholds
    · -- its tier is among those left, so it was not kept
      rw [written, hevent, Option.any_some, List.all_eq_true] at hwritten
      have hne := hwritten p.1 (List.mem_map_of_mem hp)
      rw [htier] at hne
      simp at hne
    · exact hholds

theorem HasRow.service_step {t : Token} (h : s.HasRow tf t) (x : Service.Input) :
    HasRow tf { s with service := s.service.step x } t := by
  obtain ⟨e, he, hholds⟩ := h
  exact ⟨e, Service.eventAt_step he, hholds⟩

theorem HasRow.store_step {t : Token} (h : s.HasRow tf t) (x : BusyStore.Input tf) :
    HasRow tf { s with store := s.store.step tf ro x } t := by
  obtain ⟨e, he, hholds⟩ := h
  exact ⟨e, he, (BusyStore.follows_step s.store x).holds hholds⟩

theorem inv_new (settings : Settings) (config : BatchConfig) (cache : Option IdempotencyCache) :
    Inv tf ro start (new settings config cache start) := by
  refine ⟨Service.inv_new settings config cache, BusyStore.sound_run start [], ?_, ?_⟩
  · intro i k hk
    cases hk
  · intro t ht
    cases ht

/-- Only the end of a flush stores anything. -/
theorem stored_service_step {s : Service} {x : Service.Input} (hx : isFlush x = false) :
    (s.step x).stored = s.stored := by
  have henter : ∀ keys header path stage events results,
      (s.enter keys header path stage events results).stored = s.stored := by
    intro keys header path stage events results
    unfold Service.enter
    split <;> rfl
  cases x with
  | ingestSingle keys header durable idempotencyKey event =>
    rw [Service.step, Service.ingestSingle]
    split
    · exact henter _ _ _ _ _ _
    · exact henter _ _ _ _ _ _
  | ingestBatch keys header durableHeader events =>
    rw [Service.step, Service.ingestBatch]
    split
    · exact henter _ _ _ _ _ _
    · exact henter _ _ _ _ _ _
  | lookup n now =>
    simp only [Service.step, Service.lookup]
    repeat' split
    all_goals rfl
  | submit n visits =>
    simp only [Service.step, Service.submit, Service.call]
    repeat' split
    all_goals rfl
  | collect n now =>
    simp only [Service.step, Service.collect]
    repeat' split
    all_goals rfl
  | flush i outcome kept => cases hx
  | writer y =>
    rw [Service.step]
    split <;> rfl

/-- A task of the pipeline moves; no flush ends. -/
theorem Inv.serviceStep (h : s.Inv tf ro start) {x : Service.Input} (hx : isFlush x = false) :
    Inv tf ro start { s with service := s.service.step x } := by
  have hnot : ∀ i outcome kept, x ≠ .flush i outcome kept := by
    rintro i outcome kept rfl
    cases hx
  refine ⟨Service.inv_step s.service x h.service, h.sound, fun i k hk => ?_, fun t ht => ?_⟩
  · obtain ⟨batch, a, hbatch, ha, hevents⟩ := h.waiting i k hk
    exact ⟨batch, a, batchOf_service_step (hnot i) hbatch, ha, hevents⟩
  · have hold : t ∈ s.service.stored := by
      rw [← stored_service_step hx]
      exact ht
    exact (h.stored t hold).service_step x

theorem Inv.storeStep (h : s.Inv tf ro start) (x : BusyStore.Input tf) :
    Inv tf ro start { s with store := s.store.step tf ro x } := by
  refine ⟨h.service, BusyStore.sound_step start s.store x h.sound, fun i k hk => ?_, fun t ht => ?_⟩
  · obtain ⟨batch, a, hbatch, ha, hevents⟩ := h.waiting i k hk
    obtain ⟨a', ha', hsame⟩ := append_step ro ha x
    exact ⟨batch, a', hbatch, ha', hsame.trans hevents⟩
  · exact (h.stored t ht).store_step x

/-- A shard goes on with the outcome of its append. -/
theorem Inv.finish (h : s.Inv tf ro start) {i : Nat} {a : AppendCall} (hcall : s.call i = some a)
    {outcome : Except StoreError Unit} (hok : outcome = .ok () → a.outcome = some (.ok ())) :
    (s.finish i a outcome).Inv tf ro start := by
  refine ⟨Service.inv_step s.service (.flush i outcome (written s.service.writer a)) h.service,
    h.sound, fun j k hk => ?_, fun t ht => ?_⟩
  · rw [Node.finish] at hk
    simp only [Function.update_apply] at hk
    split at hk
    · cases hk
    · rename_i hji
      obtain ⟨batch, a', hbatch, ha', hevents⟩ := h.waiting j k hk
      refine ⟨batch, a', batchOf_service_step (fun outcome kept heq => ?_) hbatch, ha', hevents⟩
      cases heq
      exact hji rfl
  · have hrow : s.HasRow tf t := by
      rcases List.mem_append.mp ht with hold | hflushed
      · exact h.stored t hold
      · exact h.hasRow_of_flushed hcall hok hflushed
    exact hrow.service_step (.flush i outcome (written s.service.writer a))

theorem inv_step (s : Node db) (x : Input tf) (h : s.Inv tf ro start) :
    (s.step ro tf x).Inv tf ro start := by
  cases x with
  | service y =>
    rw [step]
    split
    · exact h
    · rename_i hy
      exact h.serviceStep (by simpa using hy)
  | append i order =>
    rw [step]
    split
    · rename_i batch hnone hbatch
      have hnext := h.storeStep
        (.append (batch.map WriteRequest.event) (order.arrange (byTier tf _)) (order.perm _))
      refine ⟨hnext.service, hnext.sound, fun j k hk => ?_, hnext.stored⟩
      simp only [Function.update_apply] at hk
      split at hk
      · rename_i hji
        cases hk
        subst hji
        exact ⟨batch, _, hbatch, List.getElem?_concat_length, rfl⟩
      · exact hnext.waiting j k hk
    · exact h
  | appended i =>
    rw [step]
    split
    · exact h
    · rename_i a hcall
      split
      · exact h
      · rename_i outcome hout
        exact h.finish hcall fun hok => by rw [hout, hok]
  | died i message =>
    rw [step]
    split
    · exact h
    · rename_i a hcall
      exact h.finish hcall fun hok => by cases hok
  | store y =>
    rw [step]
    split
    · exact h
    · exact h.storeStep y

theorem inv_run (ro : Rotation db) (settings : Settings) (config : BatchConfig)
    (cache : Option IdempotencyCache) (start : KdbStore db) (xs : List (Input tf)) :
    (run (step ro tf) (new settings config cache start) xs).Inv tf ro start :=
  run_invariant_of_step inv_step (inv_new settings config cache) xs

/-! ## 4. A run of both is a run of each -/

theorem service_run (ro : Rotation db) (settings : Settings) (config : BatchConfig)
    (cache : Option IdempotencyCache) (start : KdbStore db) (xs : List (Input tf)) :
    ∃ ys, (run (step ro tf) (new settings config cache start) xs).service
        = run Service.step (.new settings config cache) ys ∧
      ∀ y ∈ ys, isFlush y = true ∨ y ∈ xs.flatMap Input.posts := by
  refine List.reverseRecOn xs ⟨[], rfl, by simp⟩ ?_
  rintro xs x ⟨ys, hys, hfrom⟩
  have hold : ∀ y ∈ ys, isFlush y = true ∨ y ∈ (xs ++ [x]).flatMap Input.posts := fun y hy =>
    (hfrom y hy).imp_right fun h => by
      rw [List.flatMap_append]
      exact List.mem_append_left _ h
  rw [run_append, run_cons, run_nil]
  rcases service_step ro (run (step ro tf) (new settings config cache start) xs) x with
    h | ⟨y, h, hy⟩
  · exact ⟨ys, h.trans hys, hold⟩
  · refine ⟨ys ++ [y], ?_, fun z hz => ?_⟩
    · rw [h, hys, run_append]
      rfl
    · rcases List.mem_append.mp hz with hz | hz
      · exact hold z hz
      · rw [List.mem_singleton.mp hz]
        refine hy.imp_right fun h => ?_
        rw [List.flatMap_append, List.flatMap_singleton]
        exact List.mem_append_right _ h

theorem store_run (s : Node db) (xs : List (Input tf)) :
    ∃ ys, (run (step ro tf) s xs).store = run (BusyStore.step tf ro) s.store ys := by
  induction xs generalizing s with
  | nil => exact ⟨[], rfl⟩
  | cons x xs ih =>
    obtain ⟨ys, hys⟩ := ih (s.step ro tf x)
    rcases store_step ro s x with h | ⟨y, h⟩
    · exact ⟨ys, by rw [run_cons, hys, h]⟩
    · exact ⟨y :: ys, by rw [run_cons, hys, h, run_cons]⟩

/-- What the service has been handed came in with the inputs of the run. -/
theorem sourced_run (ro : Rotation db) (settings : Settings) (config : BatchConfig)
    (cache : Option IdempotencyCache) (start : KdbStore db) (xs : List (Input tf)) :
    Service.Sourced (Supply.of (xs.flatMap Input.posts))
      (run (step ro tf) (new settings config cache start) xs).service := by
  obtain ⟨ys, hys, hfrom⟩ := service_run ro settings config cache start xs
  rw [hys]
  refine Service.sourced_run settings config cache ys fun y hy => ?_
  rcases hfrom y hy with hflush | hmem
  · -- the end of a flush brings nothing in
    refine ⟨fun keys header payload h => ?_, fun visit h => ?_⟩
    · cases h <;> cases hflush
    · cases h
      cases hflush
  · exact Supply.has_of_mem hmem

/-! ## 5. From the receipt to the page -/

/-- Where a row that is held shows, a query of the store sees it. -/
theorem sees_of_settled {b : BusyStore db} {tier : String} {r : LogEvent} (hholds : b.Holds tier r)
    (h : b.Settled ro start tier r) :
    b.store.Sees r ∨ b.Dismissed tier r ∨ BusyStore.BuriedIn ro start tier r := by
  obtain ⟨eng, hget⟩ := Option.isSome_iff_exists.mp hholds.1
  rcases h with (⟨eng', hheld, hvisible⟩ | hgone) | hburied
  · rw [KdbStore.held_of_get hget] at hheld
    cases hheld
    exact .inl (KdbStore.sees_iff.mpr ⟨tier, eng, hget, hvisible⟩)
  · exact .inr (.inl hgone)
  · exact .inr (.inr hburied)

/-- The receipt of a durable request is that of a payload, and the payload's event has its row. -/
theorem row_of_receipt {settings : Settings} {config : BatchConfig} {hash : String → UInt64}
    {idempotency : Option (Nat × Nat)} {xs : List (Input settings.tf)} {s : Node db}
    (hs : s = run (step ro settings.tf)
      (new settings config (idempotency.map fun p => .new hash p.1 p.2) start) xs)
    {n : Nat} {r : Request} {response : IngestResponse} (hn : s.service.requests[n]? = some r)
    (hmem : .ok response ∈ r.results) (hpath : r.path ≠ .fireAndForget) :
    ∃ (m : Nat) (r' : Request) (visit : Visit) (payload : IngestEvent) (made : Made),
      s.service.requests[m]? = some r' ∧ (m = n ∨ ∃ key, r.HasKey key ∧ r'.HasKey key) ∧
      (Supply.of (xs.flatMap Input.posts)).visited visit ∧
      (Supply.of (xs.flatMap Input.posts)).posted r'.keys r'.header payload ∧
      processEvent visit.env visit.catalog payload (r'.identity settings).1 (r'.identity settings).2
        = pure made ∧
      response = respond settings made.1.id made ∧
      s.store.Holds made.1.tier (toLogEvent settings.tf made.1) := by
  subst hs
  have hinv := inv_run ro settings config (idempotency.map fun p => .new hash p.1 p.2) start xs
  have hsourced := sourced_run ro settings config
    (idempotency.map fun p => .new hash p.1 p.2) start xs
  obtain ⟨ys, hys, -⟩ := service_run ro settings config
    (idempotency.map fun p => .new hash p.1 p.2) start xs
  generalize run (step ro settings.tf) (new settings config _ start) xs = s at hinv hsourced hys hn
  have hhonest : s.service.Honest := by
    rw [hys]
    exact Service.honest_run settings config hash idempotency ys
  have hsettings : s.service.settings = settings := by
    rw [hys]
    exact run_unchanged Service.settings_step _ ys
  obtain ⟨m, r', hm, hwhose, t, ht, hcall, e, he, hresponse⟩ := hhonest.backed hn hmem hpath
  obtain ⟨visit, payload, made, hvisited, hposted, hmade, rfl⟩ := hsourced.eventAt he hm hcall
  obtain ⟨e', he', hholds⟩ := hinv.stored t ht
  rw [he] at he'
  cases he'
  rw [hsettings] at hmade hresponse
  refine ⟨m, r', visit, payload, made, hm, hwhose, hvisited, hposted, hmade, ?_, hholds⟩
  rw [hresponse, respond_eq_receipt (consistent_of_processEvent hmade)]

end Node

/-- Read your writes, over every run of the server from any content of its store. Take a durable
request, single or batch, that has been answered `Ok`, fresh or out of the idempotency cache. The
answer is the receipt of a payload that was posted with the request's credentials, or with those of
one with the same idempotency key, and the row of its event is in the engine of its tier from then on.
Once a checkpoint that began after the answer has returned `Ok`, every query the event satisfies, with
room for all that matches, lists what `reported` says of the payload. The exceptions are an event
somebody asked to be removed, by id or by an age limit on its tier, and one that a tombstone from
before the start hides. -/
theorem durable_events_are_listed (db : Keplordb) (hdoc : db.FiltersAsDocumented) (ro : Rotation db)
    (settings : Settings) (config : BatchConfig) (hash : String → UInt64)
    (idempotency : Option (Nat × Nat)) (start : KdbStore db)
    (before after : List (Node.Input settings.tf))
    (hformats : ∀ visit, (Supply.of (before.flatMap Node.Input.posts)).visited visit →
      visit.env.tf = settings.tf) :
    let s₀ := run (Node.step ro settings.tf)
      (.new settings config (idempotency.map fun p => .new hash p.1 p.2) start) before
    let s := run (Node.step ro settings.tf) s₀ (.store .checkpoint :: after)
    ∀ (n : Nat) (r : Request) (response : IngestResponse), s₀.service.requests[n]? = some r →
      .ok response ∈ r.results → r.path ≠ .fireAndForget →
      ∃ (m : Nat) (r' : Request) (visit : Visit) (payload : IngestEvent) (made : Made),
        s₀.service.requests[m]? = some r' ∧ (m = n ∨ ∃ key, r.HasKey key ∧ r'.HasKey key) ∧
        (Supply.of (before.flatMap Node.Input.posts)).posted r'.keys r'.header payload ∧
        processEvent visit.env visit.catalog payload (r'.identity settings).1
          (r'.identity settings).2 = pure made ∧
        response = respond settings made.1.id made ∧
        s.store.Holds made.1.tier (toLogEvent settings.tf made.1) ∧
        ∀ c, s.store.checkpoints[s₀.store.checkpoints.length]? = some c →
          c.outcome = some (.ok ()) → PayloadReads settings.tf payload →
          Lists settings.tf s.store.store made.1
              (reported visit.env payload (r'.identity settings).1 response) ∨
            s.store.Dismissed made.1.tier (toLogEvent settings.tf made.1) ∨
            BusyStore.BuriedIn ro start made.1.tier (toLogEvent settings.tf made.1) := by
  intro s₀ s n r response hn hmem hpath
  obtain ⟨m, r', visit, payload, made, hm, hwhose, hvisited, hposted, hmade, hresponse, hholds₀⟩ :=
    Node.row_of_receipt (s := s₀) rfl hn hmem hpath
  have hsound₀ := (Node.inv_run ro settings config
    (idempotency.map fun p => .new hash p.1 p.2) start before).sound
  -- the store's side of the second half of the run
  obtain ⟨ys, hys⟩ : ∃ ys, s.store
      = run (BusyStore.step settings.tf ro) s₀.store (.checkpoint :: ys) :=
    Node.store_run (s₀.step ro settings.tf (.store .checkpoint)) after
  have hholds : s.store.Holds made.1.tier (toLogEvent settings.tf made.1) := by
    rw [hys]
    have hstep : ∀ (b : BusyStore db) (x : BusyStore.Input settings.tf),
        b.Holds made.1.tier (toLogEvent settings.tf made.1) →
        (b.step settings.tf ro x).Holds made.1.tier (toLogEvent settings.tf made.1) :=
      fun b x h => (BusyStore.follows_step b x).holds h
    exact run_invariant_of_step hstep hholds₀ _
  refine ⟨m, r', visit, payload, made, hm, hwhose, hposted, hmade, hresponse, hholds, ?_⟩
  intro c hc hok hreads
  have hsettled : s.store.Settled ro start made.1.tier (toLogEvent settings.tf made.1) := by
    rw [hys] at hc ⊢
    exact BusyStore.settled_after_checkpoint hsound₀ hholds₀ ys hc hok
  refine (Node.sees_of_settled hholds hsettled).imp_left fun hsees => ?_
  have htf := hformats visit hvisited
  rw [hresponse]
  have hlists := lists_of_sees hdoc htf.symm hmade (htf ▸ hreads) (htf ▸ hsees)
  rwa [htf] at hlists

/-! A payload goes through the first shard into the log of a tier that is opened for it, and is listed
after the next checkpoint. -/

theorem walDb_filtersAsDocumented : walDb.FiltersAsDocumented := fun _ _ => rfl

def emptyStart : KdbStore walDb where
  engines := []

def listedBefore : List (Node.Input sampleSettings.tf) :=
  ([.ingestSingle (ApiKeySet.ofConfig (fun _ => Sha256.zero) opsConfig) (bearer "s3cret") true none
      spoofingEvent,
    .lookup 0 0, .submit 0 (Service.visitWith 1), .writer (.pick 0), .writer (.send 0),
    .writer (.loop 0 .recv), .writer (.loop 0 .drain), .writer (.loop 0 .tick)] :
      List Service.Input).map .service ++
  [.append 0 (.asInserted _), .store (.appendTurn 0), .store (.appendTurn 0), .appended 0] ++
  ([.writer (.loop 0 .reply), .writer (.await 0), .collect 0 0] : List Service.Input).map .service

def listedAfter : List (Node.Input sampleSettings.tf) :=
  [.store (.checkpointTurn 0), .store (.checkpointTurn 0)]

def listedNode : Node walDb :=
  run (Node.step walRotation sampleSettings.tf) (.new sampleSettings .default none emptyStart)
    listedBefore

/-- All that is posted in the run is one payload. -/
theorem supply_listedBefore :
    (∀ visit, (Supply.of (listedBefore.flatMap Node.Input.posts)).visited visit →
      ∃ k, Service.visitWith 1 k = visit) ∧
    ∀ keys header payload,
      (Supply.of (listedBefore.flatMap Node.Input.posts)).posted keys header payload →
      payload = spoofingEvent := by
  constructor
  · rintro visit ⟨x, hx, hpays⟩
    cases hpays with
    | submit n visits k =>
      have hvisits : n = 0 ∧ visits = Service.visitWith 1 := by
        simpa [listedBefore, Node.Input.posts] using hx
      exact ⟨k, by rw [hvisits.2]⟩
  · rintro keys header payload ⟨x, hx, hposts⟩
    cases hposts with
    | single durable idempotencyKey =>
      simp [listedBefore, Node.Input.posts] at hx
      exact hx.2.2.2.2
    | batch durableHeader events hmem => simp [listedBefore, Node.Input.posts] at hx

theorem durable_events_are_listed_of_one :
    let s := run (Node.step walRotation sampleSettings.tf) listedNode (.store .checkpoint :: listedAfter)
    ∃ visit answer, queryEvents textFormats "" none s.store.store ⟨[], []⟩ {} = .ok answer ∧
      reported visit spoofingEvent (some "ops") retryResponse ∈ answer.events := by
  intro s
  have hrequests : listedNode.service.requests.map (fun r => (r.path, r.auth, r.results))
      = [(.durable none, some ⟨"ops", "free"⟩, [.ok retryResponse])] := by
    decide +kernel
  obtain ⟨r, hn, hr⟩ : ∃ r, listedNode.service.requests[0]? = some r ∧
      (r.path, r.auth, r.results) = (.durable none, some ⟨"ops", "free"⟩, [.ok retryResponse]) := by
    rw [← Option.map_eq_some_iff, ← List.getElem?_map, hrequests]
    rfl
  obtain ⟨hpath, hrest⟩ := Prod.mk.inj hr
  obtain ⟨hauth, hresults⟩ := Prod.mk.inj hrest
  obtain ⟨hvisits, hposts⟩ := supply_listedBefore
  obtain ⟨m, r', visit, payload, made, hm, hwhose, hposted, hmade, hresponse, -, hlisted⟩ :=
    durable_events_are_listed walDb walDb_filtersAsDocumented walRotation sampleSettings .default
      (fun _ => 0) none emptyStart listedBefore listedAfter (fun visit hvisit => by
        obtain ⟨k, rfl⟩ := hvisits visit hvisit
        rfl) 0 r retryResponse hn (by simp [hresults]) (by simp [hpath])
  have hdone : (s.store.checkpoints.map Checkpoint.outcome) = [some (.ok ())] := by decide +kernel
  obtain ⟨c, hc, hok⟩ : ∃ c, s.store.checkpoints[0]? = some c ∧ c.outcome = some (.ok ()) := by
    rw [← Option.map_eq_some_iff, ← List.getElem?_map, hdone]
    rfl
  obtain rfl := hposts _ _ _ hposted
  have hidentity : r'.identity sampleSettings = (some "ops", "free") := by
    have hmem := List.mem_map_of_mem (f := fun r : Request => (r.path, r.auth, r.results))
      (List.mem_of_getElem? (show listedNode.service.requests[m]? = some r' from hm))
    rw [hrequests, List.mem_singleton] at hmem
    obtain ⟨-, hrest⟩ := Prod.mk.inj hmem
    rw [Request.identity, (Prod.mk.inj hrest).1]
  have hreads : PayloadReads sampleSettings.tf spoofingEvent := by
    intro v hv
    cases hv
  have hnothing : s.store.deleted = [] ∧ s.store.cutoffs = [] := by decide +kernel
  have hanswers : (queryEvents textFormats "" none s.store.store ⟨[], []⟩ {}).toOption.isSome := by
    decide +kernel
  have hfew : (s.store.store.matchingRows (EventQuery.filter {})).length ≤ EventQuery.pageLimit {} := by
    decide +kernel
  rcases hlisted c hc hok hreads with hlists | hgone | ⟨eng, heng, hburied⟩
  · cases hanswer : queryEvents textFormats "" none s.store.store ⟨[], []⟩ {} with
    | error e =>
      rw [hanswer] at hanswers
      cases hanswers
    | ok answer =>
      rw [hidentity] at hlists
      exact ⟨visit.env, answer, rfl, hlists "" none ⟨[], []⟩ {} answer rfl rfl nonEmpty_noFilter
        (satisfies_noFilter _) hfew hanswer⟩
  · rcases hgone with hid | ⟨cutoff, hcutoff, -⟩
    · have hid : (toLogEvent sampleSettings.tf made.1).id ∈ s.store.deleted := hid
      rw [hnothing.1] at hid
      cases hid
    · have hcutoff : (made.1.tier, cutoff) ∈ s.store.cutoffs := hcutoff
      rw [hnothing.2] at hcutoff
      cases hcutoff
  · cases heng
    cases hburied

end Keplor.Server
