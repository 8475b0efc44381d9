import Keplor.Lib.Run
import Keplor.Store.Append

/-!
# `keplor-store/src/batch.rs` — the batch writer

A writer has a number of shards, each a bounded channel and a loop that takes requests out of it,
buffers them, and appends the buffer as one batch. Callers hand requests to the shards in turn and
wait for the reply of the flush their request ends up in.

The model is a step function. Everything that another task can come in between of is a step of its
own: a caller's choice of a shard, its send, its wait for one reply; a loop's receives one by one,
its append, its replies one by one. A run is any list of steps. A step that is not possible in a
state, because a channel is full or a task is elsewhere, leaves the state as it is.

The loop prefers a received request to a tick. A task that has used up its share of the scheduler's
time is told that nothing was received, and then the tick comes first; so the model lets a tick come
at any time. Ending a loop by force at the shutdown deadline is left out.
-/

set_option autoImplicit false

namespace Keplor.Store

open Keplor.Lib Keplor.Core

/-! ## One shard -/

/-- Where the loop of a shard stands. The flag of the two flush phases says that the channel was
closed and the loop ends after the flush. -/
inductive Phase where
  /-- waiting for a request or a tick -/
  | idle
  /-- taking what else is in the channel -/
  | draining
  /-- waiting for `append_batch_durable` -/
  | flushing (batch : List WriteRequest) (last : Bool)
  /-- sending replies, these are left -/
  | replying (rest : List (WriteRequest × Reply)) (last : Bool)
  | exited

/-- A shard. The logs in the second half are there to speak about a run: what was put into the
channel, what was handed to `append_batch_durable`, what that returned, the requests a flush is done
with, and the replies sent. -/
structure Shard where
  channel : List WriteRequest
  buffer : List WriteRequest
  phase : Phase
  accepted : List WriteRequest
  handed : List (List WriteRequest)
  appends : List (List WriteRequest × Except StoreError Unit)
  done : List WriteRequest
  replies : List (Token × Reply)

namespace Shard

/-- A shard that has just been spawned. -/
def new : Shard where
  channel := []
  buffer := []
  phase := .idle
  accepted := []
  handed := []
  appends := []
  done := []
  replies := []

/-- The requests of the flush in progress. -/
def flight (sh : Shard) : List WriteRequest :=
  match sh.phase with
  | .flushing batch _ => batch
  | .replying rest _ => rest.map Prod.fst
  | _ => []

/-- The loop has returned, and its end of the channel is gone. -/
def gone (sh : Shard) : Bool :=
  match sh.phase with
  | .exited => true
  | _ => false

/-- A request enters the channel. -/
def push (r : WriteRequest) (sh : Shard) : Shard :=
  { sh with channel := sh.channel ++ [r], accepted := sh.accepted ++ [r] }

/-- `append_only`, up to the append: the buffer becomes a batch. -/
def beginFlush (last : Bool) (sh : Shard) : Shard :=
  { sh with
    buffer := []
    phase := .flushing sh.buffer last
    handed := sh.handed ++ [sh.buffer] }

/-- `rx.recv()` in the `select!`; `closed` when every sender is gone. -/
def recv (closed : Bool) (sh : Shard) : Shard :=
  match sh.channel with
  | r :: rest => { sh with channel := rest, buffer := sh.buffer ++ [r], phase := .draining }
  | [] =>
    if closed then
      if sh.buffer.isEmpty then { sh with phase := .exited } else sh.beginFlush true
    else sh

/-- One turn of the `try_recv` loop, or what follows its end. -/
def drain (batchSize : Nat) (sh : Shard) : Shard :=
  if sh.buffer.length < batchSize then
    match sh.channel with
    | r :: rest => { sh with channel := rest, buffer := sh.buffer ++ [r] }
    | [] => { sh with phase := .idle }
  else sh.beginFlush false

/-- `interval.tick()` in the `select!`. -/
def tick (sh : Shard) : Shard := if sh.buffer.isEmpty then sh else sh.beginFlush false

/-- `append_batch_durable` returned, or its task failed: the replies are made out. -/
def appended (outcome : Except StoreError Unit) (batch : List WriteRequest) (last : Bool)
    (sh : Shard) : Shard :=
  { sh with
    appends := sh.appends ++ [(batch, outcome)]
    phase := .replying
      (Store.replies batch (outcome.map fun _ => batch.map fun r => r.event.id)) last }

/-- One turn of a reply loop; a request nobody waits for has no channel to reply on. -/
def reply (r : WriteRequest) (answer : Reply) (rest : List (WriteRequest × Reply)) (last : Bool)
    (sh : Shard) : Shard :=
  { sh with
    done := sh.done ++ [r]
    replies := if r.awaited then sh.replies ++ [(r.token, answer)] else sh.replies
    phase := .replying rest last }

/-- What moves a loop. -/
inductive Input where
  | recv
  | drain
  | tick
  | appended (outcome : Except StoreError Unit)
  | reply

/-- One step of `append_loop`. -/
def step (batchSize : Nat) (closed : Bool) (x : Input) (sh : Shard) : Shard :=
  match sh.phase, x with
  | .idle, .recv => sh.recv closed
  | .idle, .tick => sh.tick
  | .draining, .drain => sh.drain batchSize
  | .flushing batch last, .appended outcome => sh.appended outcome batch last
  | .replying ((r, answer) :: rest) last, .reply => sh.reply r answer rest last
  | .replying [] last, .reply => { sh with phase := if last then .exited else .idle }
  | _, _ => sh

/-- The loop is receiving: in the `select!`, or in the `try_recv` loop behind it. -/
def Receiving (sh : Shard) : Prop := sh.phase = .idle ∨ sh.phase = .draining

/-- Everything a step of the loop can do. -/
inductive Effect (batchSize : Nat) (closed : Bool) (x : Input) (sh : Shard) : Shard → Prop where
  | nothing : Effect batchSize closed x sh sh
  | take {r : WriteRequest} {rest : List WriteRequest} (hp : sh.Receiving)
      (hroom : sh.phase = .draining → sh.buffer.length < batchSize)
      (hchannel : sh.channel = r :: rest) :
      Effect batchSize closed x sh
        { sh with channel := rest, buffer := sh.buffer ++ [r], phase := .draining }
  | rest (hp : sh.phase = .draining) (hroom : sh.buffer.length < batchSize) :
      Effect batchSize closed x sh { sh with phase := .idle }
  | flush {last : Bool} (hp : sh.Receiving) (hlast : last = true → closed = true) :
      Effect batchSize closed x sh (sh.beginFlush last)
  | leave (hp : sh.phase = .idle) (hclosed : closed = true) (hempty : sh.buffer = []) :
      Effect batchSize closed x sh { sh with phase := .exited }
  | appended {batch : List WriteRequest} {last : Bool} {outcome : Except StoreError Unit}
      (hp : sh.phase = .flushing batch last) (hx : x = .appended outcome) :
      Effect batchSize closed x sh (sh.appended outcome batch last)
  | reply {r : WriteRequest} {answer : Reply} {rest : List (WriteRequest × Reply)} {last : Bool}
      (hp : sh.phase = .replying ((r, answer) :: rest) last) :
      Effect batchSize closed x sh (sh.reply r answer rest last)
  | finish {last : Bool} (hp : sh.phase = .replying [] last) :
      Effect batchSize closed x sh { sh with phase := if last then .exited else .idle }

section Effect

variable {batchSize : Nat} {closed : Bool} {x : Input} {sh : Shard}

theorem effect_recv (hp : sh.phase = .idle) : Effect batchSize closed x sh (sh.recv closed) := by
  have hnot : sh.phase = .draining → sh.buffer.length < batchSize := fun hdraining => by
    rw [hp] at hdraining
    cases hdraining
  unfold recv
  split
  · rename_i hchannel
    exact .take (.inl hp) hnot hchannel
  · split
    · rename_i hclosed
      split
      · rename_i hempty
        exact .leave hp hclosed (List.isEmpty_iff.mp hempty)
      · exact .flush (.inl hp) fun _ => hclosed
    · exact .nothing

theorem effect_tick (hp : sh.phase = .idle) : Effect batchSize closed x sh sh.tick := by
  unfold tick
  split
  · exact .nothing
  · exact .flush (.inl hp) fun hlast => by cases hlast

theorem effect_drain (hp : sh.phase = .draining) :
    Effect batchSize closed x sh (sh.drain batchSize) := by
  unfold drain
  split
  · rename_i hroom
    split
    · rename_i r rest hchannel
      have hsame : ({ sh with channel := rest, buffer := sh.buffer ++ [r] } : Shard)
          = { sh with channel := rest, buffer := sh.buffer ++ [r], phase := .draining } := by
        rw [hp]
      rw [hsame]
      exact .take (.inr hp) (fun _ => hroom) hchannel
    · exact .rest hp hroom
  · exact .flush (.inr hp) fun hlast => by cases hlast

/-- A step of the loop has one of these effects. -/
theorem effect (batchSize : Nat) (closed : Bool) (x : Input) (sh : Shard) :
    Effect batchSize closed x sh (sh.step batchSize closed x) := by
  unfold step
  split
  · rename_i hp
    exact effect_recv hp
  · rename_i hp
    exact effect_tick hp
  · rename_i hp
    exact effect_drain hp
  · rename_i hp
    exact .appended hp rfl
  · rename_i hp
    exact .reply hp
  · rename_i hp
    exact .finish hp
  · exact .nothing

end Effect

/-- The append of a batch with this request returned `Ok`, and the id is the one of its event. -/
def Durable (sh : Shard) (t : Token) (id : EventId) : Prop :=
  ∃ batch, (batch, .ok ()) ∈ sh.appends ∧ ∃ r ∈ batch, r.token = t ∧ r.event.id = id

/-- What holds of a shard in each phase of its loop: which requests the flushes so far account for,
how full the buffer is, and that every `Ok` still to be sent is earned. -/
def PhaseOk (batchSize : Nat) (sh : Shard) : Prop :=
  match sh.phase with
  | .idle => sh.handed.flatten = sh.done ∧ sh.buffer.length < batchSize
  | .draining => sh.handed.flatten = sh.done ∧ sh.buffer.length ≤ batchSize
  | .flushing batch _ =>
      sh.handed.flatten = sh.done ++ batch ∧ sh.buffer = [] ∧ batch ∈ sh.handed
  | .replying rest _ =>
      sh.handed.flatten = sh.done ++ rest.map Prod.fst ∧ sh.buffer = [] ∧
        ∀ r id, (r, .ok id) ∈ rest → sh.Durable r.token id
  | .exited => sh.handed.flatten = sh.done ∧ sh.buffer = []

/-- What the loop keeps. The queue is in order: requests leave the channel, the buffer and the flush
in the order they came in. -/
structure Inv (batchSize : Nat) (sh : Shard) : Prop where
  queue : sh.accepted = sh.handed.flatten ++ (sh.buffer ++ sh.channel)
  appends : ∀ p ∈ sh.appends, p.1 ∈ sh.handed
  answered : sh.replies.map Prod.fst = (sh.done.filter WriteRequest.awaited).map WriteRequest.token
  truthful : ∀ t id, (t, .ok id) ∈ sh.replies → sh.Durable t id
  phase : sh.PhaseOk batchSize

variable {batchSize : Nat} {sh : Shard}

theorem inv_new (h : 0 < batchSize) : Inv batchSize new :=
  ⟨rfl, by simp [new], rfl, by simp [new], rfl, h⟩

theorem Inv.flushes (h : Inv batchSize sh) : sh.handed.flatten = sh.done ++ sh.flight := by
  have hphase := h.phase
  rw [PhaseOk] at hphase
  rw [flight]
  split at hphase
  · rename_i hp; simpa [hp] using hphase.1
  · rename_i hp; simpa [hp] using hphase.1
  · rename_i hp; simpa [hp] using hphase.1
  · rename_i hp; simpa [hp] using hphase.1
  · rename_i hp; simpa [hp] using hphase.1

theorem Inv.bounded (h : Inv batchSize sh) : sh.buffer.length ≤ batchSize := by
  have hphase := h.phase
  rw [PhaseOk] at hphase
  split at hphase
  · exact Nat.le_of_lt hphase.2
  · exact hphase.2
  · rw [hphase.2.1]; exact Nat.zero_le _
  · rw [hphase.2.1]; exact Nat.zero_le _
  · rw [hphase.2]; exact Nat.zero_le _

theorem Inv.push (h : Inv batchSize sh) (r : WriteRequest) : Inv batchSize (sh.push r) :=
  ⟨by simp only [Shard.push, h.queue, List.append_assoc], h.appends, h.answered, h.truthful, h.phase⟩

/-- While the loop receives, every flush is over. -/
theorem Inv.flushed (h : Inv batchSize sh) (hp : sh.Receiving) : sh.handed.flatten = sh.done := by
  have hphase := h.phase
  rcases hp with hp | hp
  · simp only [PhaseOk, hp] at hphase
    exact hphase.1
  · simp only [PhaseOk, hp] at hphase
    exact hphase.1

theorem Inv.take (h : Inv batchSize sh) {r : WriteRequest} {rest : List WriteRequest}
    (hp : sh.Receiving) (hroom : sh.phase = .draining → sh.buffer.length < batchSize)
    (hchannel : sh.channel = r :: rest) :
    Inv batchSize { sh with channel := rest, buffer := sh.buffer ++ [r], phase := .draining } := by
  have hlt : sh.buffer.length < batchSize := by
    rcases hp with hp | hp
    · have hphase := h.phase
      simp only [PhaseOk, hp] at hphase
      exact hphase.2
    · exact hroom hp
  refine ⟨by simp [h.queue, hchannel], h.appends, h.answered, h.truthful, h.flushed hp, ?_⟩
  rw [List.length_append]
  exact hlt

/-- A flush starts when no other flush is on. -/
theorem Inv.beginFlush (h : Inv batchSize sh) (hp : sh.Receiving) (last : Bool) :
    Inv batchSize (sh.beginFlush last) := by
  refine ⟨by simp [Shard.beginFlush, h.queue], ?_, h.answered, h.truthful, ?_⟩
  · intro p hp
    exact List.mem_append_left _ (h.appends p hp)
  · exact ⟨by simp [Shard.beginFlush, h.flushed hp], rfl, by simp [Shard.beginFlush]⟩

/-- The replies of a flush are for the batch, request by request. -/
theorem map_fst_replies (batch : List WriteRequest) (outcome : Except StoreError Unit) :
    (Store.replies batch (outcome.map fun _ => batch.map fun r => r.event.id)).map Prod.fst
      = batch := by
  cases outcome with
  | error e => simp [Except.map, Store.replies, Function.comp_def]
  | ok _ =>
    simp only [Except.map, Store.replies]
    rw [List.map_fst_zip]
    simp

/-- An `Ok` goes out only after an append that returned `Ok`, with the request's own id. -/
theorem mem_replies_ok {batch : List WriteRequest} {outcome : Except StoreError Unit}
    {r : WriteRequest} {id : EventId}
    (h : (r, .ok id) ∈ Store.replies batch (outcome.map fun _ => batch.map fun r => r.event.id)) :
    outcome = .ok () ∧ r ∈ batch ∧ r.event.id = id := by
  cases outcome with
  | error e => simp [Except.map, Store.replies] at h
  | ok _ =>
    have hzip : batch.zip (batch.map fun r => (.ok r.event.id : Reply))
        = batch.map fun r => (r, .ok r.event.id) := by
      simpa using
        List.zip_map' (f := fun r : WriteRequest => r) (g := fun r => (.ok r.event.id : Reply))
    simp only [Except.map, Store.replies, List.map_map, Function.comp_def, hzip] at h
    simpa using h

theorem Inv.appended (h : Inv batchSize sh) {batch : List WriteRequest} {last : Bool}
    (hp : sh.phase = .flushing batch last) (outcome : Except StoreError Unit) :
    Inv batchSize (sh.appended outcome batch last) := by
  have hphase := h.phase
  simp only [PhaseOk, hp] at hphase
  obtain ⟨hdone, hempty, hhanded⟩ := hphase
  refine ⟨h.queue, ?_, h.answered, ?_, ?_, hempty, ?_⟩
  · intro p hmem
    rcases List.mem_append.mp hmem with hmem | hmem
    · exact h.appends p hmem
    · rw [List.mem_singleton.mp hmem]
      exact hhanded
  · intro t id ht
    obtain ⟨b, hb, hr⟩ := h.truthful t id ht
    exact ⟨b, List.mem_append_left _ hb, hr⟩
  · rw [map_fst_replies]
    exact hdone
  · intro r id hr
    obtain ⟨rfl, hmem, hid⟩ := mem_replies_ok hr
    exact ⟨batch, by simp [Shard.appended], r, hmem, rfl, hid⟩

theorem Inv.reply (h : Inv batchSize sh) {r : WriteRequest} {answer : Reply}
    {rest : List (WriteRequest × Reply)} {last : Bool}
    (hp : sh.phase = .replying ((r, answer) :: rest) last) :
    Inv batchSize (sh.reply r answer rest last) := by
  have hphase := h.phase
  simp only [PhaseOk, hp] at hphase
  obtain ⟨hdone, hempty, hearned⟩ := hphase
  refine ⟨h.queue, h.appends, ?_, ?_, by simpa [Shard.reply] using hdone, hempty, ?_⟩
  · cases hr : r.awaited <;> simp [Shard.reply, hr, h.answered]
  · intro t id ht
    have hmem : (t, .ok id) ∈ sh.replies ∨ (t, .ok id) = (r.token, answer) := by
      simp only [Shard.reply] at ht
      split at ht
      · simpa using ht
      · exact .inl ht
    rcases hmem with ht | ht
    · exact h.truthful t id ht
    · cases ht
      exact hearned r id (by simp)
  · intro s id hs
    exact hearned s id (List.mem_cons_of_mem _ hs)

theorem Inv.finish (h : Inv batchSize sh) (hpos : 0 < batchSize) {last : Bool}
    (hp : sh.phase = .replying [] last) :
    Inv batchSize { sh with phase := if last then .exited else .idle } := by
  have hphase := h.phase
  simp only [PhaseOk, hp, List.map_nil, List.append_nil] at hphase
  obtain ⟨hdone, hempty, -⟩ := hphase
  refine ⟨h.queue, h.appends, h.answered, h.truthful, ?_⟩
  cases last with
  | true => exact ⟨hdone, hempty⟩
  | false => exact ⟨hdone, by simpa [hempty] using hpos⟩

/-- What was appended had been accepted. -/
theorem Inv.mem_accepted (h : Inv batchSize sh) {batch : List WriteRequest}
    {outcome : Except StoreError Unit} (hbatch : (batch, outcome) ∈ sh.appends) {r : WriteRequest}
    (hr : r ∈ batch) : r ∈ sh.accepted := by
  rw [h.queue]
  exact List.mem_append_left _ (List.mem_flatten.mpr ⟨batch, h.appends _ hbatch, hr⟩)

/-- A step of the loop keeps what the loop keeps. -/
theorem Inv.step (h : Inv batchSize sh) (hpos : 0 < batchSize) (closed : Bool) (x : Input) :
    Inv batchSize (sh.step batchSize closed x) := by
  have heff := effect batchSize closed x sh
  generalize sh.step batchSize closed x = sh' at heff
  cases heff with
  | nothing => exact h
  | take hp hroom hchannel => exact h.take hp hroom hchannel
  | rest hp hroom => exact ⟨h.queue, h.appends, h.answered, h.truthful, h.flushed (.inr hp), hroom⟩
  | flush hp _ => exact h.beginFlush hp _
  | leave hp _ hempty => exact ⟨h.queue, h.appends, h.answered, h.truthful, h.flushed (.inl hp), hempty⟩
  | appended hp _ => exact h.appended hp _
  | reply hp => exact h.reply hp
  | finish hp => exact h.finish hpos hp

/-- The loop accepts nothing by itself. -/
theorem accepted_step (closed : Bool) (x : Input) :
    (sh.step batchSize closed x).accepted = sh.accepted := by
  have heff := effect batchSize closed x sh
  generalize sh.step batchSize closed x = sh' at heff
  cases heff <;> rfl

/-- A reply once sent stays sent. -/
theorem mem_replies_step {p : Token × Reply} (h : p ∈ sh.replies) (closed : Bool) (x : Input) :
    p ∈ (sh.step batchSize closed x).replies := by
  have heff := effect batchSize closed x sh
  generalize sh.step batchSize closed x = sh' at heff
  cases heff with
  | reply _ =>
    rw [Shard.reply]
    split
    · exact List.mem_append_left _ h
    · exact h
  | _ => exact h

end Shard

/-! ## Callers and the writer -/

/-- Which of the three entry points a call is of. -/
inductive CallKind where
  | write
  | writeMany
  | writeFireAndForget
  deriving DecidableEq

/-- The caller waits for the flush. -/
def CallKind.awaits : CallKind → Bool
  | .write => true
  | .writeMany => true
  | .writeFireAndForget => false

/-- A call in progress or over. A `write` and a `write_fire_and_forget` have one event. -/
structure Call where
  kind : CallKind
  events : List LlmEvent
  /-- the shard picked for the next event -/
  picked : Option Nat
  /-- for each event so far, the shard it was sent to or the error of the send -/
  sent : List (Except StoreError Nat)
  /-- the replies awaited so far, in the order of the events -/
  results : List Reply
  /-- the caller gave up waiting -/
  cancelled : Bool

/-- Nothing of the call is left to do. -/
def Call.over (c : Call) : Bool :=
  c.cancelled || (c.events.length ≤ c.sent.length &&
    (!c.kind.awaits || c.events.length ≤ c.results.length))

/-- `BatchConfig`, without the interval: ticks come when they come. -/
structure BatchConfig where
  batchSize : Nat
  channelCapacity : Nat
  flushShards : Nat

/-- `impl Default for BatchConfig` -/
def BatchConfig.default : BatchConfig :=
  { batchSize := 256, channelCapacity := 8192, flushShards := 4 }

/-- `BatchWriter`, with the shards it spawned and the calls made on it. -/
structure BatchWriter where
  shards : List Shard
  nextTx : UInt64
  shutdown : Bool
  /-- the last handle to the writer is gone, and with it the senders -/
  dropped : Bool
  /-- the batch size of a shard -/
  batchSize : Nat
  /-- the room in the channel of a shard -/
  capacity : Nat
  calls : List Call

namespace BatchWriter

/-- `BatchWriter::new` -/
def new (config : BatchConfig) : BatchWriter :=
  let shards := max config.flushShards 1
  { shards := List.replicate shards Shard.new
    nextTx := 0
    shutdown := false
    dropped := false
    batchSize := max (config.batchSize / shards) 8
    capacity := max ((config.channelCapacity + shards - 1) / shards) 1
    calls := [] }

/-- The start of a call: after a shutdown it fails for every event at once. -/
def begin (kind : CallKind) (events : List LlmEvent) (s : BatchWriter) : BatchWriter :=
  let call : Call := {
    kind := kind
    events := events
    picked := none
    sent := if s.shutdown then events.map fun _ => .error .channelClosed else []
    results := []
    cancelled := false }
  { s with calls := s.calls ++ [call] }

/-- `pick_shard`, for the next event of a call. -/
def pickShard (n : Nat) (c : Call) (s : BatchWriter) : BatchWriter :=
  if c.cancelled || c.picked.isSome || c.events.length ≤ c.sent.length then s
  else
    { s with
      nextTx := s.nextTx + 1
      calls := s.calls.set n { c with picked := some (s.nextTx.toNat % s.shards.length) } }

/-- The send of a call's next event has an outcome. -/
def noteSent (n : Nat) (c : Call) (outcome : Except StoreError Nat) (s : BatchWriter) :
    BatchWriter :=
  { s with calls := s.calls.set n { c with picked := none, sent := c.sent ++ [outcome] } }

/-- `send` and `try_send`: a caller that waits for the flush also waits for room in the channel. -/
def send (n : Nat) (c : Call) (i : Nat) (event : LlmEvent) (sh : Shard) (s : BatchWriter) :
    BatchWriter :=
  if sh.gone then s.noteSent n c (.error .channelClosed)
  else if sh.channel.length < s.capacity then
    { s.noteSent n c (.ok i) with
      shards := s.shards.set i (sh.push ⟨⟨n, c.sent.length⟩, event, c.kind.awaits⟩) }
  else if c.kind.awaits then s
  else s.noteSent n c (.error .channelFull)

/-- What the caller learns about its `k`-th event, if it is known yet; a reply channel that is
dropped without a reply counts as closed. -/
def resultOf (s : BatchWriter) (n : Nat) (c : Call) (k : Nat) : Option Reply :=
  match c.sent[k]? with
  | none => none
  | some (.error _) => some (.error .channelClosed)
  | some (.ok i) =>
    match s.shards[i]? with
    | none => none
    | some sh =>
      match sh.replies.lookup ⟨n, k⟩ with
      | some reply => some reply
      | none => if sh.gone then some (.error .channelClosed) else none

/-- The wait for the next reply of a call, once all its events are sent. -/
def await (n : Nat) (c : Call) (s : BatchWriter) : BatchWriter :=
  if c.cancelled || !c.kind.awaits || c.sent.length < c.events.length then s
  else
    match s.resultOf n c c.results.length with
    | none => s
    | some reply => { s with calls := s.calls.set n { c with results := c.results ++ [reply] } }

/-- A step of some task. Calls and shards are known by their number. -/
inductive Input where
  | write (event : LlmEvent)
  | writeMany (events : List LlmEvent)
  | writeFireAndForget (event : LlmEvent)
  | pick (n : Nat)
  | send (n : Nat)
  | await (n : Nat)
  | cancel (n : Nat)
  | loop (i : Nat) (x : Shard.Input)
  | shutdown
  | drop

/-- One step. Nobody can call a writer that is dropped, and no call outlives it. -/
def step (s : BatchWriter) : Input → BatchWriter
  | .write event => if s.dropped then s else s.begin .write [event]
  | .writeMany events => if s.dropped then s else s.begin .writeMany events
  | .writeFireAndForget event => if s.dropped then s else s.begin .writeFireAndForget [event]
  | .pick n =>
    match s.calls[n]? with
    | none => s
    | some c => s.pickShard n c
  | .send n =>
    match s.calls[n]? with
    | none => s
    | some c =>
      match c.cancelled, c.picked, c.events[c.sent.length]? with
      | false, some i, some event =>
        match s.shards[i]? with
        | none => s
        | some sh => s.send n c i event sh
      | _, _, _ => s
  | .await n =>
    match s.calls[n]? with
    | none => s
    | some c => s.await n c
  | .cancel n =>
    match s.calls[n]? with
    | none => s
    | some c => { s with calls := s.calls.set n { c with cancelled := true } }
  | .loop i x =>
    match s.shards[i]? with
    | none => s
    | some sh => { s with shards := s.shards.set i (sh.step s.batchSize s.dropped x) }
  | .shutdown => { s with shutdown := true }
  | .drop => if s.calls.all Call.over then { s with dropped := true } else s

/-! ## What a step can do -/

/-- A step that begins a call. -/
def Input.begins : Input → Bool
  | .write _ | .writeMany _ | .writeFireAndForget _ => true
  | _ => false

/-- What a call can do without touching a shard. -/
inductive Turn (s : BatchWriter) (n : Nat) (c : Call) : Call → Prop where
  | picked (i : Nat) : Turn s n c { c with picked := some i }
  | refused (hlt : c.sent.length < c.events.length) (e : StoreError) :
      Turn s n c { c with picked := none, sent := c.sent ++ [.error e] }
  | told {reply : Reply} (hreply : s.resultOf n c c.results.length = some reply) :
      Turn s n c { c with results := c.results ++ [reply] }
  | cancelled : Turn s n c { c with cancelled := true }

/-- Everything a step can do. -/
inductive Effect (s : BatchWriter) (x : Input) : BatchWriter → Prop where
  | nothing : Effect s x s
  | begin (kind : CallKind) (events : List LlmEvent) (hx : x.begins = true) :
      Effect s x (s.begin kind events)
  | turn {n : Nat} {c c' : Call} (hn : s.calls[n]? = some c) (hturn : Turn s n c c') (t : UInt64) :
      Effect s x { s with nextTx := t, calls := s.calls.set n c' }
  | deliver {n i : Nat} {c : Call} {event : LlmEvent} {sh : Shard} (hn : s.calls[n]? = some c)
      (hcancelled : c.cancelled = false) (hevent : c.events[c.sent.length]? = some event)
      (hi : s.shards[i]? = some sh) :
      Effect s x { s.noteSent n c (.ok i) with
        shards := s.shards.set i (sh.push ⟨⟨n, c.sent.length⟩, event, c.kind.awaits⟩) }
  | loop {i : Nat} {y : Shard.Input} {sh : Shard} (hx : x = .loop i y) (hi : s.shards[i]? = some sh) :
      Effect s x { s with shards := s.shards.set i (sh.step s.batchSize s.dropped y) }
  | shutdown : Effect s x { s with shutdown := true }
  | drop (hx : x = .drop) : Effect s x { s with dropped := true }

section Effect

variable {s : BatchWriter} {x : Input} {n : Nat} {c : Call}

theorem effect_begin (kind : CallKind) (events : List LlmEvent) (hx : x.begins = true) :
    Effect s x (if s.dropped then s else s.begin kind events) := by
  split
  · exact .nothing
  · exact .begin kind events hx

theorem effect_pickShard (hn : s.calls[n]? = some c) : Effect s x (s.pickShard n c) := by
  unfold pickShard
  split
  · exact .nothing
  · exact .turn hn (.picked _) _

theorem effect_send (hn : s.calls[n]? = some c) (hcancelled : c.cancelled = false) {i : Nat}
    {event : LlmEvent} (hevent : c.events[c.sent.length]? = some event) {sh : Shard}
    (hi : s.shards[i]? = some sh) : Effect s x (s.send n c i event sh) := by
  have hlt : c.sent.length < c.events.length := (List.getElem?_eq_some_iff.mp hevent).1
  unfold send
  split
  · exact .turn hn (.refused hlt _) s.nextTx
  · split
    · exact .deliver hn hcancelled hevent hi
    · split
      · exact .nothing
      · exact .turn hn (.refused hlt _) s.nextTx

theorem effect_await (hn : s.calls[n]? = some c) : Effect s x (s.await n c) := by
  unfold await
  split
  · exact .nothing
  · split
    · exact .nothing
    · rename_i hreply
      exact .turn hn (.told hreply) s.nextTx

/-- A step has one of these effects. -/
theorem effect (s : BatchWriter) (x : Input) : Effect s x (s.step x) := by
  unfold step
  split
  · exact effect_begin _ _ rfl
  · exact effect_begin _ _ rfl
  · exact effect_begin _ _ rfl
  · split
    · exact .nothing
    · rename_i hn
      exact effect_pickShard hn
  · split
    · exact .nothing
    · rename_i hn
      split
      · rename_i hcancelled _ hevent
        split
        · exact .nothing
        · rename_i hi
          exact effect_send hn hcancelled hevent hi
      · exact .nothing
  · split
    · exact .nothing
    · rename_i hn
      exact effect_await hn
  · split
    · exact .nothing
    · rename_i hn
      exact .turn hn .cancelled s.nextTx
  · split
    · exact .nothing
    · rename_i hi
      exact .loop rfl hi
  · exact .shutdown
  · split
    · exact .drop rfl
    · exact .nothing

end Effect

/-! ## What every step keeps -/

/-- A shard's request is one that its call sent there: the event stands at the request's slot. -/
structure SentBy (i : Nat) (r : WriteRequest) (c : Call) : Prop where
  sent : c.sent[r.token.slot]? = some (.ok i)
  event : c.events[r.token.slot]? = some r.event
  awaited : r.awaited = c.kind.awaits

/-- A call's view is right: what it sent is in the shard it was sent to, and what it was told is a
reply to the request at that slot, unless the channel was closed. -/
structure CallOk (shards : List Shard) (n : Nat) (c : Call) : Prop where
  sent_le : c.sent.length ≤ c.events.length
  results_le : c.results.length ≤ c.sent.length
  delivered : ∀ (k i : Nat), c.sent[k]? = some (.ok i) →
    ∃ sh : Shard, shards[i]? = some sh ∧ ∃ r ∈ sh.accepted, r.token = ⟨n, k⟩
  told : ∀ (k : Nat) (reply : Reply), c.results[k]? = some reply →
    reply = .error .channelClosed ∨
      ∃ (i : Nat) (sh : Shard), c.sent[k]? = some (.ok i) ∧ shards[i]? = some sh ∧ (⟨n, k⟩, reply) ∈ sh.replies

/-- The invariant of the writer. -/
structure Inv (s : BatchWriter) : Prop where
  pos : 0 < s.batchSize
  shard : ∀ (i : Nat) (sh : Shard), s.shards[i]? = some sh → sh.Inv s.batchSize
  nodup : ∀ (i : Nat) (sh : Shard), s.shards[i]? = some sh → (sh.accepted.map WriteRequest.token).Nodup
  origin : ∀ (i : Nat) (sh : Shard), s.shards[i]? = some sh → ∀ r ∈ sh.accepted,
    ∃ c : Call, s.calls[r.token.call]? = some c ∧ SentBy i r c
  call : ∀ (n : Nat) (c : Call), s.calls[n]? = some c → CallOk s.shards n c

/-- Shards only gain requests and replies. -/
def Grows (ss ss' : List Shard) : Prop :=
  ∀ (i : Nat) (sh : Shard), ss[i]? = some sh → ∃ sh', ss'[i]? = some sh' ∧
    (∀ r ∈ sh.accepted, r ∈ sh'.accepted) ∧ ∀ p ∈ sh.replies, p ∈ sh'.replies

/-- Calls keep their events and their kind, and only add to what they sent. -/
def Continues (c c' : Call) : Prop :=
  c'.events = c.events ∧ c'.kind = c.kind ∧ ∃ more, c'.sent = c.sent ++ more

theorem grows_set {ss : List Shard} {i : Nat} {sh sh' : Shard} (hi : ss[i]? = some sh)
    (ha : ∀ r ∈ sh.accepted, r ∈ sh'.accepted) (hr : ∀ p ∈ sh.replies, p ∈ sh'.replies) :
    Grows ss (ss.set i sh') := by
  intro j sh₁ hj
  by_cases hij : i = j
  · subst hij
    rw [hi] at hj
    cases hj
    have hlt : i < ss.length := (List.getElem?_eq_some_iff.mp hi).1
    exact ⟨sh', by simp [hlt], ha, hr⟩
  · exact ⟨sh₁, by rw [List.getElem?_set_ne hij, hj], fun _ h => h, fun _ h => h⟩

theorem CallOk.mono {ss ss' : List Shard} {n : Nat} {c : Call} (h : CallOk ss n c)
    (hgrows : Grows ss ss') : CallOk ss' n c := by
  refine ⟨h.sent_le, h.results_le, ?_, ?_⟩
  · intro k i hk
    obtain ⟨sh, hsh, r, hr, htok⟩ := h.delivered k i hk
    obtain ⟨sh', hsh', ha, -⟩ := hgrows i sh hsh
    exact ⟨sh', hsh', r, ha r hr, htok⟩
  · intro k reply hk
    rcases h.told k reply hk with hclosed | ⟨i, sh, hsent, hsh, hmem⟩
    · exact .inl hclosed
    · obtain ⟨sh', hsh', -, hr⟩ := hgrows i sh hsh
      exact .inr ⟨i, sh', hsent, hsh', hr _ hmem⟩

theorem SentBy.mono {i : Nat} {r : WriteRequest} {c c' : Call} (h : SentBy i r c)
    (hc : Continues c c') : SentBy i r c' := by
  obtain ⟨hevents, hkind, more, hsent⟩ := hc
  refine ⟨?_, by rw [hevents, h.event], by rw [hkind, h.awaited]⟩
  rw [hsent]
  exact getElem?_append_of h.sent more

variable {s : BatchWriter}

theorem inv_new (config : BatchConfig) : Inv (new config) := by
  have hnew : ∀ (i : Nat) (sh : Shard), (new config).shards[i]? = some sh → sh = Shard.new := by
    intro i sh hi
    exact (List.mem_replicate.mp (List.mem_of_getElem? hi)).2
  have hpos : 0 < (new config).batchSize := Nat.lt_of_lt_of_le (by decide) (Nat.le_max_right _ 8)
  refine ⟨hpos, ?_, ?_, ?_, ?_⟩
  · intro i sh hi
    rw [hnew i sh hi]
    exact Shard.inv_new hpos
  · intro i sh hi
    rw [hnew i sh hi]
    exact List.nodup_nil
  · intro i sh hi r hr
    rw [hnew i sh hi] at hr
    cases hr
  · intro n c hn
    cases hn

/-- A request is still of its call when one call goes on. -/
theorem exists_sentBy_set {n m i : Nat} {c c' : Call} {r : WriteRequest} (hn : s.calls[n]? = some c)
    (hc : Continues c c') (h : ∃ d : Call, s.calls[m]? = some d ∧ SentBy i r d) :
    ∃ d : Call, (s.calls.set n c')[m]? = some d ∧ SentBy i r d := by
  obtain ⟨d, hd, hsent⟩ := h
  refine ⟨_, getElem?_set_of hd, ?_⟩
  split
  · rename_i heq
    rw [← heq, hn] at hd
    cases hd
    exact hsent.mono hc
  · exact hsent

/-- A step of one call that changes no shard. -/
theorem Inv.setCall (h : Inv s) {n : Nat} {c c' : Call} (hn : s.calls[n]? = some c)
    (hc : Continues c c') (hok : CallOk s.shards n c') (t : UInt64) :
    Inv { s with nextTx := t, calls := s.calls.set n c' } := by
  refine ⟨h.pos, h.shard, h.nodup, ?_, ?_⟩
  · intro i sh hi r hr
    exact exists_sentBy_set hn hc (h.origin i sh hi r hr)
  · intro m d hd
    rcases getElem?_set_cases hd with ⟨rfl, rfl⟩ | ⟨-, hd⟩
    · exact hok
    · exact h.call m d hd

theorem Inv.begin (h : Inv s) (kind : CallKind) (events : List LlmEvent) :
    Inv (s.begin kind events) := by
  refine ⟨h.pos, h.shard, h.nodup, ?_, ?_⟩
  · intro i sh hi r hr
    obtain ⟨c, hc, hsent⟩ := h.origin i sh hi r hr
    exact ⟨c, getElem?_append_of hc _, hsent⟩
  · intro n c hn
    rcases getElem?_concat_cases hn with hn | ⟨-, rfl⟩
    · exact h.call n c hn
    · refine ⟨?_, Nat.zero_le _, ?_, fun k reply hk => by cases hk⟩
      · dsimp only
        split <;> simp
      · intro k i hk
        dsimp only at hk
        split at hk
        · have hmem := List.mem_of_getElem? hk
          simp at hmem
        · cases hk

/-- A step of a loop. -/
theorem Inv.loop (h : Inv s) {i : Nat} {sh : Shard} (hi : s.shards[i]? = some sh)
    (closed : Bool) (x : Shard.Input) :
    Inv { s with shards := s.shards.set i (sh.step s.batchSize closed x) } := by
  have hacc : (sh.step s.batchSize closed x).accepted = sh.accepted := Shard.accepted_step closed x
  have hgrows : Grows s.shards (s.shards.set i (sh.step s.batchSize closed x)) :=
    grows_set hi (fun r hr => by rw [hacc]; exact hr) fun p hp => Shard.mem_replies_step hp closed x
  refine ⟨h.pos, ?_, ?_, ?_, fun n c hn => (h.call n c hn).mono hgrows⟩
  · intro j sh' hj
    rcases getElem?_set_cases hj with ⟨rfl, rfl⟩ | ⟨-, hj⟩
    · exact (h.shard i sh hi).step h.pos closed x
    · exact h.shard j sh' hj
  · intro j sh' hj
    rcases getElem?_set_cases hj with ⟨rfl, rfl⟩ | ⟨-, hj⟩
    · rw [hacc]
      exact h.nodup i sh hi
    · exact h.nodup j sh' hj
  · intro j sh' hj r hr
    rcases getElem?_set_cases hj with ⟨rfl, rfl⟩ | ⟨-, hj⟩
    · rw [hacc] at hr
      exact h.origin i sh hi r hr
    · exact h.origin j sh' hj r hr

/-- A request enters a channel: its name is new, since the call had not come to that slot. -/
theorem Inv.deliver (h : Inv s) {n i : Nat} {c : Call} {sh : Shard} {event : LlmEvent}
    (hn : s.calls[n]? = some c) (hi : s.shards[i]? = some sh)
    (hevent : c.events[c.sent.length]? = some event) :
    Inv { s.noteSent n c (.ok i) with
      shards := s.shards.set i (sh.push ⟨⟨n, c.sent.length⟩, event, c.kind.awaits⟩) } := by
  have hok := h.call n c hn
  have hlt : c.sent.length < c.events.length := (List.getElem?_eq_some_iff.mp hevent).1
  have hgrows : Grows s.shards
      (s.shards.set i (sh.push ⟨⟨n, c.sent.length⟩, event, c.kind.awaits⟩)) :=
    grows_set hi (fun r hr => List.mem_append_left _ hr) fun _ hp => hp
  have hcont : Continues c { c with picked := none, sent := c.sent ++ [.ok i] } :=
    ⟨rfl, rfl, [.ok i], rfl⟩
  -- a name that is in a channel is of a slot its call has sent, and this slot is the next one
  have hfresh : (⟨n, c.sent.length⟩ : Token) ∉ sh.accepted.map WriteRequest.token := by
    intro hmem
    obtain ⟨r, hr, htok⟩ := List.mem_map.mp hmem
    obtain ⟨d, hd, hsent⟩ := h.origin i sh hi r hr
    rw [htok, hn] at hd
    cases hd
    have := hsent.sent
    rw [htok, List.getElem?_eq_none (Nat.le_refl _)] at this
    cases this
  -- the requests that were there are still the requests of their calls: a call only gets longer
  have hold : ∀ (j : Nat) (r : WriteRequest),
      (∃ d : Call, s.calls[r.token.call]? = some d ∧ SentBy j r d) →
      ∃ d : Call, (s.calls.set n { c with picked := none, sent := c.sent ++ [.ok i] })[r.token.call]?
        = some d ∧ SentBy j r d :=
    fun _ _ hsent => exists_sentBy_set hn hcont hsent
  refine ⟨h.pos, ?_, ?_, ?_, ?_⟩
  · intro j sh' hj
    rcases getElem?_set_cases hj with ⟨rfl, rfl⟩ | ⟨-, hj⟩
    · exact (h.shard i sh hi).push _
    · exact h.shard j sh' hj
  · intro j sh' hj
    rcases getElem?_set_cases hj with ⟨rfl, rfl⟩ | ⟨-, hj⟩
    · simp only [Shard.push, List.map_append, List.map_cons, List.map_nil]
      exact List.nodup_append.mpr ⟨h.nodup i sh hi, List.nodup_singleton _, fun a ha b hb heq => by
        rw [List.mem_singleton.mp hb] at heq
        exact hfresh (heq ▸ ha)⟩
    · exact h.nodup j sh' hj
  · intro j sh' hj r hr
    rcases getElem?_set_cases hj with ⟨rfl, rfl⟩ | ⟨-, hj⟩
    · rcases List.mem_append.mp hr with hr | hr
      · exact hold i r (h.origin i sh hi r hr)
      · rw [List.mem_singleton.mp hr]
        refine ⟨_, getElem?_set_of hn, ?_⟩
        rw [if_pos rfl]
        exact ⟨List.getElem?_concat_length, hevent, rfl⟩
    · exact hold j r (h.origin j sh' hj r hr)
  · intro m d hd
    rcases getElem?_set_cases hd with ⟨rfl, rfl⟩ | ⟨-, hd⟩
    · have hmono := hok.mono hgrows
      refine ⟨?_, ?_, ?_, ?_⟩
      · rw [List.length_append]
        exact hlt
      · rw [List.length_append]
        exact Nat.le_succ_of_le hok.results_le
      · intro k j hk
        rcases getElem?_concat_cases hk with hk | ⟨rfl, heq⟩
        · exact hmono.delivered k j hk
        · cases heq
          refine ⟨_, getElem?_set_of hi, ?_⟩
          rw [if_pos rfl]
          exact ⟨_, List.mem_append_right _ (List.mem_singleton.mpr rfl), rfl⟩
      · intro k reply hk
        rcases hmono.told k reply hk with hclosed | ⟨j, sh', hsent, hsh, hmem⟩
        · exact .inl hclosed
        · exact .inr ⟨j, sh', getElem?_append_of hsent _, hsh, hmem⟩
    · exact (h.call m d hd).mono hgrows

/-- A caller is told what was replied to the request at that slot, or that the channel is closed. -/
theorem resultOf_cases {n k : Nat} {c : Call} {reply : Reply} (h : s.resultOf n c k = some reply) :
    k < c.sent.length ∧ (reply = .error .channelClosed ∨
      ∃ (i : Nat) (sh : Shard), c.sent[k]? = some (.ok i) ∧ s.shards[i]? = some sh ∧
        (⟨n, k⟩, reply) ∈ sh.replies) := by
  rw [resultOf] at h
  cases hk : c.sent[k]? with
  | none => rw [hk] at h; cases h
  | some outcome =>
    refine ⟨(List.getElem?_eq_some_iff.mp hk).1, ?_⟩
    rw [hk] at h
    cases outcome with
    | error e => exact .inl (Option.some.inj h).symm
    | ok i =>
      cases hi : s.shards[i]? with
      | none => simp only [hi] at h; cases h
      | some sh =>
        simp only [hi] at h
        cases hl : sh.replies.lookup ⟨n, k⟩ with
        | some answer =>
          rw [hl] at h
          cases h
          exact .inr ⟨i, sh, rfl, hi, mem_of_lookup hl⟩
        | none =>
          rw [hl] at h
          dsimp only at h
          split at h
          · exact .inl (Option.some.inj h).symm
          · cases h

theorem Turn.continues {n : Nat} {c c' : Call} (h : Turn s n c c') : Continues c c' := by
  cases h with
  | refused hlt e => exact ⟨rfl, rfl, [.error e], rfl⟩
  | _ => exact ⟨rfl, rfl, [], (List.append_nil _).symm⟩

/-- A call that does something by itself still has a right view. -/
theorem CallOk.turn {n : Nat} {c c' : Call} (hok : CallOk s.shards n c) (h : Turn s n c c') :
    CallOk s.shards n c' := by
  cases h with
  | picked i => exact ⟨hok.sent_le, hok.results_le, hok.delivered, hok.told⟩
  | cancelled => exact ⟨hok.sent_le, hok.results_le, hok.delivered, hok.told⟩
  | refused hlt e =>
    refine ⟨?_, ?_, ?_, ?_⟩
    · rw [List.length_append]
      exact hlt
    · rw [List.length_append]
      exact Nat.le_succ_of_le hok.results_le
    · intro k i hk
      rcases getElem?_concat_cases hk with hk | ⟨-, heq⟩
      · exact hok.delivered k i hk
      · cases heq
    · intro k reply hk
      rcases hok.told k reply hk with hclosed | ⟨i, sh, hsent, hsh, hmem⟩
      · exact .inl hclosed
      · exact .inr ⟨i, sh, getElem?_append_of hsent _, hsh, hmem⟩
  | @told reply hreply =>
    obtain ⟨hlt, hcases⟩ := resultOf_cases hreply
    refine ⟨hok.sent_le, ?_, hok.delivered, ?_⟩
    · rw [List.length_append]
      exact hlt
    · intro k answer hk
      rcases getElem?_concat_cases hk with hk | ⟨rfl, rfl⟩
      · exact hok.told k answer hk
      · exact hcases

/-- What a call sent at a slot is a request with the event at that slot. -/
theorem Inv.request (h : Inv s) {n k i : Nat} {c : Call} (hn : s.calls[n]? = some c)
    (hk : c.sent[k]? = some (.ok i)) :
    ∃ sh, s.shards[i]? = some sh ∧
      ∃ r ∈ sh.accepted, r.token = ⟨n, k⟩ ∧ c.events[k]? = some r.event := by
  obtain ⟨sh, hi, r, hr, htok⟩ := (h.call n c hn).delivered k i hk
  obtain ⟨d, hd, hsent⟩ := h.origin i sh hi r hr
  have hevent := hsent.event
  rw [htok] at hd hevent
  rw [hn] at hd
  cases hd
  exact ⟨sh, hi, r, hr, htok, hevent⟩

/-- The reply is the one to the event at slot `k` of call `n`, or there was nobody to reply. -/
def RepliedTo (s : BatchWriter) (n k : Nat) (event : LlmEvent) (reply : Reply) : Prop :=
  reply = .error .channelClosed ∨ ∃ (i : Nat) (sh : Shard), s.shards[i]? = some sh ∧
    ∃ r ∈ sh.accepted, r.token = ⟨n, k⟩ ∧ r.event = event ∧ (r.token, reply) ∈ sh.replies

/-- The result at a slot is the reply to the event at that slot. -/
theorem Inv.repliedTo (h : Inv s) {n k : Nat} {c : Call} {reply : Reply} (hn : s.calls[n]? = some c)
    (hk : c.results[k]? = some reply) :
    ∃ event, c.events[k]? = some event ∧ RepliedTo s n k event reply := by
  have hok := h.call n c hn
  rcases hok.told k reply hk with hclosed | ⟨i, sh, hsent, hi, hmem⟩
  · have hlt : k < c.events.length := Nat.lt_of_lt_of_le (List.getElem?_eq_some_iff.mp hk).1
      (Nat.le_trans hok.results_le hok.sent_le)
    exact ⟨c.events[k], List.getElem?_eq_getElem hlt, .inl hclosed⟩
  · obtain ⟨sh', hi', r, hr, htok, hevent⟩ := h.request hn hsent
    rw [hi] at hi'
    cases hi'
    exact ⟨r.event, hevent, .inr ⟨i, sh, hi, r, hr, htok, rfl, by rw [htok]; exact hmem⟩⟩

/-- An `Ok` at a slot has the id of the event at that slot. -/
theorem Inv.id_of_result (h : Inv s) {n k : Nat} {c : Call} {id : EventId} (hn : s.calls[n]? = some c)
    (hk : c.results[k]? = some (.ok id)) : ∃ event, c.events[k]? = some event ∧ event.id = id := by
  rcases (h.call n c hn).told k (.ok id) hk with hclosed | ⟨i, sh, -, hi, hmem⟩
  · cases hclosed
  · obtain ⟨batch, hbatch, r, hr, htok, hid⟩ := (h.shard i sh hi).truthful _ _ hmem
    obtain ⟨d, hd, hsent⟩ := h.origin i sh hi r ((h.shard i sh hi).mem_accepted hbatch hr)
    have hevent := hsent.event
    rw [htok] at hd hevent
    rw [hn] at hd
    cases hd
    exact ⟨r.event, hevent, hid⟩

theorem inv_step (s : BatchWriter) (x : Input) (h : Inv s) : Inv (s.step x) := by
  have heff := effect s x
  generalize s.step x = s' at heff
  cases heff with
  | nothing => exact h
  | begin kind events _ => exact h.begin kind events
  | turn hn hturn t => exact h.setCall hn hturn.continues ((h.call _ _ hn).turn hturn) t
  | deliver hn _ hevent hi => exact h.deliver hn hi hevent
  | loop _ hi => exact h.loop hi s.dropped _
  | shutdown => exact ⟨h.pos, h.shard, h.nodup, h.origin, h.call⟩
  | drop _ => exact ⟨h.pos, h.shard, h.nodup, h.origin, h.call⟩

/-- What a call was asked for. -/
def asked (c : Call) : CallKind × List LlmEvent := (c.kind, c.events)

/-- What was asked for stays as it was, call by call. -/
theorem asked_step (s : BatchWriter) (x : Input) (hx : x.begins = false) :
    (s.step x).calls.map asked = s.calls.map asked := by
  have heff := effect s x
  generalize s.step x = s' at heff
  cases heff with
  | begin kind events hbegins =>
    rw [hx] at hbegins
    cases hbegins
  | turn hn hturn t =>
    obtain ⟨hevents, hkind, -⟩ := hturn.continues
    exact map_set_of_eq hn (by rw [asked, asked, hevents, hkind])
  | deliver hn _ _ _ => exact map_set_of_eq hn rfl
  | nothing | loop _ _ | shutdown | drop _ => rfl

theorem length_calls_step (s : BatchWriter) {x : Input} (hx : x.begins = false) :
    (s.step x).calls.length = s.calls.length := by
  have hasked := congrArg List.length (asked_step s x hx)
  simpa using hasked

/-- The batch size of a shard is fixed when the writer is made. -/
theorem batchSize_step (s : BatchWriter) (x : Input) : (s.step x).batchSize = s.batchSize := by
  have heff := effect s x
  generalize s.step x = s' at heff
  cases heff <;> rfl

theorem inv_run (config : BatchConfig) (xs : List Input) :
    Inv (run step (new config) xs) ∧
      (run step (new config) xs).batchSize = (new config).batchSize :=
  ⟨run_invariant_of_step inv_step (inv_new config) xs, run_unchanged batchSize_step _ xs⟩

end BatchWriter

/-- In every state of every run, of every shard `i` of the writer:
what was accepted into its channel is, in that order, done, in the flush in progress, in the buffer
or in the channel, and no name is there twice; the buffer is within the batch size; nothing was
handed to the store twice; replies go to done requests somebody waits for, one each; and an `Ok`
with an id is for a request of that event in a batch whose append returned `Ok`. No name is in two
shards. And of every call, the event at each slot that was sent is in the shard it was sent to, and
the result at a slot is the reply to that event, or that the channel was closed. -/
theorem batch_writer_delivers_once (config : BatchConfig) (xs : List BatchWriter.Input) :
    let s := run BatchWriter.step (.new config) xs
    (∀ (i : Nat) (sh : Shard), s.shards[i]? = some sh →
      sh.accepted = sh.done ++ sh.flight ++ sh.buffer ++ sh.channel ∧
      (sh.accepted.map WriteRequest.token).Nodup ∧
      sh.buffer.length ≤ (BatchWriter.new config).batchSize ∧
      sh.handed.flatten = sh.done ++ sh.flight ∧
      (sh.handed.flatten.map WriteRequest.token).Nodup ∧
      (sh.replies.map Prod.fst).Nodup ∧
      (∀ t reply, (t, reply) ∈ sh.replies → ∃ r ∈ sh.done, r.token = t ∧ r.awaited = true) ∧
      ∀ t id, (t, .ok id) ∈ sh.replies →
        ∃ batch, (batch, .ok ()) ∈ sh.appends ∧
          ∃ r ∈ batch, r ∈ sh.accepted ∧ r.token = t ∧ r.event.id = id) ∧
    (∀ (i j : Nat) (sh sh' : Shard), s.shards[i]? = some sh → s.shards[j]? = some sh' →
      ∀ r ∈ sh.accepted, ∀ r' ∈ sh'.accepted, r.token = r'.token → i = j) ∧
    ∀ (n : Nat) (c : Call), s.calls[n]? = some c →
      (∀ (k i : Nat), c.sent[k]? = some (.ok i) →
        ∃ sh, s.shards[i]? = some sh ∧
          ∃ r ∈ sh.accepted, r.token = ⟨n, k⟩ ∧ c.events[k]? = some r.event) ∧
      ∀ (k : Nat) (reply : Reply), c.results[k]? = some reply →
        k < c.events.length ∧ (reply = .error .channelClosed ∨
          ∃ (i : Nat) (sh : Shard), s.shards[i]? = some sh ∧
            ∃ r ∈ sh.accepted, r.token = ⟨n, k⟩ ∧ c.events[k]? = some r.event ∧
              (r.token, reply) ∈ sh.replies) := by
  intro s
  obtain ⟨hinv, hsize⟩ := BatchWriter.inv_run config xs
  refine ⟨fun i sh hi => ?_, ?_, fun n c hn => ⟨fun k i hk => ?_, fun k reply hk => ?_⟩⟩
  · have hsh := hinv.shard i sh hi
    have hnodup := hinv.nodup i sh hi
    -- no name was accepted twice, and what was handed over is the front of what was accepted
    have hhanded : (sh.handed.flatten.map WriteRequest.token).Nodup := by
      rw [hsh.queue, List.map_append] at hnodup
      exact hnodup.of_append_left
    have hdone : (sh.done.map WriteRequest.token).Nodup := by
      rw [hsh.flushes, List.map_append] at hhanded
      exact hhanded.of_append_left
    refine ⟨?_, hnodup, ?_, hsh.flushes, hhanded, ?_, ?_, ?_⟩
    · rw [hsh.queue, hsh.flushes, List.append_assoc _ sh.buffer]
    · rw [← hsize]
      exact hsh.bounded
    · rw [hsh.answered]
      exact hdone.sublist (List.filter_sublist.map _)
    · intro t reply ht
      have hmem : t ∈ sh.replies.map Prod.fst := List.mem_map_of_mem ht
      rw [hsh.answered] at hmem
      obtain ⟨r, hr, htok⟩ := List.mem_map.mp hmem
      obtain ⟨hr, hawaited⟩ := List.mem_filter.mp hr
      exact ⟨r, hr, htok, hawaited⟩
    · intro t id ht
      obtain ⟨batch, hbatch, r, hr, htok, hid⟩ := hsh.truthful t id ht
      exact ⟨batch, hbatch, r, hr, hsh.mem_accepted hbatch hr, htok, hid⟩
  · intro i j sh sh' hi hj r hr r' hr' htok
    obtain ⟨c, hc, hsent⟩ := hinv.origin i sh hi r hr
    obtain ⟨c', hc', hsent'⟩ := hinv.origin j sh' hj r' hr'
    -- the call of that name sent its slot to one shard
    rw [htok, hc'] at hc
    cases hc
    have h := hsent.sent
    rw [htok, hsent'.sent] at h
    cases h
    rfl
  · exact hinv.request hn hk
  · obtain ⟨event, hevent, hreplied⟩ := hinv.repliedTo hn hk
    refine ⟨(List.getElem?_eq_some_iff.mp hevent).1, hreplied.imp_right ?_⟩
    rintro ⟨i, sh, hi, r, hr, htok, rfl, hmem⟩
    exact ⟨i, sh, hi, r, hr, htok, hevent, hmem⟩

/-- Two events in one call go to two shards; one flush succeeds and one fails. -/
example :
    let s := run BatchWriter.step (.new .default)
      [.writeMany [(requestFor 1 "free").event, (requestFor 2 "pro").event],
        .pick 0, .send 0, .pick 0, .send 0, .loop 1 .recv, .loop 0 .recv, .loop 0 .drain,
        .loop 1 .drain, .loop 1 .tick, .loop 0 .tick, .loop 1 (.appended (.error .channelFull)),
        .loop 1 .reply, .loop 0 (.appended (.ok ())), .loop 0 .reply, .await 0, .await 0]
    s.calls.map Call.results =
      [[.ok ⟨1⟩, .error (.internal "batch writer channel full")]] := by
  decide +kernel

end Keplor.Store
