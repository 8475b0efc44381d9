import Keplor.Store.Queues

/-!
# How the batch writer drains

Once the last handle of the writer is gone its channels are closed, and a loop that goes on taking
steps flushes what it has and ends. That needs a measure: a request is worth more the further it has
to go, so that every step of the loop that moves a request brings the sum down, and the phase pays
for the others.

Ending a loop by force at the deadline of `shutdown` is not part of this.
-/

set_option autoImplicit false

namespace Keplor.Store

open Keplor.Lib Keplor.Core

/-! ## 1. The way of a loop to its end -/

namespace Shard

variable {batchSize : Nat} {sh : Shard} {x : Input}

/-- The loop can take this step from where it stands. A tick that finds nothing to flush is none, and
a loop that has ended has no way to go. -/
def ready (sh : Shard) (x : Input) : Bool :=
  match sh.phase, x with
  | .idle, .recv => true
  | .idle, .tick => !sh.buffer.isEmpty
  | .draining, .drain => true
  | .flushing _ _, .appended _ => true
  | .replying _ _, .reply => true
  | .exited, _ => true
  | _, _ => false

/-- What the phase itself has to go. -/
def Phase.toGo : Phase → Nat
  | .idle => 1
  | .draining => 2
  | .flushing _ _ => 4
  | .replying _ _ => 3
  | .exited => 0

/-- An upper bound on the steps the loop has to go: a request in the channel is taken, flushed and
answered, one in the buffer is flushed and answered, and one in the flush is answered. -/
def toGo (sh : Shard) : Nat :=
  7 * sh.channel.length + 5 * sh.buffer.length + sh.flight.length + Phase.toGo sh.phase

theorem gone_of_toGo_eq_zero (h : sh.toGo = 0) : sh.gone = true := by
  have hphase : Phase.toGo sh.phase = 0 := Nat.eq_zero_of_add_eq_zero_left h
  cases hp : sh.phase with
  | exited => simp [gone, hp]
  | idle | draining | flushing _ _ | replying _ _ =>
    rw [hp] at hphase
    cases hphase

theorem toGo_recv (hp : sh.phase = .idle) :
    (sh.recv true).toGo < sh.toGo := by
  have hfull : sh.toGo = 7 * sh.channel.length + 5 * sh.buffer.length + 1 := by
    simp [toGo, flight, hp, Phase.toGo]
  rw [hfull]
  unfold recv
  split
  · rename_i r rest hchannel
    simp only [toGo, flight, Phase.toGo, hchannel, List.length_cons, List.length_append,
      List.length_nil]
    omega
  · rename_i hchannel
    simp only [if_true]
    split
    · rename_i hbuffer
      simp [toGo, flight, Phase.toGo, hchannel, List.isEmpty_iff.mp hbuffer]
    · rename_i hbuffer
      have hpos : 0 < sh.buffer.length := by
        simpa [List.length_pos_iff] using hbuffer
      simp only [toGo, beginFlush, flight, Phase.toGo, hchannel, List.length_nil]
      omega

theorem toGo_beginFlush (hp : sh.Receiving) (hbuffer : 0 < sh.buffer.length) (last : Bool) :
    (sh.beginFlush last).toGo < sh.toGo := by
  have hfull : 7 * sh.channel.length + 5 * sh.buffer.length + 1 ≤ sh.toGo := by
    rcases hp with hp | hp
    · simp [toGo, flight, hp, Phase.toGo]
    · simp [toGo, flight, hp, Phase.toGo]
  refine Nat.lt_of_lt_of_le ?_ hfull
  simp only [toGo, beginFlush, flight, Phase.toGo, List.length_nil]
  omega

theorem toGo_drain (hpos : 0 < batchSize) (hp : sh.phase = .draining) :
    (sh.drain batchSize).toGo < sh.toGo := by
  unfold drain
  split
  · split
    · rename_i r rest hchannel
      simp only [toGo, flight, hp, Phase.toGo, hchannel, List.length_cons, List.length_append,
        List.length_nil]
      omega
    · rename_i hchannel
      simp [toGo, flight, hp, Phase.toGo]
  · rename_i hfull
    exact toGo_beginFlush (.inr hp) (by omega) false

/-- Every step a loop can take once the channel is closed brings it nearer to its end. -/
theorem toGo_step (hpos : 0 < batchSize) (hready : sh.ready x = true) (hgone : ¬ sh.gone = true) :
    (sh.step batchSize true x).toGo < sh.toGo := by
  unfold ready at hready
  split at hready
  · rename_i hp
    simp only [Shard.step, hp]
    exact toGo_recv hp
  · rename_i hp
    simp only [Shard.step, hp]
    unfold tick
    rw [if_neg (by simpa using hready)]
    refine toGo_beginFlush (.inl hp) ?_ false
    simpa [List.length_pos_iff] using hready
  · rename_i hp
    simp only [Shard.step, hp]
    exact toGo_drain hpos hp
  · rename_i batch last outcome hp
    have hlength : ((Store.replies batch (outcome.map fun _ => batch.map fun r => r.event.id)).map
        Prod.fst).length = batch.length := by rw [map_fst_replies]
    simp only [Shard.step, hp, toGo, appended, flight, Phase.toGo, hlength]
    omega
  · rename_i rest last hp
    cases rest with
    | nil =>
      cases last with
      | false => simp [Shard.step, hp, toGo, flight, Phase.toGo]
      | true => simp [Shard.step, hp, toGo, flight, Phase.toGo]
    | cons p rest =>
      simp only [Shard.step, hp, toGo, Shard.reply, flight, Phase.toGo, List.map_cons,
        List.length_cons]
      omega
  · rename_i hp
    exact absurd (by simp [gone, hp]) hgone
  · cases hready

/-- A full channel and a full batch are the most a loop can have before it. -/
theorem toGo_le (h : sh.Inv batchSize) (hflight : sh.FlightOk batchSize) {capacity : Nat}
    (hchannel : sh.channel.length ≤ capacity) : sh.toGo ≤ 7 * capacity + 5 * batchSize + 4 := by
  have hbuffer := h.bounded
  have hphase := h.phase
  unfold FlightOk at hflight
  cases hp : sh.phase with
  | idle | draining | exited =>
    simp only [toGo, flight, hp, Phase.toGo, List.length_nil]
    omega
  | flushing batch last | replying rest last =>
    simp only [PhaseOk, hp] at hphase
    simp only [toGo, hp, Phase.toGo, hphase.2.1, List.length_nil]
    omega

end Shard

/-! ## 2. Steps of a dropped writer -/

namespace BatchWriter

variable {s : BatchWriter} {x : Input}

/-- If the step is one of the loop of this shard, the loop can take it. -/
def loopReady (i : Nat) (s : BatchWriter) : Input → Bool
  | .loop j y => j != i || (s.shards[i]?.map fun sh => sh.ready y).getD true
  | _ => true

def ofLoop (i : Nat) : Input → Bool
  | .loop j _ => j == i
  | _ => false

/-- What the loop of a shard has to go. -/
def toGo (i : Nat) (s : BatchWriter) : Nat := (s.shards[i]?.map Shard.toGo).getD 0

/-- What a shard becomes when another task moves and the senders are gone: nothing else. -/
theorem shard_step_other (hsealed : s.Sealed) (hd : s.dropped = true) {i : Nat} {sh : Shard}
    (hi : s.shards[i]? = some sh) (hx : ofLoop i x = false) : (s.step x).shards[i]? = some sh := by
  rcases shards_step s x with h | ⟨n, j, c, event, sh', hn, hcancelled, hevent, -, -⟩ |
    ⟨j, y, sh', rfl, hj, h⟩
  · rw [h]
    exact hi
  · have hover := hsealed hd c (List.mem_of_getElem? hn)
    rw [not_over hcancelled hevent] at hover
    cases hover
  · rw [h, List.getElem?_set_ne (by simpa [ofLoop] using hx)]
    exact hi

theorem shard_step_own {i : Nat} {sh : Shard} (hi : s.shards[i]? = some sh) (y : Shard.Input) :
    (s.step (.loop i y)).shards[i]? = some (sh.step s.batchSize s.dropped y) := by
  simp only [step, hi]
  rw [getElem?_set_of hi, if_pos rfl]

/-- The shard of a dropped writer: what it has accepted is all it will. -/
structure Draining (i : Nat) (accepted : List WriteRequest) (s : BatchWriter) : Prop where
  flows : s.Flows
  dropped : s.dropped = true
  shard : ∃ sh : Shard, s.shards[i]? = some sh ∧ sh.accepted = accepted

variable {i : Nat} {accepted : List WriteRequest}

theorem draining_step (s : BatchWriter) (x : Input) (h : Draining i accepted s) :
    Draining i accepted (s.step x) := by
  refine ⟨flows_step s x h.flows, ?_, ?_⟩
  · cases hd : (s.step x).dropped with
    | true => rfl
    | false => rw [← dropped_of_step hd, h.dropped]
  · obtain ⟨sh, hi, haccepted⟩ := h.shard
    cases hown : ofLoop i x with
    | false => exact ⟨sh, shard_step_other h.flows.closed h.dropped hi hown, haccepted⟩
    | true =>
      obtain ⟨y, rfl⟩ : ∃ y, x = .loop i y := by
        cases x with
        | loop j y => exact ⟨y, by rw [show j = i by simpa [ofLoop] using hown]⟩
        | _ => cases hown
      exact ⟨_, shard_step_own hi y, by rw [Shard.accepted_step, haccepted]⟩

theorem toGo_of {sh : Shard} (hi : s.shards[i]? = some sh) : s.toGo i = sh.toGo := by
  rw [toGo, hi]
  rfl

theorem phase_of_gone {sh : Shard} (h : sh.gone = true) : sh.phase = .exited := by
  unfold Shard.gone at h
  split at h
  · assumption
  · cases h

/-- A loop that has ended does not come back. -/
theorem loopDone_step (s : BatchWriter) (x : Input) (h : s.loopDone i = true) :
    (s.step x).loopDone i = true := by
  obtain ⟨sh, hi, hgone⟩ : ∃ sh : Shard, s.shards[i]? = some sh ∧ sh.gone = true := by
    unfold loopDone at h
    cases hi : s.shards[i]? with
    | none =>
      rw [hi] at h
      cases h
    | some sh =>
      rw [hi] at h
      exact ⟨sh, rfl, h⟩
  have hset : ∀ {j : Nat} {sh₁ sh' : Shard}, s.shards[j]? = some sh₁ →
      (sh₁.gone = true → sh'.gone = true) →
      ((s.shards.set j sh')[i]?.map Shard.gone).getD false = true := by
    intro j sh₁ sh' hj himp
    rw [getElem?_set_of hi]
    split
    · rename_i hij
      subst hij
      rw [hi] at hj
      cases hj
      exact himp hgone
    · exact hgone
  unfold loopDone
  rcases shards_step s x with hsame | ⟨n, j, c, event, sh₁, -, -, -, hj, h⟩ |
    ⟨j, y, sh₁, -, hj, h⟩
  · rw [hsame, hi]
    exact hgone
  · rw [h]
    exact hset hj fun hg => hg
  · rw [h]
    refine hset hj fun hg => ?_
    unfold Shard.step
    rw [phase_of_gone hg]
    exact hg

/-- With enough steps of its own the loop of a dropped writer ends. -/
theorem loopDone_of_steps (h : Draining i accepted s) {ys : List Input}
    (hready : Allowed step (fun s x => s.loopReady i x = true) s ys)
    (henough : s.toGo i ≤ ys.countP (ofLoop i)) : (run step s ys).loopDone i = true := by
  have hstep : ∀ (s : BatchWriter) (x : Input), Draining i accepted s → s.loopReady i x = true →
      Draining i accepted (s.step x) := fun s x h _ => draining_step s x h
  refine run_reaches (fun s => s.loopDone i = true) (ofLoop i) (toGo i) hstep
    (fun s x hdone => loopDone_step s x hdone) ?_ ?_ ?_ h hready henough
  · intro s x h hok hown hlive
    obtain ⟨sh, hi, -⟩ := h.shard
    obtain ⟨y, rfl⟩ : ∃ y, x = .loop i y := by
      cases x with
      | loop j y => exact ⟨y, by rw [show j = i by simpa [ofLoop] using hown]⟩
      | _ => cases hown
    have hready : sh.ready y = true := by simpa [loopReady, hi] using hok
    have hgone : ¬ sh.gone = true := by simpa [loopDone, hi] using hlive
    rw [toGo_of hi, toGo_of (shard_step_own hi y), h.dropped]
    exact Shard.toGo_step h.flows.inv.pos hready hgone
  · intro s x h _ hown
    obtain ⟨sh, hi, -⟩ := h.shard
    rw [toGo_of hi, toGo_of (shard_step_other h.flows.closed h.dropped hi hown)]
  · intro s h hzero
    obtain ⟨sh, hi, -⟩ := h.shard
    rw [toGo_of hi] at hzero
    simpa [loopDone, hi] using Shard.gone_of_toGo_eq_zero hzero

end BatchWriter

/-! ## The result -/

/-- Once the last handle of the writer is gone, and whatever the other tasks do, a shard whose loop
takes enough of the steps it can take ends. Its queue is empty then; the batches whose appends
returned are, in order, the requests it had accepted; and each of those that somebody waits for has
its reply. -/
theorem dropped_writer_drains (config : BatchConfig) (xs ys : List BatchWriter.Input) (i : Nat)
    (sh : Shard) (hdropped : (run BatchWriter.step (.new config) xs).dropped = true)
    (hi : (run BatchWriter.step (.new config) xs).shards[i]? = some sh)
    (hready : Allowed BatchWriter.step (fun s x => s.loopReady i x = true)
      (run BatchWriter.step (.new config) xs) ys)
    (henough : 7 * (BatchWriter.new config).capacity + 5 * (BatchWriter.new config).batchSize + 4
      ≤ ys.countP (BatchWriter.ofLoop i)) :
    ∃ sh' : Shard, (run BatchWriter.step (.new config) (xs ++ ys)).shards[i]? = some sh' ∧
      sh'.gone = true ∧ sh'.queued = [] ∧ sh'.accepted = sh.accepted ∧
      (sh'.appends.map Prod.fst).flatten = sh.accepted ∧
      sh'.replies.map Prod.fst = (sh.accepted.filter WriteRequest.awaited).map WriteRequest.token := by
  have hflows := BatchWriter.flows_run config xs
  have hcapacity : (run BatchWriter.step (.new config) xs).capacity = (BatchWriter.new config).capacity :=
    run_unchanged BatchWriter.capacity_step _ xs
  have hsize : (run BatchWriter.step (.new config) xs).batchSize = (BatchWriter.new config).batchSize :=
    run_unchanged BatchWriter.batchSize_step _ xs
  have hmem := List.mem_of_getElem? hi
  have hdraining : (run BatchWriter.step (.new config) xs).Draining i sh.accepted :=
    ⟨hflows, hdropped, sh, hi, rfl⟩
  have hgo : (run BatchWriter.step (.new config) xs).toGo i ≤ ys.countP (BatchWriter.ofLoop i) := by
    rw [BatchWriter.toGo_of hi]
    refine Nat.le_trans ?_ henough
    rw [← hcapacity, ← hsize]
    exact Shard.toGo_le (hflows.inv.shard_of_mem hmem) (hflows.flight sh hmem) (hflows.room sh hmem)
  have hdone := BatchWriter.loopDone_of_steps hdraining hready hgo
  have hend : (run BatchWriter.step (run BatchWriter.step (.new config) xs) ys).Draining i sh.accepted :=
    run_invariant_of_step BatchWriter.draining_step hdraining ys
  obtain ⟨sh', hi', haccepted⟩ := hend.shard
  have hgone : sh'.gone = true := by simpa [BatchWriter.loopDone, hi'] using hdone
  have hmem' := List.mem_of_getElem? hi'
  have hinv := hend.flows.inv.shard_of_mem hmem'
  have hqueued := hinv.queued_eq_nil (hend.flows.emptied sh' hmem') hgone
  -- nothing is queued, so what was accepted is what was handed over, and that is what was answered for
  obtain ⟨hundecided, hrest⟩ := List.append_eq_nil_iff.mp hqueued
  have hhanded : sh'.accepted = sh'.handed.flatten := by
    rw [hinv.queue, hrest, List.append_nil]
  have hlogged := hend.flows.logged sh' hmem'
  rw [Shard.Logged, hundecided, List.append_nil] at hlogged
  have hflight : sh'.flight = [] := by simp [Shard.flight, BatchWriter.phase_of_gone hgone]
  rw [run_append]
  refine ⟨sh', hi', hgone, hqueued, haccepted, ?_, ?_⟩
  · rw [← hlogged, ← hhanded, haccepted]
  · rw [hinv.answered, ← haccepted, hhanded, hinv.flushes, hflight, List.append_nil]

/-- A caller gives up on its request, and the writer goes. -/
def leftBehind : List BatchWriter.Input :=
  [.write sampleEvent, .pick 0, .send 0, .cancel 0, .drop]

/-- The loop takes the request, finds the channel closed, flushes and ends; the rest is there to have
enough steps. -/
def lastSteps : List BatchWriter.Input :=
  [.loop 0 .recv, .loop 0 .drain, .loop 0 .recv, .loop 0 (.appended (.ok ())), .loop 0 .reply,
    .loop 0 .reply] ++ List.replicate 94 (.loop 0 .recv)

theorem left_behind_is_flushed :
    ∃ sh' : Shard,
      (run BatchWriter.step (.new oneShard) (leftBehind ++ lastSteps)).shards[0]? = some sh' ∧
      sh'.gone = true ∧ (sh'.appends.map Prod.fst).flatten = [⟨⟨0, 0⟩, sampleEvent, true⟩] ∧
      sh'.replies.map Prod.fst = [⟨0, 0⟩] := by
  have haccepted : (run BatchWriter.step (.new oneShard) leftBehind).shards.map Shard.accepted
      = [[⟨⟨0, 0⟩, sampleEvent, true⟩]] := rfl
  obtain ⟨sh, hsh⟩ := List.length_eq_one_iff.mp (by simpa using congrArg List.length haccepted)
  rw [hsh, List.map_singleton, List.singleton_inj] at haccepted
  obtain ⟨sh', hi', hgone, -, -, happends, hreplies⟩ := dropped_writer_drains oneShard leftBehind
    lastSteps 0 sh rfl (by rw [hsh]; rfl) (by decide +kernel) (by decide +kernel)
  rw [haccepted] at happends hreplies
  exact ⟨sh', hi', hgone, happends, hreplies⟩

end Keplor.Store
