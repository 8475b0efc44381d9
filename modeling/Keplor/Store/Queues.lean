import Keplor.Store.BatchQueue
import Keplor.Store.Shutdown
import Mathlib.Algebra.Group.Action.Defs
import Mathlib.Algebra.GroupWithZero.Nat
import Mathlib.Algebra.Order.BigOperators.Group.List

/-!
# How much the batch writer holds

Requests of `batch.rs` go through bounded channels. What the writer has taken and not decided is at
most its channels and one batch for each shard, and a call is told that there is no room only when
there is none.

`Flows` collects what holds of the queues in every state; the drain of a writer rests on it too.
-/

set_option autoImplicit false

namespace Keplor.Store

open Keplor.Lib Keplor.Core

/-! ## 1. One shard -/

namespace Shard

/-- The loop is on its last flush, or past it. -/
def leaving (sh : Shard) : Bool :=
  match sh.phase with
  | .flushing _ last => last
  | .replying _ last => last
  | .exited => true
  | _ => false

/-- What was handed to the store is what it has answered for, and the batch it has not. -/
def Logged (sh : Shard) : Prop := sh.handed.flatten = (sh.appends.map Prod.fst).flatten ++ sh.undecided

/-- The flush in progress is of one batch. -/
def FlightOk (batchSize : Nat) (sh : Shard) : Prop := sh.flight.length ≤ batchSize

/-- A loop on its way out has left nothing in its channel. -/
def Emptied (sh : Shard) : Prop := sh.leaving = true → sh.channel = []

variable {batchSize : Nat} {sh : Shard} {closed : Bool} {x : Input}

@[simp] theorem channel_push (sh : Shard) (r : WriteRequest) :
    (sh.push r).channel = sh.channel ++ [r] := rfl

@[simp] theorem channel_beginFlush (sh : Shard) (last : Bool) :
    (sh.beginFlush last).channel = sh.channel := rfl

@[simp] theorem leaving_push (sh : Shard) (r : WriteRequest) : (sh.push r).leaving = sh.leaving := rfl

theorem leaving_eq_false (h : sh.Staying) : sh.leaving = false := by
  unfold Staying at h
  unfold leaving
  split at h
  · exact h.elim
  · rename_i hp
    simp [hp, h]
  · rename_i hp
    simp [hp, h]
  · split <;> simp_all

/-- Only the loop takes requests out of the channel, and it puts none in. -/
theorem length_channel_step_le (batchSize : Nat) (closed : Bool) (x : Input) (sh : Shard) :
    (sh.step batchSize closed x).channel.length ≤ sh.channel.length := by
  have heff := effect batchSize closed x sh
  generalize sh.step batchSize closed x = sh' at heff
  cases heff with
  | take _ _ hchannel => simp [hchannel]
  | _ => exact Nat.le_refl _

theorem undecided_of_receiving (h : sh.Receiving) : sh.undecided = [] := by
  rcases h with h | h
  · simp [undecided, h]
  · simp [undecided, h]

theorem Logged.step (h : sh.Logged) : (sh.step batchSize closed x).Logged := by
  have heff := effect batchSize closed x sh
  generalize sh.step batchSize closed x = sh' at heff
  unfold Logged at h ⊢
  cases heff with
  | nothing => exact h
  | take hp _ _ =>
    rw [undecided_of_receiving hp] at h
    exact h
  | rest hp _ =>
    rw [undecided_of_receiving (.inr hp)] at h
    exact h
  | flush hp _ =>
    rw [undecided_of_receiving hp] at h
    simp only [beginFlush, List.flatten_append, h]
    simp [undecided]
  | leave hp _ _ =>
    rw [undecided_of_receiving (.inl hp)] at h
    exact h
  | @appended batch last outcome hp _ =>
    simp only [undecided, hp] at h
    simp [appended, undecided, h]
  | reply hp =>
    simp only [undecided, hp] at h
    simpa [Shard.reply, undecided] using h
  | @finish last hp =>
    simp only [undecided, hp] at h
    cases last with
    | true => exact h
    | false => exact h

theorem FlightOk.step (h : sh.FlightOk batchSize) (hinv : sh.Inv batchSize) :
    (sh.step batchSize closed x).FlightOk batchSize := by
  have heff := effect batchSize closed x sh
  generalize sh.step batchSize closed x = sh' at heff
  unfold FlightOk at h ⊢
  cases heff with
  | nothing => exact h
  | take _ _ _ => exact Nat.zero_le _
  | rest _ _ => exact Nat.zero_le _
  | leave _ _ _ => exact Nat.zero_le _
  | flush _ _ => exact hinv.bounded
  | @appended batch last outcome hp _ =>
    simp only [flight, hp] at h
    simp only [appended, flight, map_fst_replies]
    exact h
  | reply hp =>
    simp only [flight, hp, List.map_cons, List.length_cons] at h
    exact Nat.le_of_succ_le h
  | @finish last hp =>
    cases last with
    | true => exact Nat.zero_le _
    | false => exact Nat.zero_le _

/-- A loop that has not begun to leave has nothing to have left behind. -/
theorem emptied_of_staying (h : sh.leaving = false) : sh.Emptied := by
  intro hleaving
  rw [h] at hleaving
  cases hleaving

/-- The loop leaves when `recv` finds the channel closed, which it does not while there is a request
in it. -/
theorem emptied_recv (h : sh.Emptied) (closed : Bool) : (sh.recv closed).Emptied := by
  unfold recv
  split
  · exact emptied_of_staying rfl
  · rename_i hchannel
    split
    · split
      · exact fun _ => hchannel
      · exact fun _ => hchannel
    · exact h

theorem emptied_drain (hp : sh.phase = .draining) : (sh.drain batchSize).Emptied := by
  unfold drain
  split
  · split
    · exact emptied_of_staying (by simp [leaving, hp])
    · exact emptied_of_staying rfl
  · exact emptied_of_staying rfl

theorem Emptied.step (h : sh.Emptied) : (sh.step batchSize closed x).Emptied := by
  unfold Shard.step
  split
  · exact emptied_recv h closed
  · unfold tick
    split
    · exact h
    · exact emptied_of_staying rfl
  · rename_i hp
    exact emptied_drain hp
  · rename_i batch last outcome hp
    intro hleaving
    exact h (by rw [leaving, hp]; exact hleaving)
  · rename_i r answer rest last hp
    intro hleaving
    exact h (by rw [leaving, hp]; exact hleaving)
  · rename_i last hp
    intro hleaving
    cases last with
    | false => cases hleaving
    | true => exact h (by rw [leaving, hp])
  · exact h

/-- A reply of a flush: `Ok`, or an internal error. -/
def OfFlush (reply : Reply) : Prop := ∀ e, reply = .error e → ∃ message, e = .internal message

/-- Every reply sent, or to be sent, is the outcome of a flush. -/
def Answers (sh : Shard) : Prop :=
  (∀ p ∈ sh.replies, OfFlush p.2) ∧
    ∀ rest last, sh.phase = .replying rest last → ∀ p ∈ rest, OfFlush p.2

theorem ofFlush_of_mem_replies {batch : List WriteRequest} {result : Except StoreError (List EventId)}
    {p : WriteRequest × Reply} (h : p ∈ Store.replies batch result) : OfFlush p.2 := by
  unfold Store.replies at h
  cases result with
  | ok ids =>
    obtain ⟨id, -, hid⟩ := List.mem_map.mp (List.of_mem_zip h).2
    intro e he
    rw [← hid] at he
    cases he
  | error e =>
    obtain ⟨r, -, rfl⟩ := List.mem_map.mp h
    intro e' he
    cases he
    exact ⟨_, rfl⟩

theorem Answers.step (h : sh.Answers) : (sh.step batchSize closed x).Answers := by
  obtain ⟨hreplies, hrest⟩ := h
  have heff := effect batchSize closed x sh
  generalize sh.step batchSize closed x = sh' at heff
  cases heff with
  | nothing => exact ⟨hreplies, hrest⟩
  | take _ _ _ | rest _ _ | flush _ _ | leave _ _ _ =>
    exact ⟨hreplies, fun rest last hp => by cases hp⟩
  | @appended batch last outcome hp _ =>
    refine ⟨hreplies, fun rest last' hphase => ?_⟩
    cases hphase
    exact fun p hp => ofFlush_of_mem_replies hp
  | @reply r answer rest last hp =>
    have hall := hrest _ _ hp
    refine ⟨?_, fun rest' last' hphase => ?_⟩
    · intro p hmem
      simp only [Shard.reply] at hmem
      split at hmem
      · rcases List.mem_append.mp hmem with hmem | hmem
        · exact hreplies p hmem
        · rw [List.mem_singleton.mp hmem]
          exact hall (r, answer) List.mem_cons_self
      · exact hreplies p hmem
    · cases hphase
      exact fun p hmem => hall p (List.mem_cons_of_mem _ hmem)
  | @finish last hp =>
    refine ⟨hreplies, fun rest' last' hphase => ?_⟩
    cases last with
    | true => cases hphase
    | false => cases hphase

/-- When a loop has returned, whoever waits for a request it accepted has a reply. -/
theorem Inv.replied (h : sh.Inv batchSize) (hempty : sh.Emptied) (hgone : sh.gone = true)
    {q : WriteRequest} (hq : q ∈ sh.accepted) (hawaited : q.awaited = true) :
    q.token ∈ sh.replies.map Prod.fst := by
  have hphase := h.phase
  unfold gone at hgone
  split at hgone
  · rename_i hp
    simp only [PhaseOk, hp] at hphase
    have hchannel : sh.channel = [] := hempty (by simp [leaving, hp])
    rw [h.queue, hphase.2, hchannel, List.append_nil, List.append_nil, hphase.1] at hq
    rw [h.answered]
    exact List.mem_map_of_mem (List.mem_filter.mpr ⟨hq, hawaited⟩)
  · cases hgone

/-- The channel of a loop that has returned is empty, and so is everything else. -/
theorem Inv.queued_eq_nil (h : sh.Inv batchSize) (hempty : sh.Emptied) (hgone : sh.gone = true) :
    sh.queued = [] := by
  have hphase := h.phase
  unfold gone at hgone
  split at hgone
  · rename_i hp
    simp only [PhaseOk, hp] at hphase
    have hchannel : sh.channel = [] := hempty (by simp [leaving, hp])
    simp [queued, undecided, hp, hphase.2, hchannel]
  · cases hgone

end Shard

/-! ## 2. All the shards -/

namespace BatchWriter

/-- `queue_depth` -/
def queueDepth (s : BatchWriter) : Nat := (s.shards.map fun sh => sh.channel.length).sum

/-- `max_capacity` -/
def maxCapacity (s : BatchWriter) : Nat := s.capacity * s.shards.length

variable {s : BatchWriter} {x : Input}

theorem capacity_step (s : BatchWriter) (x : Input) : (s.step x).capacity = s.capacity := by
  have heff := effect s x
  generalize s.step x = s' at heff
  cases heff <;> rfl

theorem length_shards_step (s : BatchWriter) (x : Input) :
    (s.step x).shards.length = s.shards.length := by
  rcases shards_step s x with h | ⟨n, i, c, event, sh, -, -, -, -, h⟩ | ⟨i, y, sh, -, -, h⟩
  · rw [h]
  · rw [h, List.length_set]
  · rw [h, List.length_set]

/-- A send puts the request into a channel that has room for it, and otherwise leaves the shards. -/
theorem shards_send (s : BatchWriter) (n : Nat) (c : Call) (i : Nat) (event : LlmEvent) (sh : Shard) :
    (s.send n c i event sh).shards = s.shards ∨
    sh.channel.length < s.capacity ∧ (s.send n c i event sh).shards
      = s.shards.set i (sh.push ⟨⟨n, c.sent.length⟩, event, c.kind.awaits⟩) := by
  unfold send
  split
  · exact .inl rfl
  · split
    · rename_i hroom
      exact .inr ⟨hroom, rfl⟩
    · split <;> exact .inl rfl

/-- A call with an event to send is not over. -/
theorem not_over {c : Call} (hcancelled : c.cancelled = false) {event : LlmEvent}
    (hevent : c.events[c.sent.length]? = some event) : c.over = false := by
  have hlt := (List.getElem?_eq_some_iff.mp hevent).1
  simp [Call.over, hcancelled, Nat.not_le.mpr hlt]

/-- What holds of every shard goes on to hold, if a loop keeps it and so does a request that comes
into a channel with room, from a call that is not over. -/
theorem forall_shards_step {P : Shard → Prop} (h : ∀ sh ∈ s.shards, P sh)
    (hpush : ∀ sh ∈ s.shards, ∀ (q : WriteRequest) (c : Call), c ∈ s.calls → c.over = false →
      sh.channel.length < s.capacity → P (sh.push q))
    (hloop : ∀ sh ∈ s.shards, ∀ y, P (sh.step s.batchSize s.dropped y)) :
    ∀ sh ∈ (s.step x).shards, P sh := by
  intro sh' hmem
  obtain ⟨j, hj⟩ := List.getElem?_of_mem hmem
  cases hx : x with
  | send n =>
    subst hx
    simp only [step] at hj
    split at hj
    · exact h sh' (List.mem_of_getElem? hj)
    · rename_i c hn
      split at hj
      · rename_i i event hcancelled _ hevent
        split at hj
        · exact h sh' (List.mem_of_getElem? hj)
        · rename_i sh hi
          rcases shards_send s n c i event sh with hsame | ⟨hroom, hset⟩
          · rw [hsame] at hj
            exact h sh' (List.mem_of_getElem? hj)
          · rw [hset] at hj
            rcases getElem?_set_cases hj with ⟨-, rfl⟩ | ⟨-, hj⟩
            · exact hpush sh (List.mem_of_getElem? hi) _ c (List.mem_of_getElem? hn)
                (not_over hcancelled hevent) hroom
            · exact h sh' (List.mem_of_getElem? hj)
      · exact h sh' (List.mem_of_getElem? hj)
  | loop i y =>
    subst hx
    simp only [step] at hj
    split at hj
    · exact h sh' (List.mem_of_getElem? hj)
    · rename_i sh hi
      rcases getElem?_set_cases hj with ⟨-, rfl⟩ | ⟨-, hj⟩
      · exact hloop sh (List.mem_of_getElem? hi) y
      · exact h sh' (List.mem_of_getElem? hj)
  | shutdown =>
    subst hx
    exact h sh' hmem
  | write _ | writeMany _ | writeFireAndForget _ | pick _ | await _ | cancel _ | drop =>
    -- these are about the calls alone
    have hsame : (s.step x).shards = s.shards := by
      subst hx
      simp only [step, begin, pickShard, await]
      repeat' split
      all_goals rfl
    rw [hsame] at hmem
    exact h sh' hmem

/-- A call that is over stays over. -/
theorem Turn.over {n : Nat} {c c' : Call} (h : Turn s n c c') (hover : c.over = true) :
    c'.over = true := by
  cases h with
  | picked _ => exact hover
  | cancelled => rfl
  | refused hlt e =>
    simp only [Call.over, Bool.or_eq_true, Bool.and_eq_true, decide_eq_true_eq] at hover ⊢
    rcases hover with hover | hover
    · exact .inl hover
    · exact absurd hlt (Nat.not_lt.mpr hover.1)
  | told _ =>
    simp only [Call.over, Bool.or_eq_true, Bool.and_eq_true, decide_eq_true_eq, List.length_append]
      at hover ⊢
    rcases hover with hover | ⟨hsent, hover | hover⟩
    · exact .inl hover
    · exact .inr ⟨hsent, .inl hover⟩
    · exact .inr ⟨hsent, .inr (Nat.le_add_right_of_le hover)⟩

/-- When the last handle is gone, no call is under way. -/
def Sealed (s : BatchWriter) : Prop := s.dropped = true → ∀ c ∈ s.calls, c.over = true

theorem sealed_begin (kind : CallKind) (events : List LlmEvent) (h : s.Sealed) :
    Sealed (if s.dropped then s else s.begin kind events) := by
  split
  · exact h
  · rename_i hdropped
    exact fun hd => absurd hd hdropped

theorem sealed_step (h : s.Sealed) : (s.step x).Sealed := by
  cases hx : x with
  | write event => exact sealed_begin _ _ h
  | writeMany events => exact sealed_begin _ _ h
  | writeFireAndForget event => exact sealed_begin _ _ h
  | drop =>
    simp only [step]
    split
    · rename_i hall
      exact fun _ c hc => List.all_eq_true.mp hall c hc
    · exact h
  | pick _ | send _ | await _ | cancel _ | loop _ _ | shutdown =>
    have heff := effect s x
    rw [← hx]
    generalize s.step x = s' at heff
    cases heff with
    | nothing => exact h
    | begin _ _ hbegins =>
      rw [hx] at hbegins
      cases hbegins
    | drop hdrop =>
      rw [hx] at hdrop
      cases hdrop
    | @turn n c c' hn hturn t =>
      intro hd d hd'
      rcases List.mem_or_eq_of_mem_set hd' with hd' | rfl
      · exact h hd d hd'
      · exact hturn.over (h hd c (List.mem_of_getElem? hn))
    | @deliver n i c event sh hn hcancelled hevent hi =>
      intro hd
      have hover := h hd c (List.mem_of_getElem? hn)
      rw [not_over hcancelled hevent] at hover
      cases hover
    | loop _ _ => exact h
    | shutdown => exact h

/-- What holds of the queues in every state. -/
structure Flows (s : BatchWriter) : Prop where
  inv : s.Inv
  staying : s.Staying
  closed : s.Sealed
  room : ∀ sh ∈ s.shards, sh.channel.length ≤ s.capacity
  logged : ∀ sh ∈ s.shards, sh.Logged
  flight : ∀ sh ∈ s.shards, sh.FlightOk s.batchSize
  emptied : ∀ sh ∈ s.shards, sh.Emptied
  answers : ∀ sh ∈ s.shards, sh.Answers

theorem flows_new (config : BatchConfig) : (new config).Flows := by
  have hnew : ∀ sh ∈ (new config).shards, sh = Shard.new :=
    fun sh hsh => List.eq_of_mem_replicate hsh
  refine ⟨inv_new config, staying_new config, ?_, ?_, ?_, ?_, ?_, ?_⟩
  · intro hd
    cases hd
  · intro sh hsh
    rw [hnew sh hsh]
    exact Nat.zero_le _
  · intro sh hsh
    rw [hnew sh hsh]
    rfl
  · intro sh hsh
    rw [hnew sh hsh]
    exact Nat.zero_le _
  · intro sh hsh
    rw [hnew sh hsh]
    exact fun _ => rfl
  · intro sh hsh
    rw [hnew sh hsh]
    exact ⟨fun p hp => (List.not_mem_nil hp).elim, fun rest last hp => by cases hp⟩

theorem Inv.shard_of_mem (h : s.Inv) {sh : Shard} (hsh : sh ∈ s.shards) : sh.Inv s.batchSize := by
  obtain ⟨i, hi⟩ := List.getElem?_of_mem hsh
  exact h.shard i sh hi

theorem flows_step (s : BatchWriter) (x : Input) (h : s.Flows) : (s.step x).Flows := by
  refine ⟨inv_step s x h.inv, staying_step h.staying x, sealed_step h.closed, ?_, ?_, ?_, ?_, ?_⟩
  · rw [capacity_step]
    refine forall_shards_step h.room ?_ ?_
    · intro sh _ q c _ _ hroom
      rw [Shard.channel_push, List.length_append]
      exact hroom
    · intro sh hsh y
      exact Nat.le_trans (Shard.length_channel_step_le _ _ _ sh) (h.room sh hsh)
  · exact forall_shards_step h.logged (fun sh hsh _ _ _ _ _ => h.logged sh hsh)
      fun sh hsh _ => (h.logged sh hsh).step
  · rw [batchSize_step]
    exact forall_shards_step h.flight (fun sh hsh _ _ _ _ _ => h.flight sh hsh)
      fun sh hsh _ => (h.flight sh hsh).step (h.inv.shard_of_mem hsh)
  · refine forall_shards_step h.emptied ?_ fun sh hsh _ => (h.emptied sh hsh).step
    -- a request still comes in, so the senders live, and the loop stays
    intro sh hsh q c hc hover _
    have hlive : s.dropped = false := by
      cases hd : s.dropped with
      | false => rfl
      | true =>
        rw [h.closed hd c hc] at hover
        cases hover
    exact Shard.emptied_of_staying (Shard.leaving_eq_false (h.staying hlive sh hsh))
  · exact forall_shards_step h.answers (fun sh hsh _ _ _ _ _ => h.answers sh hsh)
      fun sh hsh _ => (h.answers sh hsh).step

theorem flows_run (config : BatchConfig) (xs : List Input) : (run step (new config) xs).Flows :=
  run_invariant_of_step flows_step (flows_new config) xs

theorem Flows.queueDepth_le (h : s.Flows) : s.queueDepth ≤ s.maxCapacity := by
  have hsum := List.sum_le_card_nsmul (s.shards.map fun sh => sh.channel.length) s.capacity
    (by simpa using h.room)
  rwa [List.length_map, smul_eq_mul, Nat.mul_comm] at hsum

/-- Besides its channel a shard holds one batch: in the buffer, or in the flush. -/
theorem Flows.length_queued_le (h : s.Flows) {sh : Shard} (hsh : sh ∈ s.shards) :
    sh.queued.length ≤ s.capacity + s.batchSize := by
  have hroom := h.room sh hsh
  have hflight := h.flight sh hsh
  have hinv := h.inv.shard_of_mem hsh
  have hbuffer := hinv.bounded
  have hphase := hinv.phase
  unfold Shard.FlightOk at hflight
  cases hp : sh.phase with
  | idle | draining | replying rest last | exited =>
    simp only [Shard.queued, Shard.undecided, hp, List.nil_append, List.length_append]
    omega
  | flushing batch last =>
    simp only [Shard.PhaseOk, hp] at hphase
    simp only [Shard.flight, hp] at hflight
    simp only [Shard.queued, Shard.undecided, hp, hphase.2.1, List.nil_append, List.length_append]
    omega

theorem Flows.length_unflushed_le (h : s.Flows) :
    s.unflushed.length ≤ s.maxCapacity + s.batchSize * s.shards.length := by
  have hsum := List.sum_le_card_nsmul (s.shards.map fun sh => sh.queued.length)
    (s.capacity + s.batchSize) (by simpa using fun sh hsh => h.length_queued_le hsh)
  rw [List.length_map, smul_eq_mul, Nat.mul_comm, Nat.add_mul] at hsum
  rwa [unflushed, List.length_flatMap]

/-! ## 4. When a call is refused -/

/-- What a step does to what a call has sent and was told: its own send adds to the one, its own wait
to the other, and nothing else does. -/
inductive CallMove (s : BatchWriter) (x : Input) (n : Nat) (c c' : Call) : Prop where
  | same (hresults : c'.results = c.results) (hsent : c'.sent = c.sent)
  | sends (hx : x = .send n) (hresults : c'.results = c.results)
  | told (reply : Reply) (hawaits : c.kind.awaits = true)
      (hreply : s.resultOf n c c.results.length = some reply)
      (hresults : c'.results = c.results ++ [reply]) (hsent : c'.sent = c.sent)

/-- One call is replaced by another. -/
theorem callMove_set {n m : Nat} {c c' d d' : Call} (hn : s.calls[n]? = some c)
    (hget : (s.calls.set m d')[n]? = some c') (hm : s.calls[m]? = some d)
    (hmove : m = n → CallMove s x n d d') : CallMove s x n c c' := by
  rcases getElem?_set_cases hget with ⟨rfl, rfl⟩ | ⟨-, hget⟩
  · rw [hn] at hm
    cases hm
    exact hmove rfl
  · rw [hn] at hget
    cases hget
    exact .same rfl rfl

theorem callMove_send {n m i : Nat} {c c' d : Call} {event : LlmEvent} {sh : Shard}
    (hn : s.calls[n]? = some c) (hm : s.calls[m]? = some d)
    (hn' : (s.send m d i event sh).calls[n]? = some c') : CallMove s (.send m) n c c' := by
  have hnote : ∀ outcome, (s.noteSent m d outcome).calls[n]? = some c' →
      CallMove s (.send m) n c c' :=
    fun outcome hget => callMove_set hn hget hm fun hmn => .sends (by rw [hmn]) rfl
  unfold send at hn'
  split at hn'
  · exact hnote _ hn'
  · split at hn'
    · exact hnote _ hn'
    · split at hn'
      · rw [hn] at hn'
        cases hn'
        exact .same rfl rfl
      · exact hnote _ hn'

theorem callMove_step {n : Nat} {c c' : Call} (hn : s.calls[n]? = some c)
    (hn' : (s.step x).calls[n]? = some c') : CallMove s x n c c' := by
  have hstay : ∀ {x : Input}, s.calls[n]? = some c' → CallMove s x n c c' := by
    intro x hget
    rw [hn] at hget
    cases hget
    exact .same rfl rfl
  have hbegin : ∀ {x : Input} kind events,
      (if s.dropped then s else s.begin kind events).calls[n]? = some c' → CallMove s x n c c' := by
    intro x kind events hget
    split at hget
    · exact hstay hget
    · exact hstay (by rwa [begin, List.getElem?_append_left (List.getElem?_eq_some_iff.mp hn).1] at hget)
  cases x with
  | write event => exact hbegin _ _ hn'
  | writeMany events => exact hbegin _ _ hn'
  | writeFireAndForget event => exact hbegin _ _ hn'
  | pick m =>
    simp only [step, pickShard] at hn'
    split at hn'
    · exact hstay hn'
    · rename_i d hm
      split at hn'
      · exact hstay hn'
      · exact callMove_set hn hn' hm fun _ => .same rfl rfl
  | send m =>
    simp only [step] at hn'
    split at hn'
    · exact hstay hn'
    · rename_i d hm
      split at hn'
      · split at hn'
        · exact hstay hn'
        · exact callMove_send hn hm hn'
      · exact hstay hn'
  | await m =>
    simp only [step, await] at hn'
    split at hn'
    · exact hstay hn'
    · rename_i d hm
      split at hn'
      · exact hstay hn'
      · rename_i hwaits
        split at hn'
        · exact hstay hn'
        · rename_i reply hreply
          refine callMove_set hn hn' hm fun hmn => ?_
          subst hmn
          refine .told reply ?_ hreply rfl rfl
          cases hk : d.kind.awaits with
          | true => rfl
          | false => simp [hk] at hwaits
  | cancel m =>
    simp only [step] at hn'
    split at hn'
    · exact hstay hn'
    · rename_i d hm
      exact callMove_set hn hn' hm fun _ => .same rfl rfl
  | loop i y =>
    simp only [step] at hn'
    split at hn'
    · exact hstay hn'
    · exact hstay hn'
  | shutdown => exact hstay hn'
  | drop =>
    simp only [step] at hn'
    split at hn'
    · exact hstay hn'
    · exact hstay hn'

/-- A send that is refused for want of room. -/
theorem full_of_send {n i : Nat} {c c' : Call} {event : LlmEvent} {sh : Shard}
    (hn : s.calls[n]? = some c) (hn' : (s.send n c i event sh).calls[n]? = some c')
    (hsent : c'.sent = c.sent ++ [.error .channelFull]) :
    c.kind.awaits = false ∧ sh.gone = false ∧ s.capacity ≤ sh.channel.length := by
  have hnote : ∀ outcome, (s.noteSent n c outcome).calls[n]? = some c' →
      outcome = .error .channelFull := by
    intro outcome hget
    rcases getElem?_set_cases hget with ⟨-, rfl⟩ | ⟨hne, -⟩
    · simpa using hsent
    · exact absurd rfl hne
  unfold send at hn'
  split at hn'
  · cases hnote _ hn'
  · rename_i hgone
    split at hn'
    · cases hnote _ hn'
    · rename_i hroom
      split at hn'
      · rw [hn] at hn'
        cases hn'
        simp at hsent
      · rename_i hawaits
        exact ⟨by simpa using hawaits, by simpa using hgone, Nat.le_of_not_lt hroom⟩

/-- `ChannelFull` tells the truth: the channel of the shard the call was given is at its capacity, and
the call is one that does not wait. -/
theorem Flows.full_of_step (h : s.Flows) {n : Nat} {c c' : Call} (hn : s.calls[n]? = some c)
    (hn' : (s.step x).calls[n]? = some c') (hsent : c'.sent = c.sent ++ [.error .channelFull]) :
    c.kind.awaits = false ∧ ∃ (i : Nat) (sh : Shard), c.picked = some i ∧ s.shards[i]? = some sh ∧
      sh.gone = false ∧ sh.channel.length = s.capacity := by
  have hne : c'.sent ≠ c.sent := by
    rw [hsent]
    simp
  -- the call has sent something, so the step is its send
  rcases callMove_step hn hn' with ⟨-, hsame⟩ | ⟨rfl, -⟩ | ⟨reply, -, -, -, hsame⟩
  · exact absurd hsame hne
  · have hstay : s.calls[n]? ≠ some c' := by
      intro hget
      rw [hn] at hget
      cases hget
      exact hne rfl
    simp only [step, hn] at hn'
    split at hn'
    · rename_i i event _ hpicked _
      split at hn'
      · exact absurd hn' hstay
      · rename_i sh hi
        obtain ⟨hawaits, hgone, hfull⟩ := full_of_send hn hn' hsent
        have hroom := h.room sh (List.mem_of_getElem? hi)
        exact ⟨hawaits, i, sh, hpicked, hi, hgone, Nat.le_antisymm hroom hfull⟩
    · exact absurd hn' hstay
  · exact absurd hsame hne

/-! ## 5. When the channel is closed -/

/-- A result that is no outcome of a flush is of an event that was never sent. -/
def Unsent (s : BatchWriter) : Prop :=
  ∀ (n : Nat) (c : Call), s.calls[n]? = some c → ∀ (k : Nat) (reply : Reply),
    c.results[k]? = some reply → Shard.OfFlush reply ∨ ∃ e, c.sent[k]? = some (.error e)

/-- What a call learns by waiting: the outcome of a flush, or that the send had failed. A request that
was sent has its reply by the time its loop is gone. -/
theorem Flows.unsent_of_resultOf (h : s.Flows) {n k : Nat} {c : Call} (hn : s.calls[n]? = some c)
    (hawaits : c.kind.awaits = true) {reply : Reply} (hresult : s.resultOf n c k = some reply) :
    Shard.OfFlush reply ∨ ∃ e, c.sent[k]? = some (.error e) := by
  unfold resultOf at hresult
  cases hk : c.sent[k]? with
  | none =>
    rw [hk] at hresult
    cases hresult
  | some outcome =>
    cases outcome with
    | error e => exact .inr ⟨e, rfl⟩
    | ok i =>
      left
      rw [hk] at hresult
      obtain ⟨sh, hi, q, hq, htok, -⟩ := h.inv.request hn hk
      have hsh := List.mem_of_getElem? hi
      simp only [hi] at hresult
      cases hl : sh.replies.lookup ⟨n, k⟩ with
      | some answer =>
        rw [hl] at hresult
        cases hresult
        exact (h.answers sh hsh).1 _ (mem_of_lookup hl)
      | none =>
        rw [hl] at hresult
        dsimp only at hresult
        split at hresult
        · rename_i hgone
          obtain ⟨d, hd, hsent⟩ := h.inv.origin i sh hi q hq
          rw [htok] at hd
          rw [hn] at hd
          cases hd
          have hmem := (h.inv.shard_of_mem hsh).replied (h.emptied sh hsh) hgone hq
            (by rw [hsent.awaited, hawaits])
          obtain ⟨p, hp, hpt⟩ := List.mem_map.mp hmem
          rw [List.lookup_eq_none_iff] at hl
          have hne := hl p hp
          rw [hpt, htok] at hne
          simp at hne
        · cases hresult

/-- A call that was not there has been told nothing. -/
theorem results_of_new {n : Nat} {c' : Call} (hn : s.calls[n]? = none)
    (hn' : (s.step x).calls[n]? = some c') : c'.results = [] := by
  have hge : s.calls.length ≤ n := List.getElem?_eq_none_iff.mp hn
  have heff := effect s x
  generalize s.step x = s' at heff hn'
  cases heff with
  | begin kind events _ =>
    rcases getElem?_concat_cases hn' with hold | ⟨-, rfl⟩
    · rw [hn] at hold
      cases hold
    · rfl
  | turn hm _ _ =>
    rcases getElem?_set_cases hn' with ⟨rfl, -⟩ | ⟨-, hold⟩
    · rw [hn] at hm
      cases hm
    · rw [hn] at hold
      cases hold
  | deliver hm _ _ _ =>
    rcases getElem?_set_cases hn' with ⟨rfl, -⟩ | ⟨-, hold⟩
    · rw [hn] at hm
      cases hm
    · rw [hn] at hold
      cases hold
  | nothing | loop _ _ | shutdown | drop _ =>
    rw [hn] at hn'
    cases hn'

theorem unsent_step (hflows : s.Flows) (h : s.Unsent) : (s.step x).Unsent := by
  intro n c' hn' k reply hk
  cases hn : s.calls[n]? with
  | none =>
    rw [results_of_new hn hn'] at hk
    cases hk
  | some c =>
    obtain ⟨d, hd, ⟨-, -, more, hmore⟩, -⟩ := calls_step s x hn
    rw [hn'] at hd
    cases hd
    have hkeep : ∀ {k : Nat}, (Shard.OfFlush reply ∨ ∃ e, c.sent[k]? = some (.error e)) →
        Shard.OfFlush reply ∨ ∃ e, c'.sent[k]? = some (.error e) := by
      intro k hold
      refine hold.imp_right ?_
      rintro ⟨e, he⟩
      exact ⟨e, by rw [hmore]; exact getElem?_append_of he more⟩
    rcases callMove_step hn hn' with ⟨hresults, -⟩ | ⟨-, hresults⟩ | ⟨answer, hawaits, hreply, hresults, -⟩
    · exact hkeep (h n c hn k reply (hresults ▸ hk))
    · exact hkeep (h n c hn k reply (hresults ▸ hk))
    · rw [hresults] at hk
      rcases getElem?_concat_cases hk with hk | ⟨rfl, rfl⟩
      · exact hkeep (h n c hn k reply hk)
      · exact hkeep (hflows.unsent_of_resultOf hn hawaits hreply)

/-- An event that was not sent is not accepted anywhere, and cannot get on its way any more. -/
theorem Inv.not_onItsWay_of_unsent (h : Inv s) {n k : Nat} {c : Call} {e : StoreError}
    (hn : s.calls[n]? = some c) (hk : c.sent[k]? = some (.error e)) :
    ¬ s.OnItsWay ⟨n, k⟩ ∧ ∀ (i : Nat) (sh : Shard), s.shards[i]? = some sh → ∀ q ∈ sh.accepted,
      q.token ≠ ⟨n, k⟩ := by
  have haccepted : ∀ (i : Nat) (sh : Shard), s.shards[i]? = some sh → ∀ q ∈ sh.accepted,
      q.token ≠ ⟨n, k⟩ := by
    intro i sh hi q hq htok
    obtain ⟨d, hd, hsent⟩ := h.origin i sh hi q hq
    have hboth := hsent.sent
    rw [htok] at hd hboth
    rw [hn] at hd
    cases hd
    rw [hk] at hboth
    cases hboth
  refine ⟨?_, haccepted⟩
  rintro (⟨d, hd, -, hle, -⟩ | ⟨i, sh, hi, q, hq, htok⟩)
  · rw [hn] at hd
    cases hd
    have hlt := (List.getElem?_eq_some_iff.mp hk).1
    exact absurd hlt (Nat.not_lt.mpr hle)
  · exact haccepted i sh hi q ((h.shard i sh hi).mem_accepted_of_queued hq) htok

end BatchWriter

/-! ## The result -/

/-- A capacity rounded up to a multiple of the number of shards. -/
theorem bounds_of_ceil (capacity : Nat) {shards : Nat} (hpos : 0 < shards) :
    max capacity 1 ≤ max ((capacity + shards - 1) / shards * shards) shards ∧
      max ((capacity + shards - 1) / shards * shards) shards < max capacity 1 + shards := by
  have hdiv := Nat.div_add_mod (capacity + shards - 1) shards
  have hmod := Nat.mod_lt (capacity + shards - 1) hpos
  rw [Nat.mul_comm] at hdiv
  omega

/-- In every state of every run of the writer: each channel is within its capacity and each buffer
within the batch size, so `queue_depth` is at most `max_capacity`, which is the configured capacity
rounded up to the number of shards; and what is accepted and not decided is at most that and one
batch for each shard. A step tells a call that its channel is full only when the channel of the shard
it was given is, and the call is one that does not wait. -/
theorem writer_queues_are_bounded (config : BatchConfig) (xs : List BatchWriter.Input) :
    let s := run BatchWriter.step (.new config) xs
    let shards := max config.flushShards 1
    (∀ sh ∈ s.shards, sh.channel.length ≤ s.capacity ∧ sh.buffer.length ≤ s.batchSize) ∧
    s.queueDepth ≤ s.maxCapacity ∧
    max config.channelCapacity 1 ≤ s.maxCapacity ∧
    s.maxCapacity < max config.channelCapacity 1 + shards ∧
    s.unflushed.length ≤ s.maxCapacity + max config.batchSize (8 * shards) ∧
    ∀ (x : BatchWriter.Input) (n : Nat) (c c' : Call), s.calls[n]? = some c →
      (s.step x).calls[n]? = some c' → c'.sent = c.sent ++ [.error .channelFull] →
        c.kind.awaits = false ∧ ∃ (i : Nat) (sh : Shard), c.picked = some i ∧
          s.shards[i]? = some sh ∧ sh.gone = false ∧ sh.channel.length = s.capacity := by
  intro s shards
  have hflows := BatchWriter.flows_run config xs
  have hshards : s.shards.length = shards :=
    (run_unchanged (f := fun s : BatchWriter => s.shards.length) BatchWriter.length_shards_step _ xs).trans
      List.length_replicate
  have hcapacity : s.capacity = max ((config.channelCapacity + shards - 1) / shards) 1 :=
    run_unchanged BatchWriter.capacity_step _ xs
  have hsize : s.batchSize = max (config.batchSize / shards) 8 :=
    run_unchanged BatchWriter.batchSize_step _ xs
  have hpos : 0 < shards := Nat.lt_of_lt_of_le Nat.one_pos (Nat.le_max_right _ 1)
  have hmax : s.maxCapacity = max ((config.channelCapacity + shards - 1) / shards * shards) shards := by
    rw [BatchWriter.maxCapacity, hshards, hcapacity, ← Nat.mul_max_mul_right, Nat.one_mul]
  refine ⟨fun sh hsh => ⟨hflows.room sh hsh, (hflows.inv.shard_of_mem hsh).bounded⟩,
    hflows.queueDepth_le, ?_, ?_, ?_, fun x n c c' hn hn' hsent => hflows.full_of_step hn hn' hsent⟩
  · rw [hmax]
    exact (bounds_of_ceil config.channelCapacity hpos).1
  · rw [hmax]
    exact (bounds_of_ceil config.channelCapacity hpos).2
  · refine Nat.le_trans hflows.length_unflushed_le (Nat.add_le_add_left ?_ _)
    rw [hshards, hsize, ← Nat.mul_max_mul_right]
    exact max_le_max (Nat.div_mul_le_self _ _) (Nat.le_refl _)

end Keplor.Store
