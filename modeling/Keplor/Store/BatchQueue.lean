import Keplor.Store.Batch

/-!
# What can still reach the store

A write request is on its way from the moment its call begins until the flush it ends up in is
decided. Once it is not on its way any more, because the flush is over or the caller gave up before
the send, it never is again. So a caller that gave up after the send has lost sight of a request that
may yet be stored.
-/

set_option autoImplicit false

namespace Keplor.Store

open Keplor.Lib Keplor.Core

/-! ## One shard -/

namespace Shard

/-- The batch handed to the store, while that has not answered. -/
def undecided (sh : Shard) : List WriteRequest :=
  match sh.phase with
  | .flushing batch _ => batch
  | _ => []

/-- The requests of the shard that no flush has decided. -/
def queued (sh : Shard) : List WriteRequest := sh.undecided ++ (sh.buffer ++ sh.channel)

variable {batchSize : Nat} {sh : Shard} {q : WriteRequest}

theorem queued_of_receiving (h : sh.Receiving) : sh.queued = sh.buffer ++ sh.channel := by
  rcases h with h | h
  · simp [queued, undecided, h]
  · simp [queued, undecided, h]

theorem queued_push (sh : Shard) (r : WriteRequest) : (sh.push r).queued = sh.queued ++ [r] := by
  simp [queued, undecided, push]

/-- The loop moves requests on and puts none back. -/
theorem mem_queued_step {closed : Bool} {x : Input} (hq : q ∈ (sh.step batchSize closed x).queued) :
    q ∈ sh.queued := by
  have heff := effect batchSize closed x sh
  generalize sh.step batchSize closed x = sh' at heff hq
  cases heff with
  | nothing => exact hq
  | take hp _ hchannel =>
    rw [queued_of_receiving hp]
    rw [queued_of_receiving (.inr rfl)] at hq
    simpa [hchannel] using hq
  | rest hp _ =>
    rw [queued_of_receiving (.inr hp)]
    rwa [queued_of_receiving (.inl rfl)] at hq
  | flush hp _ =>
    rw [queued_of_receiving hp]
    exact hq
  | leave _ _ _ | appended _ _ | reply _ => exact List.mem_append_right _ hq
  | finish hp =>
    apply List.mem_append_right
    simp only [queued, undecided] at hq
    split at hq
    · rename_i hphase
      split at hphase <;> cases hphase
    · exact hq

/-- An append is noted when it returns, and only then. -/
theorem mem_appends_step {closed : Bool} {x : Input} {p : List WriteRequest × Except StoreError Unit}
    (hp : p ∈ (sh.step batchSize closed x).appends) :
    p ∈ sh.appends ∨ ∃ last, sh.phase = .flushing p.1 last ∧ x = .appended p.2 := by
  have heff := effect batchSize closed x sh
  generalize sh.step batchSize closed x = sh' at heff hp
  cases heff with
  | @appended batch last outcome hphase hx =>
    rcases List.mem_append.mp hp with hp | hp
    · exact .inl hp
    · rw [List.mem_singleton.mp hp]
      exact .inr ⟨last, hphase, hx⟩
  | _ => exact .inl hp

theorem Inv.mem_accepted_of_queued (h : sh.Inv batchSize) (hq : q ∈ sh.queued) : q ∈ sh.accepted := by
  rw [h.queue]
  rcases List.mem_append.mp hq with hq | hq
  · apply List.mem_append_left
    have hphase := h.phase
    unfold PhaseOk at hphase
    unfold undecided at hq
    split at hphase
    · rename_i hp; simp [hp] at hq
    · rename_i hp; simp [hp] at hq
    · rename_i batch last hp
      rw [hp] at hq
      exact List.mem_flatten.mpr ⟨batch, hphase.2.2, hq⟩
    · rename_i hp; simp [hp] at hq
    · rename_i hp; simp [hp] at hq
  · exact List.mem_append_right _ hq

end Shard

/-! ## The writer -/

namespace BatchWriter

variable {s : BatchWriter} {x : Input}

/-- What a step does to the shards: nothing, or a call's next event enters a channel, or one loop
moves. -/
theorem shards_step (s : BatchWriter) (x : Input) :
    (s.step x).shards = s.shards ∨
    (∃ (n i : Nat) (c : Call) (event : LlmEvent) (sh : Shard),
      s.calls[n]? = some c ∧ c.cancelled = false ∧ c.events[c.sent.length]? = some event ∧
      s.shards[i]? = some sh ∧
      (s.step x).shards = s.shards.set i (sh.push ⟨⟨n, c.sent.length⟩, event, c.kind.awaits⟩)) ∨
    ∃ (i : Nat) (y : Shard.Input) (sh : Shard),
      x = .loop i y ∧ s.shards[i]? = some sh ∧
      (s.step x).shards = s.shards.set i (sh.step s.batchSize s.dropped y) := by
  have heff := effect s x
  generalize s.step x = s' at heff
  cases heff with
  | @deliver n i c event sh hn hcancelled hevent hi =>
    exact .inr (.inl ⟨n, i, c, event, sh, hn, hcancelled, hevent, hi, rfl⟩)
  | @loop i y sh hx hi => exact .inr (.inr ⟨i, y, sh, hx, hi, rfl⟩)
  | nothing | begin _ _ _ | turn _ _ _ | shutdown | drop _ => exact .inl rfl

theorem grows_step (s : BatchWriter) (x : Input) : Grows s.shards (s.step x).shards := by
  rcases shards_step s x with h | ⟨n, i, c, event, sh, -, -, -, hi, h⟩ | ⟨i, y, sh, -, hi, h⟩
  · rw [h]
    exact fun i sh hi => ⟨sh, hi, fun _ hr => hr, fun _ hp => hp⟩
  · rw [h]
    exact grows_set hi (fun r hr => List.mem_append_left _ hr) fun _ hp => hp
  · rw [h]
    apply grows_set hi
    · intro r hr
      rw [Shard.accepted_step]
      exact hr
    · intro p hp
      exact Shard.mem_replies_step hp _ y

theorem mem_appends_step {j : Nat} {sh' : Shard} (hj : (s.step x).shards[j]? = some sh')
    {p : List WriteRequest × Except StoreError Unit} (hp : p ∈ sh'.appends) :
    ∃ sh : Shard, s.shards[j]? = some sh ∧ (p ∈ sh.appends ∨
      ∃ last, sh.phase = .flushing p.1 last ∧ x = .loop j (.appended p.2)) := by
  rcases shards_step s x with h | ⟨n, i, c, event, sh, -, -, -, hi, h⟩ | ⟨i, y, sh, hx, hi, h⟩
  · rw [h] at hj
    exact ⟨sh', hj, .inl hp⟩
  · rw [h] at hj
    rcases getElem?_set_cases hj with ⟨rfl, rfl⟩ | ⟨-, hj⟩
    · exact ⟨sh, hi, .inl hp⟩
    · exact ⟨sh', hj, .inl hp⟩
  · rw [h] at hj
    rcases getElem?_set_cases hj with ⟨rfl, rfl⟩ | ⟨-, hj⟩
    · refine ⟨sh, hi, ?_⟩
      rcases Shard.mem_appends_step hp with hp | ⟨last, hphase, rfl⟩
      · exact .inl hp
      · exact .inr ⟨last, hphase, hx⟩
    · exact ⟨sh', hj, .inl hp⟩

/-- A call keeps its events, only adds to what it sent, and does not come back once given up. -/
def Proceeds (c c' : Call) : Prop := Continues c c' ∧ (c.cancelled = true → c'.cancelled = true)

theorem Proceeds.refl (c : Call) : Proceeds c c :=
  ⟨⟨rfl, rfl, [], (List.append_nil _).symm⟩, fun h => h⟩

theorem proceeds_set {n j : Nat} {c d d' : Call} (hj : s.calls[j]? = some c)
    (hn : s.calls[n]? = some d) (hd : Proceeds d d') :
    ∃ c', (s.calls.set n d')[j]? = some c' ∧ Proceeds c c' := by
  refine ⟨_, getElem?_set_of hj, ?_⟩
  split
  · rename_i hnj
    subst hnj
    rw [hn] at hj
    cases hj
    exact hd
  · exact Proceeds.refl c

theorem Turn.proceeds {n : Nat} {c c' : Call} (h : Turn s n c c') : Proceeds c c' := by
  refine ⟨h.continues, fun hcancelled => ?_⟩
  cases h with
  | cancelled => rfl
  | picked _ | refused _ _ | told _ => exact hcancelled

theorem calls_step (s : BatchWriter) (x : Input) {j : Nat} {c : Call} (hj : s.calls[j]? = some c) :
    ∃ c', (s.step x).calls[j]? = some c' ∧ Proceeds c c' := by
  have heff := effect s x
  generalize s.step x = s' at heff
  cases heff with
  | begin kind events _ => exact ⟨c, getElem?_append_of hj _, Proceeds.refl c⟩
  | turn hn hturn t => exact proceeds_set hj hn hturn.proceeds
  | @deliver n i d _ _ hn _ _ _ => exact proceeds_set hj hn ⟨⟨rfl, rfl, [.ok i], rfl⟩, fun h => h⟩
  | nothing | loop _ _ | shutdown | drop _ => exact ⟨c, hj, Proceeds.refl c⟩

/-! ## On its way -/

/-- The event at this slot can still get into the store: its call has not come to it and has not been
given up, or its request is queued. -/
def OnItsWay (s : BatchWriter) (t : Token) : Prop :=
  (∃ c : Call, s.calls[t.call]? = some c ∧ c.cancelled = false ∧ c.sent.length ≤ t.slot ∧
    t.slot < c.events.length) ∨
  ∃ (i : Nat) (sh : Shard), s.shards[i]? = some sh ∧ ∃ q ∈ sh.queued, q.token = t

/-- What is not on its way does not get on its way. -/
theorem onItsWay_of_step {t : Token} (hlt : t.call < s.calls.length)
    (h : (s.step x).OnItsWay t) : s.OnItsWay t := by
  rcases h with ⟨c', hc', hcancelled, hsent, hslot⟩ | ⟨j, sh', hj, q, hq, htok⟩
  · left
    obtain ⟨c, hc⟩ : ∃ c, s.calls[t.call]? = some c := ⟨_, List.getElem?_eq_getElem hlt⟩
    obtain ⟨d, hd, ⟨hevents, -, more, hmore⟩, hcancel⟩ := calls_step s x hc
    rw [hc'] at hd
    cases hd
    refine ⟨c, hc, ?_, ?_, by rw [← hevents]; exact hslot⟩
    · cases hcc : c.cancelled with
      | false => rfl
      | true =>
        rw [hcancel hcc] at hcancelled
        cases hcancelled
    · rw [hmore, List.length_append] at hsent
      exact Nat.le_trans (Nat.le_add_right _ _) hsent
  · rcases shards_step s x with h | ⟨n, i, c, event, sh, hn, hcancelled, hevent, hi, h⟩ |
      ⟨i, y, sh, -, hi, h⟩
    · rw [h] at hj
      exact .inr ⟨j, sh', hj, q, hq, htok⟩
    · rw [h] at hj
      rcases getElem?_set_cases hj with ⟨rfl, rfl⟩ | ⟨-, hj⟩
      · rw [Shard.queued_push] at hq
        rcases List.mem_append.mp hq with hq | hq
        · exact .inr ⟨i, sh, hi, q, hq, htok⟩
        · -- the request that enters the channel was the next its call had to send
          rw [List.mem_singleton.mp hq] at htok
          subst htok
          exact .inl ⟨c, hn, hcancelled, Nat.le_refl _, (List.getElem?_eq_some_iff.mp hevent).1⟩
      · exact .inr ⟨j, sh', hj, q, hq, htok⟩
    · rw [h] at hj
      rcases getElem?_set_cases hj with ⟨rfl, rfl⟩ | ⟨-, hj⟩
      · exact .inr ⟨i, sh, hi, q, Shard.mem_queued_step hq, htok⟩
      · exact .inr ⟨j, sh', hj, q, hq, htok⟩

theorem onItsWay_of_begin {t : Token} (hlt : t.call < s.calls.length) {kind : CallKind}
    {events : List LlmEvent} (h : (s.begin kind events).OnItsWay t) : s.OnItsWay t := by
  rcases h with ⟨c, hc, hrest⟩ | hqueued
  · left
    refine ⟨c, ?_, hrest⟩
    rwa [show (s.begin kind events).calls = s.calls ++ [_] from rfl,
      List.getElem?_append_left hlt] at hc
  · exact .inr hqueued

/-- A queued request has been sent, by a call there is, to this shard. -/
theorem Inv.sent_of_queued (h : Inv s) {i : Nat} {sh : Shard} (hi : s.shards[i]? = some sh)
    {q : WriteRequest} (hq : q ∈ sh.queued) :
    ∃ c : Call, s.calls[q.token.call]? = some c ∧ SentBy i q c :=
  h.origin i sh hi q ((h.shard i sh hi).mem_accepted_of_queued hq)

/-- What a flush has decided is not on its way: the request is in no other shard, at no other place
of its own, and its call is past its slot. -/
theorem Inv.not_onItsWay_of_appended (h : Inv s) {i : Nat} {sh : Shard}
    (hi : s.shards[i]? = some sh) {batch : List WriteRequest} {last : Bool}
    (hp : sh.phase = .flushing batch last) (outcome : Except StoreError Unit) {q : WriteRequest}
    (hq : q ∈ batch) : ¬ (s.step (.loop i (.appended outcome))).OnItsWay q.token := by
  have hstep : s.step (.loop i (.appended outcome))
      = { s with shards := s.shards.set i (sh.appended outcome batch last) } := by
    simp only [step, hi]
    unfold Shard.step
    rw [hp]
  have hqueued : q ∈ sh.queued := by
    apply List.mem_append_left
    unfold Shard.undecided
    rw [hp]
    exact hq
  obtain ⟨c, hc, hsent⟩ := h.sent_of_queued hi hqueued
  rw [hstep]
  rintro (⟨c', hc', -, hle, -⟩ | ⟨j, sh', hj, q', hq', htok⟩)
  · rw [show s.calls[q.token.call]? = some c' from hc'] at hc
    cases hc
    have hpast := hsent.sent
    rw [List.getElem?_eq_none hle] at hpast
    cases hpast
  · rcases getElem?_set_cases hj with ⟨rfl, rfl⟩ | ⟨hij, hj⟩
    · -- in the same shard: what is left is the channel, and no name is accepted twice
      have hsh := h.shard i sh hi
      have hphase := hsh.phase
      simp only [Shard.PhaseOk, hp] at hphase
      have hnodup := h.nodup i sh hi
      rw [hsh.queue, List.map_append, List.nodup_append] at hnodup
      refine hnodup.2.2 q.token ?_ q'.token ?_ htok.symm
      · exact List.mem_map_of_mem (List.mem_flatten.mpr ⟨batch, hphase.2.2, hq⟩)
      · exact List.mem_map_of_mem hq'
    · obtain ⟨c', hc', hsent'⟩ := h.sent_of_queued hj hq'
      rw [htok, hc] at hc'
      cases hc'
      have hboth := hsent'.sent
      rw [htok, hsent.sent] at hboth
      cases hboth
      exact hij rfl

end BatchWriter

end Keplor.Store
