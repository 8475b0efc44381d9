import Keplor.Server.Retries
import Keplor.Store.Queues

/-!
# What a response to an ingest request is worth

A response names an id, a cost, a model and a provider: it is the receipt of an event. On the durable
paths the event of a receipt is in the store, whether the response is fresh or comes out of the
idempotency cache. On the fire-and-forget path the writer has taken the event from this request, and
it is queued, stored, or in a batch whose append reported an error; it is never dropped silently.

The service's writer goes through a run of the writer, so what holds of every run of the one holds of
the other.
-/

set_option autoImplicit false

namespace Keplor.Server

open Keplor.Core Keplor.Lib Keplor.Pricing Keplor.Store

/-! ## 1. The receipt of an event -/

/-- What a response to an event says. -/
def receipt (settings : Settings) (e : LlmEvent) : IngestResponse where
  id := settings.tf.ulid.print e.id
  costNanodollars := e.costNanodollars
  model := e.model
  provider := e.provider.idKey

/-- What `process_event` reports next to the event is what the event says. -/
def Consistent (m : Made) : Prop :=
  m.1.provider = m.2.1 ∧ m.1.model = m.2.2.1 ∧ m.1.costNanodollars = m.2.2.2

theorem respond_eq_receipt {settings : Settings} {m : Made} (h : Consistent m) :
    respond settings m.1.id m = receipt settings m.1 := by
  obtain ⟨hprovider, hmodel, hcost⟩ := h
  simp [respond, receipt, hprovider, hmodel, hcost]

theorem named_of_buildLlmEvent {env : Surroundings} {event : IngestEvent} {provider : Provider}
    {model : String} {cost : Int64} {usage : Usage} {tier : String} {e : LlmEvent}
    (h : buildLlmEvent env event provider model cost usage tier = .ok e) :
    e.provider = provider ∧ e.model = model := by
  unfold buildLlmEvent at h
  dsimp only at h
  split at h
  · cases h
    exact ⟨rfl, rfl⟩
  · obtain ⟨ts, -, h⟩ := bind_eq_ok h
    cases h
    exact ⟨rfl, rfl⟩
  · cases h
    exact ⟨rfl, rfl⟩

theorem consistent_of_processEvent {env : Surroundings} {catalog : Catalog} {event : IngestEvent}
    {authenticatedKeyId : Option String} {tier : String} {m : Made}
    (h : processEvent env catalog event authenticatedKeyId tier = pure m) : Consistent m := by
  have hbuilt := (processEvent_eq_pure h).2
  obtain ⟨hprovider, hmodel⟩ := named_of_buildLlmEvent hbuilt
  exact ⟨hprovider, hmodel, (copied_of_buildLlmEvent hbuilt).2.1⟩

theorem consistent_of_processAll {visits : Nat → Visit} {events : List IngestEvent}
    {authenticatedKeyId : Option String} {tier : String} {made : List (Except ServerError Made)}
    (h : processAll visits events authenticatedKeyId tier = some made) :
    ∀ m, .ok m ∈ made → Consistent m := by
  intro m hm
  unfold processAll at h
  obtain ⟨p, -, hp⟩ := exists_left_of_forall₂ (mapM_eq_some_iff.mp h) hm
  exact consistent_of_processEvent hp

theorem consistent_of_prepare {settings : Settings} {visit : Visit} {event : IngestEvent}
    {authenticatedKeyId : Option String} {tier : String} {m : Made}
    (h : (prepare settings visit event authenticatedKeyId tier).run = some (.ok m)) : Consistent m := by
  obtain ⟨_, -, h⟩ := Fallible.bind_eq_pure (b := m) h
  exact consistent_of_processEvent h

/-! ## 2. The service's writer -/

namespace Service

variable {s : Service} {x : Input}

/-- A round's call is one of the writer's three entry points. -/
theorem begin_of_submit (hlive : s.writer.dropped = false) (n : Nat) (r : Request)
    (visits : Nat → Visit) :
    (s.submit n r visits).writer = s.writer ∨
      ∃ y, (s.submit n r visits).writer = s.writer.step y ∧ y.begins = true := by
  have hsingle : ∀ (path : Path) (m : Made), path ≠ .durableBatch →
      ∃ y, s.writer.begin path.kind (llmEvents [.ok m]) = s.writer.step y ∧ y.begins = true := by
    intro path m hpath
    cases path with
    | durable key => exact ⟨.write m.1, by simp [BatchWriter.step, hlive, Path.kind, llmEvents], rfl⟩
    | fireAndForget =>
      exact ⟨.writeFireAndForget m.1, by simp [BatchWriter.step, hlive, Path.kind, llmEvents], rfl⟩
    | durableBatch => exact absurd rfl hpath
  unfold submit
  dsimp only
  split
  · rename_i hpath
    split
    · exact .inl rfl
    · split
      · exact .inl rfl
      · rename_i made _
        refine .inr ⟨.writeMany (llmEvents made), ?_, rfl⟩
        simp [call, BatchWriter.step, hlive, hpath, Path.kind]
  · rename_i hpath
    split
    · exact .inl rfl
    · split
      · exact .inl rfl
      · exact .inl rfl
      · rename_i m _
        exact .inr (hsingle r.path m hpath)

/-- What a step of the service does to the writer is a step of the writer, or nothing; only a flush
ends an append. -/
theorem writer_move (s : Service) (x : Input) :
    (s.step x).writer = s.writer ∨ ∃ y, (s.step x).writer = s.writer.step y ∧
      ∀ i outcome, y = .loop i (.appended outcome) → ∃ kept, x = .flush i outcome kept := by
  have henter : ∀ keys header path stage events results,
      (s.enter keys header path stage events results).writer = s.writer := by
    intro keys header path stage events results
    unfold enter
    split <;> rfl
  cases x with
  | ingestSingle keys header durable idempotencyKey event =>
    rw [step, ingestSingle]
    split
    · exact .inl (henter _ _ _ _ _ _)
    · exact .inl (henter _ _ _ _ _ _)
  | ingestBatch keys header durableHeader events =>
    rw [step, ingestBatch]
    split
    · exact .inl (henter _ _ _ _ _ _)
    · exact .inl (henter _ _ _ _ _ _)
  | lookup n now =>
    refine .inl ?_
    simp only [step, lookup]
    repeat' split
    all_goals rfl
  | submit n visits =>
    simp only [step]
    split
    · exact .inl rfl
    · split
      · split
        · exact .inl rfl
        · rename_i hlive
          rcases begin_of_submit (by simpa using hlive) n _ visits with hsame | ⟨y, hy, hbegins⟩
          · exact .inl hsame
          · refine .inr ⟨y, hy, fun i outcome heq => ?_⟩
            rw [heq] at hbegins
            cases hbegins
      · exact .inl rfl
  | collect n now =>
    refine .inl ?_
    simp only [step, collect]
    repeat' split
    all_goals rfl
  | flush i outcome kept =>
    refine .inr ⟨.loop i (.appended outcome), rfl, fun j outcome' heq => ?_⟩
    cases heq
    exact ⟨kept, rfl⟩
  | writer y =>
    rw [step]
    split
    · rename_i hinternal
      refine .inr ⟨y, rfl, fun i outcome heq => ?_⟩
      rw [heq] at hinternal
      cases hinternal
    · exact .inl rfl

theorem writer_step (s : Service) (x : Input) :
    (s.step x).writer = s.writer ∨ ∃ y, (s.step x).writer = s.writer.step y :=
  (writer_move s x).imp_right fun ⟨y, hy, _⟩ => ⟨y, hy⟩

/-- The writer of a service has gone through a run of the writer. -/
theorem writer_run (settings : Settings) (config : BatchConfig) (cache : Option IdempotencyCache)
    (xs : List Input) :
    ∃ ys, (run step (new settings config cache) xs).writer = run BatchWriter.step (.new config) ys := by
  have hstep : ∀ (s : Service) (x : Input), (∃ ys, s.writer = run BatchWriter.step (.new config) ys) →
      ∃ ys, (s.step x).writer = run BatchWriter.step (.new config) ys := by
    rintro s x ⟨ys, hys⟩
    rcases writer_step s x with h | ⟨y, h⟩
    · exact ⟨ys, h.trans hys⟩
    · refine ⟨ys ++ [y], ?_⟩
      rw [h, hys, run_append]
      rfl
  exact run_invariant_of_step hstep ⟨[], rfl⟩ xs

theorem flows_run (settings : Settings) (config : BatchConfig) (cache : Option IdempotencyCache)
    (xs : List Input) : (run step (new settings config cache) xs).writer.Flows := by
  obtain ⟨ys, hys⟩ := writer_run settings config cache xs
  rw [hys]
  exact BatchWriter.flows_run config ys

/-! ## 3. What steps leave alone -/

theorem settings_step (s : Service) (x : Input) : (s.step x).settings = s.settings := by
  have heffect := effect s x
  generalize s.step x = s' at heffect
  cases heffect <;> rfl

theorem stored_step {t : Token} (ht : t ∈ s.stored) : t ∈ (s.step x).stored := by
  have heffect := effect s x
  generalize s.step x = s' at heffect
  cases heffect with
  | flush i outcome kept => exact List.mem_append_left _ ht
  | _ => exact ht

theorem eventAt_writer_step {w : BatchWriter} {y : BatchWriter.Input} {t : Token} {e : LlmEvent}
    (h : eventAt w t = some e) : eventAt (w.step y) t = some e := by
  obtain ⟨c, hc, he⟩ := Option.bind_eq_some_iff.mp h
  obtain ⟨c', hc', ⟨hevents, -⟩, -⟩ := BatchWriter.calls_step w y hc
  rw [eventAt, hc', Option.bind_some, hevents, he]

theorem eventAt_step {t : Token} {e : LlmEvent} (h : eventAt s.writer t = some e) :
    eventAt (s.step x).writer t = some e := by
  rcases writer_step s x with hw | ⟨y, hw⟩
  · rw [hw]
    exact h
  · rw [hw]
    exact eventAt_writer_step h

/-- Who sent a request, and which calls it has made, stays. -/
theorem continues_step {n : Nat} {r : Request} (hn : s.requests[n]? = some r) :
    ∃ r', (s.step x).requests[n]? = some r' ∧ r.Continues r' := by
  have hset : ∀ {m : Nat} {q q' : Request}, s.requests[m]? = some q → q.Continues q' →
      ∃ r', (s.requests.set m q')[n]? = some r' ∧ r.Continues r' := by
    intro m q q' hm hc
    refine ⟨_, getElem?_set_of hn, ?_⟩
    split
    · rename_i hmn
      subst hmn
      rw [hn] at hm
      cases hm
      exact hc
    · exact ⟨rfl, rfl, rfl, rfl, fun _ hj => hj⟩
  have hsame : r.Continues r := ⟨rfl, rfl, rfl, rfl, fun _ hj => hj⟩
  have heffect := effect s x
  generalize s.step x = s' at heffect
  cases heffect with
  | stay => exact ⟨r, hn, hsame⟩
  | enter q => exact ⟨r, getElem?_append_of hn _, hsame⟩
  | flush i outcome kept => exact ⟨r, hn, hsame⟩
  | writer y hy => exact ⟨r, hn, hsame⟩
  | call m q made pending hm =>
    exact hset hm ⟨rfl, rfl, rfl, rfl, fun _ hj => List.mem_append_left _ hj⟩
  | hit m now q key cache cached _ hm | miss m now q key cache _ hm | pass m q hm
  | fail m q pending stage results hm | collect m now call q c made results hm =>
    exact hset hm ⟨rfl, rfl, rfl, rfl, fun _ hj => hj⟩

/-! ## 4. What a request waits with -/

/-- A request that waits has made the call it waits for, and the call was asked for the events it
reports about. -/
structure WaitOk (w : BatchWriter) (r : Request) (call : Nat) (made : List (Except ServerError Made)) :
    Prop where
  own : call ∈ r.calls
  asked : (w.calls.map BatchWriter.asked)[call]? = some (r.path.kind, llmEvents made)
  consistent : ∀ m, .ok m ∈ made → Consistent m

def Waits (s : Service) : Prop :=
  ∀ (n : Nat) (r : Request) (call : Nat) (made : List (Except ServerError Made)),
    s.requests[n]? = some r → r.stage = .waiting call made → WaitOk s.writer r call made

theorem waitOk_call (s : Service) (n : Nat) (r : Request) (made : List (Except ServerError Made))
    (pending : List IngestEvent) (h : ∀ m, .ok m ∈ made → Consistent m) :
    WaitOk (s.call n r made pending).writer
      { r with
        pending := pending
        stage := .waiting s.writer.calls.length made
        calls := r.calls ++ [s.writer.calls.length] } s.writer.calls.length made := by
  refine ⟨by simp, ?_, h⟩
  rw [show (s.call n r made pending).writer = s.writer.begin r.path.kind (llmEvents made) from rfl,
    asked_begin, ← List.length_map (f := BatchWriter.asked)]
  exact List.getElem?_concat_length

/-- A request that waits after a round's first half waited before, or has just called. -/
theorem waitOk_of_submit {n m : Nat} {r r' : Request} {visits : Nat → Visit} {call : Nat}
    {made : List (Except ServerError Made)} (hm : (s.submit n r visits).requests[m]? = some r')
    (hstage : r'.stage = .waiting call made) :
    s.requests[m]? = some r' ∨ WaitOk (s.submit n r visits).writer r' call made := by
  have hidle : ∀ {q : Request}, (s.requests.set n q)[m]? = some r' →
      q.stage ≠ .waiting call made → s.requests[m]? = some r' := by
    intro q hget hq
    rcases getElem?_set_cases hget with ⟨-, rfl⟩ | ⟨-, hget⟩
    · exact absurd hstage hq
    · exact hget
  have hcalled : ∀ {made' : List (Except ServerError Made)} {pending : List IngestEvent},
      (∀ m, .ok m ∈ made' → Consistent m) → (s.call n r made' pending).requests[m]? = some r' →
      s.requests[m]? = some r' ∨ WaitOk (s.call n r made' pending).writer r' call made := by
    intro made' pending hconsistent hget
    rcases getElem?_set_cases hget with ⟨-, rfl⟩ | ⟨-, hget⟩
    · cases hstage
      exact .inr (waitOk_call s n r made pending hconsistent)
    · exact .inl hget
  unfold submit at hm ⊢
  dsimp only at hm ⊢
  split at hm
  · split at hm
    · exact .inl (hidle hm (by simp))
    · split at hm
      · exact .inl (hidle hm (by simp))
      · rename_i made' hmade
        exact hcalled (consistent_of_processAll hmade) hm
  · split at hm
    · exact .inl (hidle hm (by simp))
    · rename_i event pending _
      split at hm
      · exact .inl (hidle hm (by simp))
      · refine .inl (hidle hm ?_)
        show afterRound pending ≠ _
        unfold afterRound
        split <;> simp
      · rename_i made' hmade
        refine hcalled ?_ hm
        intro m' hm'
        rw [List.mem_singleton] at hm'
        cases hm'
        exact consistent_of_prepare hmade

theorem unchanged_of_enter {m : Nat} {r' : Request} {keys : ApiKeySet} {header : Option (List UInt8)}
    {path : Path} {stage : Stage} {events : List IngestEvent}
    {results : List (Except ServerError IngestResponse)} {call : Nat}
    {made : List (Except ServerError Made)} (hidle : stage ≠ .waiting call made)
    (hm : (s.enter keys header path stage events results).requests[m]? = some r')
    (hstage : r'.stage = .waiting call made) : s.requests[m]? = some r' := by
  unfold enter at hm
  split at hm
  · exact hm
  · rcases getElem?_concat_cases hm with hm | ⟨-, rfl⟩
    · exact hm
    · exact absurd hstage hidle

/-- A request that waits after a step waited before, or has just called. -/
theorem waitOk_of_step {m : Nat} {r' : Request} {call : Nat}
    {made : List (Except ServerError Made)} (hm : (s.step x).requests[m]? = some r')
    (hstage : r'.stage = .waiting call made) :
    s.requests[m]? = some r' ∨ WaitOk (s.step x).writer r' call made := by
  have hset : ∀ {n : Nat} {q : Request}, (s.requests.set n q)[m]? = some r' →
      q.stage ≠ .waiting call made → s.requests[m]? = some r' := by
    intro n q hget hq
    rcases getElem?_set_cases hget with ⟨-, rfl⟩ | ⟨-, hget⟩
    · exact absurd hstage hq
    · exact hget
  cases x with
  | ingestSingle keys header durable idempotencyKey event =>
    rw [step, ingestSingle] at hm
    split at hm
    · exact .inl (unchanged_of_enter (by simp) hm hstage)
    · exact .inl (unchanged_of_enter (by simp) hm hstage)
  | ingestBatch keys header durableHeader events =>
    rw [step, ingestBatch] at hm
    split at hm
    · exact .inl (unchanged_of_enter (by simp) hm hstage)
    · exact .inl (unchanged_of_enter (by simp) hm hstage)
  | lookup n now =>
    refine .inl ?_
    simp only [step] at hm
    split at hm
    · exact hm
    · split at hm
      · unfold lookup at hm
        split at hm
        · split at hm
          · exact hset hm (by simp)
          · exact hset hm (by simp)
        · exact hset hm (by simp)
      · exact hm
  | submit n visits =>
    simp only [step] at hm ⊢
    split at hm
    · exact .inl hm
    · split at hm
      · split at hm
        · exact .inl hm
        · rename_i hlive
          rw [if_neg hlive]
          exact waitOk_of_submit hm hstage
      · exact .inl hm
  | collect n now =>
    refine .inl ?_
    simp only [step] at hm
    split at hm
    · exact hm
    · rename_i r _
      split at hm
      · split at hm
        · exact hm
        · unfold collect at hm
          split at hm
          · exact hm
          · refine hset hm ?_
            show afterRound r.pending ≠ _
            unfold afterRound
            split <;> simp
      · exact hm
  | flush i outcome kept => exact .inl hm
  | writer y =>
    rw [step] at hm
    split at hm
    · exact .inl hm
    · exact .inl hm

theorem asked_of_step {j : Nat} {p : CallKind × List LlmEvent}
    (h : (s.writer.calls.map BatchWriter.asked)[j]? = some p) :
    ((s.step x).writer.calls.map BatchWriter.asked)[j]? = some p := by
  rw [List.getElem?_map] at h
  obtain ⟨c, hc, rfl⟩ := Option.map_eq_some_iff.mp h
  rcases writer_step s x with hw | ⟨y, hw⟩
  · rw [hw, List.getElem?_map, hc]
    rfl
  · obtain ⟨c', hc', ⟨hevents, hkind, -⟩, -⟩ := BatchWriter.calls_step s.writer y hc
    rw [hw, List.getElem?_map, hc', Option.map_some, BatchWriter.asked, hevents, hkind]
    rfl

theorem waits_step (h : s.Waits) : (s.step x).Waits := by
  intro n r' call made hn hstage
  rcases waitOk_of_step hn hstage with hsame | hcalled
  · have hwait := h n r' call made hsame hstage
    exact ⟨hwait.own, asked_of_step hwait.asked, hwait.consistent⟩
  · exact hcalled

/-! ## 5. Where an `Ok` comes from -/

/-- An `Ok` of a durable batch is the writer's answer to the event it is about. -/
theorem mem_assemble_ok {settings : Settings} {made : List (Except ServerError Made)}
    {written : List Reply} {response : IngestResponse}
    (h : .ok response ∈ assemble settings made written) :
    ∃ (k : Nat) (m : Made) (id : EventId), .ok m ∈ made ∧ (llmEvents made)[k]? = some m.1 ∧
      written[k]? = some (.ok id) ∧ response = respond settings id m := by
  induction made, written using assemble.induct with
  | case1 => cases h
  | case2 e made written ih =>
    rw [assemble, List.mem_cons] at h
    rcases h with h | h
    · cases h
    · obtain ⟨k, m, id, hm, hk, hrest⟩ := ih h
      exact ⟨k, m, id, List.mem_cons_of_mem _ hm, hk, hrest⟩
  | case3 m made ih =>
    rw [assemble, List.mem_cons] at h
    rcases h with h | h
    · cases h
    · obtain ⟨k, m', id, hm, -, hwritten, -⟩ := ih h
      cases hwritten
  | case4 m made id written ih =>
    rw [assemble, List.mem_cons] at h
    rcases h with h | h
    · cases h
      exact ⟨0, m, id, List.mem_cons_self, rfl, rfl, rfl⟩
    · obtain ⟨k, m', id', hm, hk, hwritten, hresponse⟩ := ih h
      exact ⟨k + 1, m', id', List.mem_cons_of_mem _ hm, hk, hwritten, hresponse⟩
  | case5 m made e written ih =>
    rw [assemble, List.mem_cons] at h
    rcases h with h | h
    · cases h
    · obtain ⟨k, m', id', hm, hk, hwritten, hresponse⟩ := ih h
      exact ⟨k + 1, m', id', List.mem_cons_of_mem _ hm, hk, hwritten, hresponse⟩

/-- An `Ok` of a round: of a fire-and-forget round the send of its event went through, of a durable
one the writer answered `Ok` to the event it is about. -/
theorem ok_of_outcomeOf {settings : Settings} {path : Path} {made : List (Except ServerError Made)}
    {c : Call} {results : List (Except ServerError IngestResponse)} {response : IngestResponse}
    (h : outcomeOf settings path made c = some results) (hmem : .ok response ∈ results) :
    ∃ (k : Nat) (m : Made) (id : EventId), .ok m ∈ made ∧ (llmEvents made)[k]? = some m.1 ∧
      response = respond settings id m ∧
      (path = .fireAndForget ∧ id = m.1.id ∧ (∃ i, c.sent[k]? = some (.ok i)) ∨
        path ≠ .fireAndForget ∧ c.results[k]? = some (.ok id)) := by
  unfold outcomeOf at h
  split at h
  · rename_i m
    split at h
    · rename_i i rest hsent
      cases h
      rw [List.mem_singleton] at hmem
      cases hmem
      exact ⟨0, m, m.1.id, by simp, rfl, rfl, .inl ⟨rfl, rfl, i, by rw [hsent]; rfl⟩⟩
    · cases h
      simp at hmem
    · cases h
  · rename_i key m
    split at h
    · cases h
      simp at hmem
    · split at h
      · rename_i id rest hresults
        cases h
        rw [List.mem_singleton] at hmem
        cases hmem
        exact ⟨0, m, id, by simp, rfl, rfl, .inr ⟨by simp, by rw [hresults]; rfl⟩⟩
      · cases h
        simp at hmem
      · cases h
  · split at h
    · cases h
      obtain ⟨k, m, id, -, -, hwritten, -⟩ := mem_assemble_ok hmem
      rw [List.getElem?_map] at hwritten
      obtain ⟨e, -, he⟩ := Option.map_eq_some_iff.mp hwritten
      cases he
    · split at h
      · cases h
        obtain ⟨k, m, id, hm, hk, hwritten, hresponse⟩ := mem_assemble_ok hmem
        exact ⟨k, m, id, hm, hk, hresponse, .inr ⟨by simp, hwritten⟩⟩
      · cases h
  · cases h

/-- Where the writer answered `Ok`, the event is in the store, and the id is its own. -/
theorem Tidy.answered (h : s.Tidy) {call k : Nat} {c : Call} {id : EventId}
    (hc : s.writer.calls[call]? = some c) (hk : c.results[k]? = some (.ok id)) :
    ⟨call, k⟩ ∈ s.stored ∧ ∃ e, c.events[k]? = some e ∧ e.id = id := by
  refine ⟨?_, h.inv.writer.id_of_result hc hk⟩
  rcases (h.inv.writer.call call c hc).told k (.ok id) hk with hclosed | ⟨i, sh, -, hi, hreply⟩
  · cases hclosed
  · obtain ⟨batch, hbatch, q, hq, htok, -⟩ := (h.inv.writer.shard i sh hi).truthful _ _ hreply
    rw [← htok]
    exact h.earned i sh hi batch hbatch q hq

/-! ## 6. Vouching -/

/-- The response is the receipt of the event of a write request. -/
def ReceiptOf (s : Service) (t : Token) (response : IngestResponse) : Prop :=
  ∃ e, eventAt s.writer t = some e ∧ response = receipt s.settings e

/-- The response is the receipt of a stored event of the request. -/
def Backed (s : Service) (r : Request) (response : IngestResponse) : Prop :=
  ∃ t ∈ s.stored, t.call ∈ r.calls ∧ s.ReceiptOf t response

/-- The writer has taken the write request into a channel. -/
def Taken (w : BatchWriter) (t : Token) : Prop :=
  ∃ (i : Nat) (sh : Shard), w.shards[i]? = some sh ∧ ∃ q ∈ sh.accepted, q.token = t

/-- Some request with this idempotency key backs the response. -/
def Keyed (s : Service) (key : String) (response : IngestResponse) : Prop :=
  ∃ (m : Nat) (r : Request), s.requests[m]? = some r ∧ r.HasKey key ∧ s.Backed r response

/-- What an `Ok` in the results of a request is worth. -/
def Vouched (s : Service) (r : Request) (response : IngestResponse) : Prop :=
  match r.path with
  | .durable none | .durableBatch => s.Backed r response
  | .durable (some key) => s.Backed r response ∨ s.Keyed key response
  | .fireAndForget => ∃ t : Token, t.call ∈ r.calls ∧ Taken s.writer t ∧ s.ReceiptOf t response

variable {r r' : Request} {response : IngestResponse}

theorem ReceiptOf.step {t : Token} (h : s.ReceiptOf t response) : (s.step x).ReceiptOf t response := by
  obtain ⟨e, he, hresponse⟩ := h
  exact ⟨e, eventAt_step he, by rw [settings_step]; exact hresponse⟩

theorem Backed.step (h : s.Backed r response) (hc : r.Continues r') :
    (s.step x).Backed r' response := by
  obtain ⟨t, ht, hcall, hreceipt⟩ := h
  exact ⟨t, stored_step ht, hc.calls _ hcall, hreceipt.step⟩

theorem Taken.step {t : Token} (h : Taken s.writer t) : Taken (s.step x).writer t := by
  rcases writer_step s x with hw | ⟨y, hw⟩
  · rw [hw]
    exact h
  · obtain ⟨i, sh, hi, q, hq, htok⟩ := h
    obtain ⟨sh', hi', haccepted, -⟩ := BatchWriter.grows_step s.writer y i sh hi
    rw [hw]
    exact ⟨i, sh', hi', q, haccepted q hq, htok⟩

theorem Keyed.step {key : String} (h : s.Keyed key response) : (s.step x).Keyed key response := by
  obtain ⟨m, r, hm, hkey, hbacked⟩ := h
  obtain ⟨r', hm', hc⟩ := continues_step (x := x) hm
  refine ⟨m, r', hm', ?_, hbacked.step hc⟩
  rw [Request.HasKey, hc.path]
  exact hkey

theorem Vouched.step (h : s.Vouched r response) (hc : r.Continues r') :
    (s.step x).Vouched r' response := by
  unfold Vouched at h ⊢
  rw [hc.path]
  split at h
  · exact h.step hc
  · exact h.step hc
  · exact h.imp (fun hbacked => hbacked.step hc) Keyed.step
  · obtain ⟨t, hcall, htaken, hreceipt⟩ := h
    exact ⟨t, hc.calls _ hcall, htaken.step, hreceipt.step⟩

theorem Vouched.of_backed (h : s.Backed r response) (hpath : r.path ≠ .fireAndForget) :
    s.Vouched r response := by
  unfold Vouched
  split
  · exact h
  · exact h
  · exact .inl h
  · rename_i heq
    exact absurd heq hpath

/-- What a round returns is vouched for. -/
theorem vouched_of_outcomeOf (h : s.Tidy) {call : Nat} {made : List (Except ServerError Made)}
    {c : Call} {results : List (Except ServerError IngestResponse)}
    (hwait : WaitOk s.writer r call made) (hc : s.writer.calls[call]? = some c)
    (hresults : outcomeOf s.settings r.path made c = some results) (hmem : .ok response ∈ results) :
    s.Vouched r response ∧ (r.path ≠ .fireAndForget → s.Backed r response) := by
  obtain ⟨k, m, id, hm, hk, hresponse, hpath⟩ := ok_of_outcomeOf hresults hmem
  have hevents : c.events = llmEvents made := by
    have hasked := hwait.asked
    rw [List.getElem?_map, hc, Option.map_some, BatchWriter.asked] at hasked
    exact congrArg Prod.snd (Option.some.inj hasked)
  have hevent : c.events[k]? = some m.1 := by rw [hevents, hk]
  have hat : eventAt s.writer ⟨call, k⟩ = some m.1 := by rw [eventAt, hc, Option.bind_some, hevent]
  rcases hpath with ⟨hpath, rfl, i, hsent⟩ | ⟨hpath, hanswer⟩
  · have hreceipt : s.ReceiptOf ⟨call, k⟩ response :=
      ⟨m.1, hat, by rw [hresponse, respond_eq_receipt (hwait.consistent m hm)]⟩
    refine ⟨?_, fun hne => absurd hpath hne⟩
    obtain ⟨sh, hi, q, hq, htok, -⟩ := h.inv.writer.request hc hsent
    unfold Vouched
    rw [hpath]
    exact ⟨⟨call, k⟩, hwait.own, ⟨i, sh, hi, q, hq, htok⟩, hreceipt⟩
  · obtain ⟨hstored, e, he, hid⟩ := h.answered hc hanswer
    rw [hevent] at he
    cases he
    have hbacked : s.Backed r response := by
      refine ⟨⟨call, k⟩, hstored, hwait.own, m.1, hat, ?_⟩
      rw [hresponse, ← hid, respond_eq_receipt (hwait.consistent m hm)]
    exact ⟨.of_backed hbacked hpath, fun _ => hbacked⟩

/-! ## 7. Every `Ok` of a run -/

structure Honest (s : Service) : Prop where
  tidy : s.Tidy
  waits : s.Waits
  vouched : ∀ (n : Nat) (r : Request) (response : IngestResponse), s.requests[n]? = some r →
    .ok response ∈ r.results → s.Vouched r response
  cached : ∀ (key : String) (e : CachedEntry), s.entryOf key = some e → s.Keyed key e.response

/-- Where an `Ok` in the results after a step comes from: it was there, the lookup found it, or the
round returned it. -/
theorem ok_of_step {n : Nat} (hn : (s.step x).requests[n]? = some r')
    (hmem : .ok response ∈ r'.results) :
    (∃ r, s.requests[n]? = some r ∧ r.Continues r' ∧ .ok response ∈ r.results) ∨
    (∃ key e, r'.path = .durable (some key) ∧ s.entryOf key = some e ∧ e.response = response) ∨
    ∃ (r : Request) (call : Nat) (made : List (Except ServerError Made)) (c : Call)
      (results : List (Except ServerError IngestResponse)), s.requests[n]? = some r ∧
      r.Continues r' ∧ r.stage = .waiting call made ∧ s.writer.calls[call]? = some c ∧
      outcomeOf s.settings r.path made c = some results ∧ .ok response ∈ results := by
  have hsame : ∀ {q : Request}, q.Continues q := ⟨rfl, rfl, rfl, rfl, fun _ hj => hj⟩
  have heffect := effect s x
  generalize s.step x = s' at heffect hn
  cases heffect with
  | stay => exact .inl ⟨r', hn, hsame, hmem⟩
  | enter r hcalls hresults =>
    rcases getElem?_concat_cases hn with hn | ⟨-, rfl⟩
    · exact .inl ⟨r', hn, hsame, hmem⟩
    · exact absurd hmem (hresults response)
  | hit m now r key cache cached _ hm _ hpath hcache hget =>
    rcases getElem?_set_cases hn with ⟨rfl, rfl⟩ | ⟨-, hn⟩
    · obtain ⟨e, he, -, hresponse⟩ := live_of_get hget
      rw [List.mem_singleton] at hmem
      cases hmem
      exact .inr (.inl ⟨key, e, hpath, by rw [entryOf, hcache, Option.bind_some, he], hresponse⟩)
    · exact .inl ⟨r', hn, hsame, hmem⟩
  | miss m now r key cache _ hm =>
    rcases getElem?_set_cases hn with ⟨rfl, rfl⟩ | ⟨-, hn⟩
    · exact .inl ⟨r, hm, ⟨rfl, rfl, rfl, rfl, fun _ hj => hj⟩, hmem⟩
    · exact .inl ⟨r', hn, hsame, hmem⟩
  | pass m r hm =>
    rcases getElem?_set_cases hn with ⟨rfl, rfl⟩ | ⟨-, hn⟩
    · exact .inl ⟨r, hm, ⟨rfl, rfl, rfl, rfl, fun _ hj => hj⟩, hmem⟩
    · exact .inl ⟨r', hn, hsame, hmem⟩
  | fail m r pending stage results hm _ _ hresults =>
    rcases getElem?_set_cases hn with ⟨rfl, rfl⟩ | ⟨-, hn⟩
    · exact .inl ⟨r, hm, ⟨rfl, rfl, rfl, rfl, fun _ hj => hj⟩, hresults response hmem⟩
    · exact .inl ⟨r', hn, hsame, hmem⟩
  | call m r made pending hm =>
    rcases getElem?_set_cases hn with ⟨rfl, rfl⟩ | ⟨-, hn⟩
    · exact .inl ⟨r, hm, ⟨rfl, rfl, rfl, rfl, fun _ hj => List.mem_append_left _ hj⟩, hmem⟩
    · exact .inl ⟨r', hn, hsame, hmem⟩
  | collect m now call r c made results hm hstage hc hresults =>
    rcases getElem?_set_cases hn with ⟨rfl, rfl⟩ | ⟨-, hn⟩
    · have hcontinues : r.Continues
          { r with stage := afterRound r.pending, results := r.results ++ results } :=
        ⟨rfl, rfl, rfl, rfl, fun _ hj => hj⟩
      rcases List.mem_append.mp hmem with hmem | hmem
      · exact .inl ⟨r, hm, hcontinues, hmem⟩
      · exact .inr (.inr ⟨r, call, made, c, results, hm, hcontinues, hstage, hc, hresults, hmem⟩)
    · exact .inl ⟨r', hn, hsame, hmem⟩
  | flush i outcome kept => exact .inl ⟨r', hn, hsame, hmem⟩
  | writer y hy => exact .inl ⟨r', hn, hsame, hmem⟩

/-- What is cached under a key after a step was, or a round of a request with the key returned it. -/
theorem entry_of_step {key : String} {e : CachedEntry} (he : (s.step x).entryOf key = some e) :
    s.entryOf key = some e ∨
    ∃ (n : Nat) (r : Request) (call : Nat) (made : List (Except ServerError Made)) (c : Call)
      (results : List (Except ServerError IngestResponse)), s.requests[n]? = some r ∧
      r.HasKey key ∧ r.stage = .waiting call made ∧ s.writer.calls[call]? = some c ∧
      outcomeOf s.settings r.path made c = some results ∧ .ok e.response ∈ results := by
  have hget : ∀ {cache : IdempotencyCache} {k : String} {now : Nat}, s.cache = some cache →
      (cache.get k now).2.entry key = some e → s.entryOf key = some e := by
    intro cache k now hcache he
    rw [IdempotencyCache.entry_get] at he
    rw [entryOf, hcache, Option.bind_some]
    split at he
    · rename_i hk
      rw [hk]
      exact (Option.filter_eq_some_iff.mp he).1
    · exact he
  have heffect := effect s x
  generalize s.step x = s' at heffect he
  cases heffect with
  | hit m now r k cache cached _ hm _ hpath hcache _ => exact .inl (hget hcache he)
  | miss m now r k cache _ hm _ hpath hcache _ => exact .inl (hget hcache he)
  | collect m now call r c made results hm hstage hc hresults =>
    rw [show entryOf _ key = ((remember s.cache r.path results now).bind fun c => c.entry key) from rfl]
      at he
    unfold remember at he
    split at he
    · rename_i k response hpath
      obtain ⟨cache', hcache', he⟩ := Option.bind_eq_some_iff.mp he
      obtain ⟨cache, hcache, rfl⟩ := Option.map_eq_some_iff.mp hcache'
      by_cases hk : key = k
      · subst hk
        rw [IdempotencyCache.entry_insert_self] at he
        cases he
        exact .inr ⟨m, r, call, made, c, _, hm, hpath, hstage, hc, hresults, by simp⟩
      · refine .inl ?_
        rw [entryOf, hcache, Option.bind_some]
        exact IdempotencyCache.entry_insert_of_ne hk he
    · exact .inl he
  | stay | enter _ _ _ _ | pass _ _ _ _ _ | fail _ _ _ _ _ _ _ _ _ | call _ _ _ _ _ _ _ _
  | flush _ _ _ | writer _ _ => exact .inl he

theorem honest_new (settings : Settings) (config : BatchConfig) (cache : Option IdempotencyCache)
    (hempty : ∀ c ∈ cache, ∀ key, c.entry key = none) : Honest (new settings config cache) := by
  refine ⟨tidy_new settings config cache, ?_, ?_, ?_⟩
  · intro n r call made hn
    cases hn
  · intro n r response hn
    cases hn
  · intro key e he
    obtain ⟨c, hc, he⟩ := Option.bind_eq_some_iff.mp he
    rw [hempty c hc key] at he
    cases he

theorem honest_step (s : Service) (x : Input) (h : s.Honest) : (s.step x).Honest := by
  refine ⟨tidy_step s x h.tidy, waits_step h.waits, ?_, ?_⟩
  · intro n r' response hn hmem
    rcases ok_of_step hn hmem with ⟨r, hr, hc, hok⟩ | ⟨key, e, hpath, he, rfl⟩ |
      ⟨r, call, made, c, results, hr, hc, hstage, hcall, hresults, hok⟩
    · exact (h.vouched n r response hr hok).step hc
    · unfold Vouched
      rw [hpath]
      exact .inr (h.cached key e he).step
    · exact (vouched_of_outcomeOf h.tidy (h.waits n r call made hr hstage) hcall hresults hok).1.step hc
  · intro key e he
    rcases entry_of_step he with hold | ⟨n, r, call, made, c, results, hr, hkey, hstage, hcall, hresults, hok⟩
    · exact (h.cached key e hold).step
    · have hpath : r.path ≠ .fireAndForget := by
        rw [Request.HasKey] at hkey
        rw [hkey]
        simp
      refine Keyed.step ⟨n, r, hr, hkey, ?_⟩
      exact (vouched_of_outcomeOf h.tidy (h.waits n r call made hr hstage) hcall hresults hok).2 hpath

/-- A durable `Ok` is backed by the request itself, or by one with the same idempotency key. -/
theorem Honest.backed (h : s.Honest) {n : Nat} (hn : s.requests[n]? = some r)
    (hmem : .ok response ∈ r.results) (hpath : r.path ≠ .fireAndForget) :
    ∃ (m : Nat) (r' : Request), s.requests[m]? = some r' ∧
      (m = n ∨ ∃ key, r.HasKey key ∧ r'.HasKey key) ∧ s.Backed r' response := by
  have hvouched := h.vouched n r response hn hmem
  unfold Vouched at hvouched
  split at hvouched
  · exact ⟨n, r, hn, .inl rfl, hvouched⟩
  · exact ⟨n, r, hn, .inl rfl, hvouched⟩
  · rename_i key hkey
    rcases hvouched with hown | ⟨m, r', hm, hkey', hother⟩
    · exact ⟨n, r, hn, .inl rfl, hown⟩
    · exact ⟨m, r', hm, .inr ⟨key, hkey, hkey'⟩, hother⟩
  · rename_i heq
    exact absurd heq hpath

theorem honest_run (settings : Settings) (config : BatchConfig) (hash : String → UInt64)
    (idempotency : Option (Nat × Nat)) (xs : List Input) :
    Honest (run step (new settings config
      (idempotency.map fun p => .new hash p.1 p.2)) xs) := by
  refine run_invariant_of_step honest_step (honest_new settings config _ ?_) xs
  intro c hc key
  obtain ⟨p, -, rfl⟩ := Option.map_eq_some_iff.mp hc
  exact IdempotencyCache.entry_new _ _ _ _

end Service

/-! ## The results -/

/-- In every state of every run of the service, whatever the cache of responses was configured to
hold: each `Ok` that a durable request returned, single or batch, is the receipt of an event that is
in the store: its id, cost, model and provider. The event is of a call of that very request, or the
request carries an idempotency key and the event is of a request with the same key. -/
theorem durable_receipts_are_stored (settings : Settings) (config : BatchConfig)
    (hash : String → UInt64) (idempotency : Option (Nat × Nat)) (xs : List Service.Input) :
    let s := run Service.step (.new settings config (idempotency.map fun p => .new hash p.1 p.2)) xs
    ∀ (n : Nat) (r : Request) (response : IngestResponse), s.requests[n]? = some r →
      .ok response ∈ r.results → r.path ≠ .fireAndForget →
      ∃ t ∈ s.stored, ∃ e, Service.eventAt s.writer t = some e ∧ response = receipt settings e ∧
        ∃ (m : Nat) (r' : Request), s.requests[m]? = some r' ∧ t.call ∈ r'.calls ∧
          (m = n ∨ ∃ key, r.HasKey key ∧ r'.HasKey key) := by
  intro s n r response hn hmem hpath
  have hhonest : s.Honest := Service.honest_run settings config hash idempotency xs
  have hsettings : s.settings = settings := run_unchanged Service.settings_step _ xs
  obtain ⟨m, r', hm, hwhose, t, ht, hcall, e, he, hresponse⟩ := hhonest.backed hn hmem hpath
  rw [hsettings] at hresponse
  exact ⟨t, ht, e, he, hresponse, m, r', hm, hcall, hwhose⟩

/-- The response of the payload of `retryRequest` with the id 1. -/
def retryResponse : IngestResponse :=
  ⟨"00000000000000000000000001", 0, "gpt-4o", "openai"⟩

/-- The second request got its response out of the cache; the event is the one of the first. -/
theorem replayed_receipt_is_stored :
    let s := run Service.step Service.retryStart Service.retryRun
    ∃ t ∈ s.stored, ∃ e, Service.eventAt s.writer t = some e ∧
      retryResponse = receipt sampleSettings e := by
  intro s
  have hrequests : s.requests.map (fun r => (r.path, r.results))
      = [(.durable (some "retry-1"), [.ok retryResponse]),
          (.durable (some "retry-1"), [.ok retryResponse])] := by
    decide +kernel
  obtain ⟨r, hn, hr⟩ : ∃ r, s.requests[1]? = some r ∧
      (r.path, r.results) = (.durable (some "retry-1"), [.ok retryResponse]) := by
    rw [← Option.map_eq_some_iff, ← List.getElem?_map, hrequests]
    rfl
  obtain ⟨hpath, hresults⟩ := Prod.mk.inj hr
  obtain ⟨t, ht, e, he, hresponse, -⟩ := durable_receipts_are_stored sampleSettings .default (fun _ => 0)
    (some (10000, 300000000000)) Service.retryRun 1 r retryResponse hn (by simp [hresults])
    (by simp [hpath])
  exact ⟨t, ht, e, he, hresponse⟩

end Keplor.Server
