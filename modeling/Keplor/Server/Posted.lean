import Keplor.Server.Receipts

/-!
# Which payload an event was made of

`MadeFor` says that an event was made of some payload under a request's identity. Here the payload is
one that was posted, in the run at hand and with the request's own credentials: an ingest request
brings its payloads in, they wait in `pending`, and a round makes events of those and of nothing else.
-/

set_option autoImplicit false

namespace Keplor.Server

open Keplor.Core Keplor.Lib Keplor.Pricing Keplor.Store

/-- The input posts the payload with these credentials. -/
inductive Service.Posts (keys : ApiKeySet) (header : Option (List UInt8)) (payload : IngestEvent) :
    Service.Input → Prop where
  | single (durable : Bool) (idempotencyKey : Option (List UInt8)) :
      Posts keys header payload (.ingestSingle keys header durable idempotencyKey payload)
  | batch (durableHeader : Option (List UInt8)) (events : List IngestEvent) (h : payload ∈ events) :
      Posts keys header payload (.ingestBatch keys header durableHeader events)

/-- The input says what the processing of a payload finds. -/
inductive Service.Pays : Visit → Service.Input → Prop where
  | submit (n : Nat) (visits : Nat → Visit) (k : Nat) : Pays (visits k) (.submit n visits)

/-- What was posted and visited; the whole of a run, or of what came before a state. -/
structure Supply where
  posted : ApiKeySet → Option (List UInt8) → IngestEvent → Prop
  visited : Visit → Prop

/-- The supply of a list of inputs. -/
def Supply.of (xs : List Service.Input) : Supply where
  posted := fun keys header payload => ∃ x ∈ xs, Service.Posts keys header payload x
  visited := fun visit => ∃ x ∈ xs, Service.Pays visit x

/-- The input draws on the supply. -/
structure Supply.Has (supply : Supply) (x : Service.Input) : Prop where
  posts : ∀ keys header payload, Service.Posts keys header payload x →
    supply.posted keys header payload
  pays : ∀ visit, Service.Pays visit x → supply.visited visit

theorem Supply.has_of_mem {xs : List Service.Input} {x : Service.Input} (hx : x ∈ xs) :
    (Supply.of xs).Has x :=
  ⟨fun _ _ _ h => ⟨x, hx, h⟩, fun _ h => ⟨x, hx, h⟩⟩

/-- The event was made under the request's identity, of a payload posted with its credentials. -/
def MadeOf (supply : Supply) (settings : Settings) (r : Request) (e : LlmEvent) : Prop :=
  ∃ (visit : Visit) (payload : IngestEvent) (made : Made), supply.visited visit ∧
    supply.posted r.keys r.header payload ∧
    processEvent visit.env visit.catalog payload (r.identity settings).1 (r.identity settings).2
      = pure made ∧ made.1 = e

/-- Who sent the request stays, and no payload comes in later. -/
structure Request.Keeps (r r' : Request) : Prop where
  keys : r'.keys = r.keys
  header : r'.header = r.header
  auth : r'.auth = r.auth
  pending : r'.pending ⊆ r.pending

theorem MadeOf.keeps {supply : Supply} {settings : Settings} {r r' : Request} {e : LlmEvent}
    (h : MadeOf supply settings r e) (hk : r.Keeps r') : MadeOf supply settings r' e := by
  have hidentity : r'.identity settings = r.identity settings := by
    rw [Request.identity, Request.identity, hk.auth]
  rw [MadeOf, hidentity, hk.keys, hk.header]
  exact h

namespace Service

variable {supply : Supply} {s s' : Service}

/-- What waits in a request was posted, and so was what its calls carry. -/
structure Sourced (supply : Supply) (s : Service) : Prop where
  pending : ∀ (n : Nat) (r : Request), s.requests[n]? = some r → ∀ p ∈ r.pending,
    supply.posted r.keys r.header p
  made : ∀ (n : Nat) (r : Request), s.requests[n]? = some r → ∀ j ∈ r.calls, ∀ kind events,
    (s.writer.calls.map BatchWriter.asked)[j]? = some (kind, events) →
    ∀ e ∈ events, MadeOf supply s.settings r e

/-- A step without a call of the writer: each request is an old one that moved on, or a new one. -/
theorem Sourced.keep (h : s.Sourced supply) (hsettings : s'.settings = s.settings)
    (hasked : s'.writer.calls.map BatchWriter.asked = s.writer.calls.map BatchWriter.asked)
    (hrequests : ∀ (n : Nat) (r' : Request), s'.requests[n]? = some r' →
      (∃ r, s.requests[n]? = some r ∧ r.Keeps r' ∧ r'.calls = r.calls) ∨
      r'.calls = [] ∧ ∀ p ∈ r'.pending, supply.posted r'.keys r'.header p) :
    s'.Sourced supply := by
  refine ⟨fun n r' hn p hp => ?_, fun n r' hn j hj kind events hasks e he => ?_⟩
  · rcases hrequests n r' hn with ⟨r, hr, hk, -⟩ | ⟨-, hposted⟩
    · rw [hk.keys, hk.header]
      exact h.pending n r hr p (hk.pending hp)
    · exact hposted p hp
  · rcases hrequests n r' hn with ⟨r, hr, hk, hcalls⟩ | ⟨hnone, -⟩
    · rw [hasked] at hasks
      rw [hcalls] at hj
      rw [hsettings]
      exact (h.made n r hr j hj kind events hasks e he).keeps hk
    · rw [hnone] at hj
      cases hj

/-- One request moves on, without a call of the writer. -/
theorem Sourced.set (h : s.Sourced supply) {n : Nat} {r q : Request} (hn : s.requests[n]? = some r)
    (hk : r.Keeps q) (hcalls : q.calls = r.calls) (cache : Option IdempotencyCache) :
    Sourced supply { s with cache := cache, requests := s.requests.set n q } := by
  refine h.keep rfl rfl fun m q' hm => .inl ?_
  rcases getElem?_set_cases hm with ⟨rfl, rfl⟩ | ⟨-, hold⟩
  · exact ⟨r, hn, hk, hcalls⟩
  · exact ⟨q', hold, ⟨rfl, rfl, rfl, List.Subset.refl _⟩, rfl⟩

/-- A call carries events made of pending payloads. -/
theorem Sourced.call (h : s.Sourced supply) (htidy : s.Tidy) {n : Nat} {r : Request}
    (hn : s.requests[n]? = some r) {made : List (Except ServerError Made)} {pending : List IngestEvent}
    (hpending : pending ⊆ r.pending)
    (hmade : ∀ e ∈ llmEvents made, MadeOf supply s.settings r e) :
    (s.call n r made pending).Sourced supply := by
  have hk : r.Keeps { r with
      pending := pending
      stage := .waiting s.writer.calls.length made
      calls := r.calls ++ [s.writer.calls.length] } :=
    ⟨rfl, rfl, rfl, hpending⟩
  have hlen : (s.writer.calls.map BatchWriter.asked).length = s.writer.calls.length :=
    List.length_map _
  refine ⟨fun m q' hm p hp => ?_, fun m q' hm j hj kind events hasks e he => ?_⟩
  · rcases getElem?_set_cases hm with ⟨rfl, rfl⟩ | ⟨-, hold⟩
    · exact h.pending n r hn p (hpending hp)
    · exact h.pending m q' hold p hp
  · have hasks' : (s.writer.calls.map BatchWriter.asked ++ [(r.path.kind, llmEvents made)])[j]?
        = some (kind, events) := by
      rw [← asked_begin]
      exact hasks
    rcases getElem?_concat_cases hasks' with hasked | ⟨rfl, heq⟩
    · have hlt : j < s.writer.calls.length := by
        rw [← hlen]
        exact (List.getElem?_eq_some_iff.mp hasked).1
      rcases getElem?_set_cases hm with ⟨rfl, rfl⟩ | ⟨-, hold⟩
      · rcases List.mem_append.mp hj with hj | hj
        · exact (h.made n r hn j hj kind events hasked e he).keeps hk
        · rw [List.mem_singleton.mp hj] at hlt
          exact absurd hlt (Nat.lt_irrefl _)
      · exact h.made m q' hold j hj kind events hasked e he
    · cases heq
      rcases getElem?_set_cases hm with ⟨rfl, rfl⟩ | ⟨-, hold⟩
      · exact (hmade e he).keeps hk
      · -- the number of the call is new, so no other request has it
        have hlt := htidy.calls m q' hold _ hj
        rw [hlen] at hlt
        exact absurd hlt (Nat.lt_irrefl _)

theorem Sourced.enter (h : s.Sourced supply) {keys : ApiKeySet} {header : Option (List UInt8)}
    {path : Path} {stage : Stage} {events : List IngestEvent}
    {results : List (Except ServerError IngestResponse)}
    (hposted : ∀ p ∈ events, supply.posted keys header p) :
    (s.enter keys header path stage events results).Sourced supply := by
  unfold Service.enter
  split
  · exact h
  · refine h.keep rfl rfl fun n r' hn => ?_
    rcases getElem?_concat_cases hn with hold | ⟨-, rfl⟩
    · exact .inl ⟨r', hold, ⟨rfl, rfl, rfl, List.Subset.refl _⟩, rfl⟩
    · exact .inr ⟨rfl, hposted⟩

/-- The events of a batch are made of its payloads. -/
theorem madeOf_of_processAll {settings : Settings} {r : Request} {visits : Nat → Visit}
    {made : List (Except ServerError Made)} (hvisits : ∀ k, supply.visited (visits k))
    (hposted : ∀ p ∈ r.pending, supply.posted r.keys r.header p)
    (h : processAll visits r.pending (r.identity settings).1 (r.identity settings).2 = some made) :
    ∀ e ∈ llmEvents made, MadeOf supply settings r e := by
  intro e he
  obtain ⟨m, hm, rfl⟩ := mem_llmEvents he
  unfold processAll at h
  obtain ⟨p, hp, hmade⟩ := exists_left_of_forall₂ (mapM_eq_some_iff.mp h) hm
  have hmem : p.1 ∈ r.pending := by
    have := List.mem_map_of_mem (f := Prod.fst) hp
    rwa [List.zipIdx_map_fst] at this
  exact ⟨visits p.2, p.1, m, hvisits p.2, hposted p.1 hmem, hmade, rfl⟩

theorem Sourced.submit (h : s.Sourced supply) (htidy : s.Tidy) {n : Nat} {r : Request}
    (hn : s.requests[n]? = some r) {visits : Nat → Visit} (hvisits : ∀ k, supply.visited (visits k)) :
    (s.submit n r visits).Sourced supply := by
  have hposted := h.pending n r hn
  have hsame : ∀ {pending : List IngestEvent} {stage : Stage}
      {results : List (Except ServerError IngestResponse)}, pending ⊆ r.pending →
      Sourced supply { s with
        requests := s.requests.set n { r with pending := pending, stage := stage, results := results } } :=
    fun {pending stage results} hsub =>
      h.set (q := { r with pending := pending, stage := stage, results := results }) hn
        ⟨rfl, rfl, rfl, hsub⟩ rfl s.cache
  unfold Service.submit
  dsimp only
  split
  · split
    · exact hsame (List.nil_subset _)
    · split
      · exact hsame (List.Subset.refl _)
      · rename_i made hmade
        exact h.call htidy hn (List.nil_subset _) (madeOf_of_processAll hvisits hposted hmade)
  · split
    · exact hsame (List.Subset.refl _)
    · rename_i event pending hpending
      have htail : pending ⊆ r.pending := by
        rw [hpending]
        exact List.subset_cons_self _ _
      split
      · exact hsame (List.Subset.refl _)
      · exact hsame htail
      · rename_i m hm
        refine h.call htidy hn htail fun e he => ?_
        rw [show llmEvents [.ok m] = [m.1] from rfl, List.mem_singleton] at he
        obtain ⟨_, -, hm⟩ := Fallible.bind_eq_pure (b := m) hm
        refine ⟨visits 0, event, m, hvisits 0, hposted event ?_, hm, he.symm⟩
        rw [hpending]
        exact List.mem_cons_self

theorem Sourced.lookup (h : s.Sourced supply) {n : Nat} {r : Request} (hn : s.requests[n]? = some r)
    (now : Nat) : (s.lookup n r now).Sourced supply := by
  have hready : ∀ cache, Sourced supply { s with
      cache := cache, requests := s.requests.set n { r with stage := .ready } } := fun cache =>
    h.set hn (q := { r with stage := .ready }) ⟨rfl, rfl, rfl, List.Subset.refl _⟩ rfl cache
  unfold Service.lookup
  split
  · rename_i key cache _ _
    rcases cache.get key now with ⟨_ | cached, cache'⟩
    · exact hready (some cache')
    · exact h.set hn (q := { r with pending := [], stage := .returned, results := [.ok cached] })
        ⟨rfl, rfl, rfl, List.nil_subset _⟩ rfl (some cache')
  · exact hready s.cache

theorem Sourced.writer (h : s.Sourced supply) {x : BatchWriter.Input} (hx : x.begins = false)
    (stored : List Token) : Sourced supply { s with writer := s.writer.step x, stored := stored } :=
  h.keep rfl (BatchWriter.asked_step s.writer x hx) fun _ r' hn =>
    .inl ⟨r', hn, ⟨rfl, rfl, rfl, List.Subset.refl _⟩, rfl⟩

theorem sourced_step (x : Input) (hx : supply.Has x) (htidy : s.Tidy) (h : s.Sourced supply) :
    (s.step x).Sourced supply := by
  cases x with
  | ingestSingle keys header durable idempotencyKey event =>
    have hposted : ∀ p ∈ [event], supply.posted keys header p := by
      intro p hp
      rw [List.mem_singleton.mp hp]
      exact hx.posts keys header event (.single durable idempotencyKey)
    rw [step, ingestSingle]
    split
    · exact h.enter hposted
    · exact h.enter hposted
  | ingestBatch keys header durableHeader events =>
    have hnone : ∀ p ∈ ([] : List IngestEvent), supply.posted keys header p := by simp
    rw [step, ingestBatch]
    split
    · exact h.enter hnone
    · exact h.enter fun p hp => hx.posts keys header p (.batch durableHeader events hp)
  | lookup n now =>
    rw [step]
    split
    · exact h
    · rename_i r hn
      split
      · exact h.lookup hn now
      · exact h
  | submit n visits =>
    rw [step]
    split
    · exact h
    · rename_i r hn
      split
      · split
        · exact h
        · exact h.submit htidy hn fun k => hx.pays _ (.submit n visits k)
      · exact h
  | collect n now =>
    rw [step]
    split
    · exact h
    · rename_i r hn
      split
      · split
        · exact h
        · rw [collect]
          split
          · exact h
          · rename_i results _
            exact h.set hn
              (q := { r with stage := afterRound r.pending, results := r.results ++ results })
              ⟨rfl, rfl, rfl, List.Subset.refl _⟩ rfl _
      · exact h
  | flush i outcome kept => exact h.writer rfl _
  | writer y =>
    rw [step]
    split
    · rename_i hy
      exact h.writer (begins_of_isInternal hy) s.stored
    · exact h

/-- In a run, every event a request hands to the writer was made of a payload that came with it. -/
theorem sourced_run (settings : Settings) (config : BatchConfig) (cache : Option IdempotencyCache)
    (xs : List Input) (hxs : ∀ x ∈ xs, supply.Has x) :
    (run step (new settings config cache) xs).Sourced supply := by
  have hstep : ∀ (s : Service) (x : Input), s.Tidy ∧ s.Sourced supply → supply.Has x →
      (s.step x).Tidy ∧ (s.step x).Sourced supply :=
    fun s x h hx => ⟨tidy_step s x h.1, sourced_step x hx h.1 h.2⟩
  refine (run_invariant hstep ⟨tidy_new settings config cache, ?_, ?_⟩
    (allowed_of_forall fun _ => hxs)).2
  · intro n r hn
    cases hn
  · intro n r hn
    cases hn

/-- Where the event of a write request comes from. -/
theorem Sourced.eventAt (h : s.Sourced supply) {t : Token} {e : LlmEvent}
    (he : eventAt s.writer t = some e) {n : Nat} {r : Request} (hn : s.requests[n]? = some r)
    (hcall : t.call ∈ r.calls) : MadeOf supply s.settings r e := by
  obtain ⟨c, hc, hslot⟩ := Option.bind_eq_some_iff.mp he
  refine h.made n r hn t.call hcall c.kind c.events ?_ e (List.mem_of_getElem? hslot)
  rw [List.getElem?_map, hc]
  rfl

end Service

end Keplor.Server
