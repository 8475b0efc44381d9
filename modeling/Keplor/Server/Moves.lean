import Keplor.Server.Receipts

/-!
# The life of one request

`Service.Effect` says what a step does to the service. `Move` says the same of one request in it, and
says all: which field may change, and what it becomes. Whatever is to be counted over the life of a
request (its payloads, its calls, its results) is counted along its moves.
-/

set_option autoImplicit false

namespace Keplor.Server

open Keplor.Core Keplor.Lib Keplor.Pricing Keplor.Store

namespace Service

/-- What a step can make of a request. -/
inductive Move (s : Service) (r : Request) : Request → Prop where
  | stay : Move s r r
  /-- the cache was not asked, or had nothing -/
  | missed (hstage : r.stage = .arrived) : Move s r { r with stage := .ready }
  /-- the cache had the response -/
  | replayed (hstage : r.stage = .arrived) (response : IngestResponse) :
      Move s r { r with pending := [], stage := .returned, results := [.ok response] }
  /-- there was no payload left -/
  | finished (hstage : r.stage = .ready) (hpath : r.path ≠ .durableBatch) (hpending : r.pending = []) :
      Move s r { r with stage := .returned }
  /-- the task died -/
  | aborted (hstage : r.stage = .ready) : Move s r { r with stage := .aborted }
  /-- the store is full, and a whole batch is refused -/
  | full (hstage : r.stage = .ready) (hpath : r.path = .durableBatch) (message : String) :
      Move s r { r with
        pending := []
        stage := .returned
        results := r.pending.map fun _ => .error (.storageFull message) }
  /-- the next payload is refused -/
  | refused (hstage : r.stage = .ready) (hpath : r.path ≠ .durableBatch) (event : IngestEvent)
      (pending : List IngestEvent) (hpending : r.pending = event :: pending) (e : ServerError) :
      Move s r { r with
        pending := pending, stage := afterRound pending, results := r.results ++ [.error e] }
  /-- the writer is called, for one payload or for the whole batch -/
  | called (hstage : r.stage = .ready) (made : List (Except ServerError Made))
      (pending : List IngestEvent) (hlength : made.length + pending.length = r.pending.length)
      (hsingle : r.path ≠ .durableBatch → ∃ m, made = [.ok m])
      (hbatch : r.path = .durableBatch → pending = []) :
      Move s r { r with
        pending := pending
        stage := .waiting s.writer.calls.length made
        calls := r.calls ++ [s.writer.calls.length] }
  /-- the writer has answered -/
  | collected (call : Nat) (made : List (Except ServerError Made)) (c : Call)
      (results : List (Except ServerError IngestResponse)) (hstage : r.stage = .waiting call made)
      (hc : s.writer.calls[call]? = some c)
      (hresults : outcomeOf s.settings r.path made c = some results) :
      Move s r { r with stage := afterRound r.pending, results := r.results ++ results }

variable {s : Service} {x : Input}

theorem length_processAll_eq {visits : Nat → Visit} {events : List IngestEvent}
    {authenticatedKeyId : Option String} {tier : String} {made : List (Except ServerError Made)}
    (h : processAll visits events authenticatedKeyId tier = some made) :
    made.length = events.length := by
  have hsteps := mapM_eq_some_iff.mp h
  rw [← hsteps.length_eq, List.length_zipIdx]

/-- Every request that a list with one request replaced has is an old one, or the new one. -/
theorem move_of_set {n m : Nat} {r r' q : Request} (hn : s.requests[n]? = some r)
    (hm : s.requests[m]? = some q) (hmove : Move s q r') :
    ∃ r'', (s.requests.set m r')[n]? = some r'' ∧ Move s r r'' := by
  refine ⟨_, getElem?_set_of hn, ?_⟩
  split
  · rename_i hmn
    subst hmn
    rw [hn] at hm
    cases hm
    exact hmove
  · exact .stay

theorem move_lookup {n m now : Nat} {r q : Request} (hn : s.requests[n]? = some r)
    (hm : s.requests[m]? = some q) (hstage : q.stage = .arrived) :
    ∃ r', (s.lookup m q now).requests[n]? = some r' ∧ Move s r r' := by
  unfold lookup
  split
  · split
    · exact move_of_set hn hm (.replayed hstage _)
    · exact move_of_set hn hm (.missed hstage)
  · exact move_of_set hn hm (.missed hstage)

theorem move_submit {n m : Nat} {r q : Request} (visits : Nat → Visit) (hn : s.requests[n]? = some r)
    (hm : s.requests[m]? = some q) (hstage : q.stage = .ready) :
    ∃ r', (s.submit m q visits).requests[n]? = some r' ∧ Move s r r' := by
  unfold submit
  dsimp only
  split
  · rename_i hpath
    split
    · exact move_of_set hn hm (.full hstage hpath _)
    · split
      · exact move_of_set hn hm (.aborted hstage)
      · rename_i made hmade
        refine move_of_set hn hm (.called hstage made [] ?_ (fun hne => absurd hpath hne) fun _ => rfl)
        rw [length_processAll_eq hmade]
        rfl
  · rename_i hpath
    split
    · rename_i hpending
      exact move_of_set hn hm (.finished hstage hpath hpending)
    · rename_i event pending hpending
      split
      · exact move_of_set hn hm (.aborted hstage)
      · exact move_of_set hn hm (.refused hstage hpath event pending hpending _)
      · rename_i made _
        refine move_of_set hn hm (.called hstage [.ok made] pending ?_ (fun _ => ⟨made, rfl⟩)
          fun heq => absurd heq hpath)
        simp [hpending, Nat.add_comm]

/-- What a step makes of each request. -/
theorem move_step {n : Nat} {r : Request} (hn : s.requests[n]? = some r) :
    ∃ r', (s.step x).requests[n]? = some r' ∧ Move s r r' := by
  have henter : ∀ keys header path stage events results,
      ∃ r', (s.enter keys header path stage events results).requests[n]? = some r' ∧ Move s r r' := by
    intro keys header path stage events results
    unfold enter
    split
    · exact ⟨r, hn, .stay⟩
    · exact ⟨r, getElem?_append_of hn _, .stay⟩
  cases x with
  | ingestSingle keys header durable idempotencyKey event =>
    rw [step, ingestSingle]
    split
    · exact henter _ _ _ _ _ _
    · exact henter _ _ _ _ _ _
  | ingestBatch keys header durableHeader events =>
    rw [step, ingestBatch]
    split
    · exact henter _ _ _ _ _ _
    · exact henter _ _ _ _ _ _
  | lookup m now =>
    simp only [step]
    split
    · exact ⟨r, hn, .stay⟩
    · rename_i q hm
      split
      · rename_i hstage
        exact move_lookup hn hm hstage
      · exact ⟨r, hn, .stay⟩
  | submit m visits =>
    simp only [step]
    split
    · exact ⟨r, hn, .stay⟩
    · rename_i q hm
      split
      · rename_i hstage
        split
        · exact ⟨r, hn, .stay⟩
        · exact move_submit visits hn hm hstage
      · exact ⟨r, hn, .stay⟩
  | collect m now =>
    simp only [step]
    split
    · exact ⟨r, hn, .stay⟩
    · rename_i q hm
      split
      · rename_i call made hstage
        split
        · exact ⟨r, hn, .stay⟩
        · rename_i c hc
          unfold collect
          split
          · exact ⟨r, hn, .stay⟩
          · rename_i results hresults
            exact move_of_set hn hm (.collected call made c results hstage hc hresults)
      · exact ⟨r, hn, .stay⟩
  | flush i outcome kept => exact ⟨r, hn, .stay⟩
  | writer y =>
    rw [step]
    split
    · exact ⟨r, hn, .stay⟩
    · exact ⟨r, hn, .stay⟩

/-- A request that has just come in: nothing has been done for it. The handler of a batch that is too
large has answered already. -/
structure Fresh (r : Request) : Prop where
  calls : r.calls = []
  idle : ∀ call made, r.stage ≠ .waiting call made
  results : ∀ response, .ok response ∉ r.results
  batch : r.path = .durableBatch → r.stage ≠ .arrived

/-- A step brings in one request at most, and a fresh one. -/
theorem fresh_of_step {n : Nat} {r' : Request} (hn : (s.step x).requests[n]? = some r') :
    n < s.requests.length ∨ n = s.requests.length ∧ Fresh r' := by
  have hold : ∀ {l : List Request}, l.length = s.requests.length → l[n]? = some r' →
      n < s.requests.length := by
    intro l hl hget
    rw [← hl]
    exact (List.getElem?_eq_some_iff.mp hget).1
  have henter : ∀ {keys header path stage events results},
      (∀ call made, stage ≠ .waiting call made) → (∀ response, .ok response ∉ results) →
      (path = .durableBatch → stage ≠ .arrived) →
      (s.enter keys header path stage events results).requests[n]? = some r' →
      n < s.requests.length ∨ n = s.requests.length ∧ Fresh r' := by
    intro keys header path stage events results hstage hresults hbatch hget
    unfold enter at hget
    split at hget
    · exact .inl (hold rfl hget)
    · rcases getElem?_concat_cases hget with hget | ⟨hlen, rfl⟩
      · exact .inl (hold rfl hget)
      · exact .inr ⟨hlen, rfl, hstage, hresults, hbatch⟩
  cases x with
  | ingestSingle keys header durable idempotencyKey event =>
    rw [step, ingestSingle] at hn
    split at hn
    · exact henter (by simp) (by simp) (by simp) hn
    · exact henter (by simp) (by simp) (by simp) hn
  | ingestBatch keys header durableHeader events =>
    rw [step, ingestBatch] at hn
    split at hn
    · exact henter (by simp) (by simp) (by simp) hn
    · exact henter (by simp) (by simp) (by simp) hn
  | lookup m now =>
    refine .inl (hold ?_ hn)
    simp only [step, lookup]
    repeat' split
    all_goals simp
  | submit m visits =>
    refine .inl (hold ?_ hn)
    simp only [step, submit, call]
    repeat' split
    all_goals simp
  | collect m now =>
    refine .inl (hold ?_ hn)
    simp only [step, collect]
    repeat' split
    all_goals simp
  | flush i outcome kept => exact .inl (hold rfl hn)
  | writer y =>
    rw [step] at hn
    split at hn
    · exact .inl (hold rfl hn)
    · exact .inl (hold rfl hn)

/-- What holds of a request when it comes in, and is kept by its moves, holds of every request. -/
theorem forall_requests_step {P Q : Request → Prop}
    (h : ∀ (n : Nat) (r : Request), s.requests[n]? = some r → P r) (hfresh : ∀ r, Fresh r → Q r)
    (hmove : ∀ (n : Nat) (r r' : Request), s.requests[n]? = some r → Move s r r' → P r → Q r') :
    ∀ (n : Nat) (r' : Request), (s.step x).requests[n]? = some r' → Q r' := by
  intro n r' hn
  rcases fresh_of_step hn with hlt | ⟨-, hnew⟩
  · have hr := List.getElem?_eq_getElem hlt
    obtain ⟨r'', hn', hmoved⟩ := move_step (x := x) hr
    rw [hn] at hn'
    cases hn'
    exact hmove n _ r' hr hmoved (h n _ hr)
  · exact hfresh r' hnew

end Service

end Keplor.Server
