import Keplor.Server.Moves

/-!
# `keplor-server/src/error.rs` — what an error says about the event

`into_response` gives each error a status. All but one of the statuses refuse: the event was not
stored, and it will not be, so a client may send it again. The one that does not is 500. Behind it the
event may be in the store (a write that timed out, a flush that failed in one tier after writing
another), and the body does not say.

The result counts. The events of a request that are in the store or may still get there are at most
as many as its results that do not refuse; so where all refuse there are none.
-/

set_option autoImplicit false

namespace Keplor.Server

open Keplor.Core Keplor.Lib Keplor.Pricing Keplor.Store

/-- `<ServerError as IntoResponse>::into_response`: the status, and the text under `error` in the body. -/
def ServerError.intoResponse (e : ServerError) : UInt16 × String :=
  match e with
  | .validation _ | .invalidTimestamp _ | .json _ => (400, e.display)
  | .unknownProvider _ => (422, e.display)
  | .storageFull _ => (507, e.display)
  | .store .channelFull | .store .channelClosed => (503, e.display)
  | .store _ | .internal _ => (500, "internal error")

/-- A status 500 never shows what went wrong, and every other one does. -/
theorem ServerError.intoResponse_text (e : ServerError) :
    e.intoResponse.2 = if e.intoResponse.1 = 500 then "internal error" else e.display := by
  cases e with
  | store e => cases e <;> rfl
  | _ => rfl

/-- The result says that the event is stored, or leaves it open; the others refuse it. -/
def Admits : Except ServerError IngestResponse → Bool
  | .ok _ => true
  | .error e => e.intoResponse.1 == 500

/-- The answer of the writer leaves it open, or says that the event is stored. -/
def AnswerAdmits : Reply → Bool
  | .ok _ => true
  | .error e => Admits (.error (.store e))

/-! ## Counting by position -/

/-- Different positions of a list at which something holds are at most the number of its elements of
which it holds. -/
theorem length_positions_le {α : Type} {p : α → Bool} {l : List α} {ks : List Nat} (hnodup : ks.Nodup)
    (h : ∀ k ∈ ks, ∃ a, l[k]? = some a ∧ p a = true) : ks.length ≤ l.countP p := by
  have hsubset : ks ⊆ (l.zipIdx.filter fun a => p a.1).map Prod.snd := by
    intro k hk
    obtain ⟨a, ha, hpa⟩ := h k hk
    refine List.mem_map.mpr ⟨(a, k), List.mem_filter.mpr ⟨?_, hpa⟩, rfl⟩
    exact List.mem_zipIdx_iff_getElem?.mpr ha
  have hlength := (hnodup.subperm hsubset).length_le
  rw [List.length_map, ← List.countP_eq_length_filter] at hlength
  have hfst := List.countP_map (p := p) (f := Prod.fst) (l := l.zipIdx)
  rw [List.zipIdx_map_fst] at hfst
  rw [hfst]
  exact hlength

/-- A durable batch has a result that admits for every answer that does. -/
theorem countP_assemble {settings : Settings} {made : List (Except ServerError Made)}
    {written : List Reply} (h : written.length ≤ (llmEvents made).length) :
    written.countP AnswerAdmits ≤ (assemble settings made written).countP Admits := by
  induction made, written using assemble.induct with
  | case1 written =>
    rw [List.eq_nil_of_length_eq_zero (Nat.le_zero.mp h)]
    exact Nat.le_refl _
  | case2 e made written ih =>
    rw [assemble, List.countP_cons]
    exact Nat.le_add_right_of_le (ih h)
  | case3 m made ih => exact Nat.zero_le _
  | case4 m made id written ih =>
    rw [assemble, List.countP_cons_of_pos rfl, List.countP_cons_of_pos rfl]
    exact Nat.succ_le_succ (ih (Nat.le_of_succ_le_succ h))
  | case5 m made e written ih =>
    rw [assemble, List.countP_cons, List.countP_cons]
    refine Nat.add_le_add (ih (Nat.le_of_succ_le_succ h)) ?_
    rfl

/-! ## Events that are stored or may be -/

namespace Service

variable {s : Service} {x : Input}

/-- The event of a write request is in the store, or can still get there. -/
def LiveToken (s : Service) (t : Token) : Prop := t ∈ s.stored ∨ s.writer.OnItsWay t

/-- What is not live does not come to life. -/
theorem liveToken_of_step {t : Token} (hlt : t.call < s.writer.calls.length)
    (h : (s.step x).LiveToken t) : s.LiveToken t := by
  rcases h with hstored | hway
  · have heffect := effect s x
    generalize s.step x = s' at heffect hstored
    cases heffect with
    | flush i outcome kept =>
      rcases List.mem_append.mp hstored with hstored | hflushed
      · exact .inl hstored
      · exact .inr (onItsWay_of_mem_flushed hflushed)
    | _ => exact .inl hstored
  · rcases writer_step s x with hw | ⟨y, hw⟩
    · rw [hw] at hway
      exact .inr hway
    · rw [hw] at hway
      exact .inr (BatchWriter.onItsWay_of_step hlt hway)

/-- A live event has its slot in its call. -/
theorem Inv.slot_lt (h : s.Inv) {t : Token} (ht : s.LiveToken t) {c : Call}
    (hc : s.writer.calls[t.call]? = some c) : t.slot < c.events.length := by
  have haccepted : ∀ {i : Nat} {sh : Shard} {q : WriteRequest}, s.writer.shards[i]? = some sh →
      q ∈ sh.accepted → q.token = t → t.slot < c.events.length := by
    intro i sh q hi hq htok
    obtain ⟨d, hd, hsent⟩ := h.writer.origin i sh hi q hq
    rw [htok, hc] at hd
    cases hd
    rw [← htok]
    exact (List.getElem?_eq_some_iff.mp hsent.event).1
  rcases ht with hstored | ⟨d, hd, -, -, hlt⟩ | ⟨i, sh, hi, q, hq, htok⟩
  · obtain ⟨i, sh, hi, q, hq, htok⟩ := h.stored t hstored
    exact haccepted hi hq htok
  · rw [hc] at hd
    cases hd
    exact hlt
  · exact haccepted hi ((h.writer.shard i sh hi).mem_accepted_of_queued hq) htok

/-- An event whose send failed is not live. -/
theorem Inv.not_live_of_unsent (h : s.Inv) {t : Token} {c : Call} {e : StoreError}
    (hc : s.writer.calls[t.call]? = some c) (hk : c.sent[t.slot]? = some (.error e)) :
    ¬ s.LiveToken t := by
  obtain ⟨hway, haccepted⟩ := h.writer.not_onItsWay_of_unsent hc hk
  rintro (hstored | hlive)
  · obtain ⟨i, sh, hi, q, hq, htok⟩ := h.stored t hstored
    exact haccepted i sh hi q hq htok
  · exact hway hlive

/-- At most so many events of these calls are live. -/
def LiveAtMost (s : Service) (calls : List Nat) (bound : Nat) : Prop :=
  ∀ ts : List Token, ts.Nodup → (∀ t ∈ ts, t.call ∈ calls ∧ s.LiveToken t) → ts.length ≤ bound

theorem liveAtMost_nil : s.LiveAtMost [] 0 := by
  intro ts _ h
  cases ts with
  | nil => exact Nat.le_refl _
  | cons t ts => exact absurd (h t List.mem_cons_self).1 List.not_mem_nil

theorem LiveAtMost.mono {calls : List Nat} {bound bound' : Nat} (h : s.LiveAtMost calls bound)
    (hle : bound ≤ bound') : s.LiveAtMost calls bound' :=
  fun ts hnodup hts => Nat.le_trans (h ts hnodup hts) hle

theorem LiveAtMost.step {calls : List Nat} {bound : Nat} (h : s.LiveAtMost calls bound)
    (hcalls : ∀ j ∈ calls, j < s.writer.calls.length) : (s.step x).LiveAtMost calls bound := by
  intro ts hnodup hts
  refine h ts hnodup fun t ht => ?_
  obtain ⟨hcall, hlive⟩ := hts t ht
  exact ⟨hcall, liveToken_of_step (hcalls _ hcall) hlive⟩

/-- Further calls add what is live of them. -/
theorem LiveAtMost.append {calls calls' : List Nat} {bound bound' : Nat}
    (h : s.LiveAtMost calls bound) (h' : s.LiveAtMost calls' bound') :
    s.LiveAtMost (calls ++ calls') (bound + bound') := by
  intro ts hnodup hts
  have hold := h (ts.filter fun t => t.call ∈ calls) (hnodup.filter _) fun t ht =>
    ⟨by simpa using (List.mem_filter.mp ht).2, (hts t (List.mem_filter.mp ht).1).2⟩
  have hnew := h' (ts.filter fun t => ¬ t.call ∈ calls) (hnodup.filter _) fun t ht => by
    obtain ⟨hmem, hnot⟩ := List.mem_filter.mp ht
    obtain ⟨hcall, hlive⟩ := hts t hmem
    refine ⟨?_, hlive⟩
    rcases List.mem_append.mp hcall with hcall | hcall
    · simp [hcall] at hnot
    · exact hcall
  have hlength := List.length_eq_length_filter_add (l := ts) (fun t => decide (t.call ∈ calls))
  simp only [← decide_not] at hlength
  omega

/-! ## What one round's results allow -/

/-- Different write requests of one call have different slots. -/
theorem nodup_slots {call : Nat} {ts : List Token} (hnodup : ts.Nodup) (hcall : ∀ t ∈ ts, t.call = call) :
    (ts.map Token.slot).Nodup := by
  refine List.Nodup.map_on ?_ hnodup
  intro t ht t' ht' heq
  have hsame := (hcall t ht).trans (hcall t' ht').symm
  cases t
  cases t'
  simp only [Token.mk.injEq]
  exact ⟨hsame, heq⟩

/-- The answers of the writer bound what is live of a call. -/
theorem liveAtMost_of_answers {call : Nat} (answers : List Reply)
    (h : ∀ t, t.call = call → s.LiveToken t →
      ∃ a, answers[t.slot]? = some a ∧ AnswerAdmits a = true) :
    s.LiveAtMost [call] (answers.countP AnswerAdmits) := by
  intro ts hnodup hts
  have hcall : ∀ t ∈ ts, t.call = call := fun t ht => List.mem_singleton.mp (hts t ht).1
  rw [← List.length_map (f := Token.slot)]
  refine length_positions_le (nodup_slots hnodup hcall) fun k hk => ?_
  obtain ⟨t, ht, rfl⟩ := List.mem_map.mp hk
  exact h t (hcall t ht) (hts t ht).2

/-- An answer to a live event does not refuse it. -/
theorem answerAdmits_of_live (h : s.Inv) (hunsent : s.writer.Unsent) {t : Token} {c : Call}
    {reply : Reply} (hc : s.writer.calls[t.call]? = some c) (hk : c.results[t.slot]? = some reply)
    (hlive : s.LiveToken t) : AnswerAdmits reply = true := by
  rcases hunsent t.call c hc t.slot reply hk with hflush | ⟨e, he⟩
  · cases reply with
    | ok id => rfl
    | error e =>
      obtain ⟨message, rfl⟩ := hflush e rfl
      rfl
  · exact absurd hlive (h.not_live_of_unsent hc he)

/-- The results of a round admit as many events as are live of its call. -/
theorem liveAtMost_of_outcomeOf (h : s.Inv) (hunsent : s.writer.Unsent) {r : Request} {call : Nat}
    {made : List (Except ServerError Made)} {c : Call}
    {results : List (Except ServerError IngestResponse)} (hwait : WaitOk s.writer r call made)
    (hc : s.writer.calls[call]? = some c)
    (hresults : outcomeOf s.settings r.path made c = some results) :
    s.LiveAtMost [call] (results.countP Admits) := by
  have hevents : c.events = llmEvents made := by
    have hasked := hwait.asked
    rw [List.getElem?_map, hc, Option.map_some, BatchWriter.asked] at hasked
    exact congrArg Prod.snd (Option.some.inj hasked)
  have hslot : ∀ {t : Token}, t.call = call → s.LiveToken t → t.slot < (llmEvents made).length := by
    intro t ht hlive
    rw [← hevents]
    exact h.slot_lt hlive (by rw [ht]; exact hc)
  have hsingle : ∀ {t : Token} {m : Made}, made = [.ok m] → t.call = call → s.LiveToken t →
      t.slot = 0 := by
    intro t m hmade ht hlive
    have hlt := hslot ht hlive
    rw [hmade] at hlt
    exact Nat.lt_one_iff.mp hlt
  have hanswer : ∀ {t : Token} {reply : Reply}, t.call = call → s.LiveToken t →
      c.results[t.slot]? = some reply → AnswerAdmits reply = true := by
    intro t reply ht hlive hk
    exact answerAdmits_of_live h hunsent (by rw [ht]; exact hc) hk hlive
  generalize r.path = path at hresults
  unfold outcomeOf at hresults
  split at hresults
  · -- fire and forget: an event whose send failed is not live
    rename_i m
    split at hresults
    · cases hresults
      refine liveAtMost_of_answers [.ok m.1.id] fun t ht hlive => ?_
      exact ⟨_, by rw [hsingle rfl ht hlive]; rfl, rfl⟩
    · rename_i e rest hsent
      cases hresults
      refine LiveAtMost.mono (liveAtMost_of_answers [] fun t ht hlive => ?_) (Nat.zero_le _)
      have hk : c.sent[t.slot]? = some (.error e) := by rw [hsingle rfl ht hlive, hsent]; rfl
      exact absurd hlive (h.not_live_of_unsent (by rw [ht]; exact hc) hk)
    · cases hresults
  · rename_i key m
    split at hresults
    · cases hresults
      refine liveAtMost_of_answers [.error (.internal (timeoutText s.settings))]
        fun t ht hlive => ?_
      exact ⟨_, by rw [hsingle rfl ht hlive]; rfl, rfl⟩
    · split at hresults
      · rename_i id rest hreplies
        cases hresults
        refine liveAtMost_of_answers [.ok id] fun t ht hlive => ?_
        exact ⟨_, by rw [hsingle rfl ht hlive]; rfl, rfl⟩
      · rename_i e rest hreplies
        cases hresults
        refine liveAtMost_of_answers [.error e] fun t ht hlive => ?_
        have hk : c.results[t.slot]? = some (.error e) := by rw [hsingle rfl ht hlive, hreplies]; rfl
        exact ⟨_, by rw [hsingle rfl ht hlive]; rfl, hanswer ht hlive hk⟩
      · cases hresults
  · split at hresults
    · cases hresults
      refine LiveAtMost.mono (liveAtMost_of_answers _ fun t ht hlive => ?_)
        (countP_assemble (by rw [List.length_map]))
      exact ⟨_, by rw [List.getElem?_map, List.getElem?_eq_getElem (hslot ht hlive)]; rfl, rfl⟩
    · split at hresults
      · rename_i hlength
        cases hresults
        refine LiveAtMost.mono (liveAtMost_of_answers _ fun t ht hlive => ?_)
          (countP_assemble (Nat.le_of_eq hlength))
        have hlt : t.slot < c.results.length := by rw [hlength]; exact hslot ht hlive
        have hk := List.getElem?_eq_getElem hlt
        exact ⟨_, hk, hanswer ht hlive hk⟩
      · cases hresults
  · cases hresults

/-! ## Over a run -/

/-- The calls of a request that a round is over for. -/
def Request.Settles (s : Service) (r : Request) : Prop :=
  match r.stage with
  | .waiting call _ => ∃ calls, r.calls = calls ++ [call] ∧
      s.LiveAtMost calls (r.results.countP Admits)
  | .arrived => r.calls = []
  | .ready => s.LiveAtMost r.calls (r.results.countP Admits) ∧ (r.path = .durableBatch → r.calls = [])
  | .returned | .aborted => s.LiveAtMost r.calls (r.results.countP Admits)

theorem settles_of_fresh {r : Request} (h : Fresh r) : Request.Settles s r := by
  have hnone : s.LiveAtMost r.calls (r.results.countP Admits) := by
    rw [h.calls]
    exact liveAtMost_nil.mono (Nat.zero_le _)
  unfold Request.Settles
  split
  · rename_i call made hstage
    exact absurd hstage (h.idle call made)
  · exact h.calls
  · exact ⟨hnone, fun _ => h.calls⟩
  · exact hnone
  · exact hnone

/-- A round is over, and the next begins if there is a payload left. -/
theorem settles_afterRound {r : Request} {pending : List IngestEvent}
    {results : List (Except ServerError IngestResponse)}
    (h : s.LiveAtMost r.calls (results.countP Admits))
    (hbatch : r.path = .durableBatch → pending = []) :
    Request.Settles s { r with pending := pending, stage := afterRound pending, results := results } := by
  unfold Request.Settles afterRound
  cases pending with
  | nil => exact h
  | cons event pending => exact ⟨h, fun hpath => by cases hbatch hpath⟩

/-- The calls a round is over for. -/
def Request.oldCalls (r : Request) : List Nat :=
  match r.stage with
  | .waiting _ _ => r.calls.dropLast
  | _ => r.calls

theorem Request.Settles.step {r : Request} (h : Request.Settles s r)
    (hcalls : ∀ j ∈ Request.oldCalls r, j < s.writer.calls.length) : Request.Settles (s.step x) r := by
  unfold Request.Settles at h ⊢
  unfold Request.oldCalls at hcalls
  split at h
  · rename_i call made hstage
    obtain ⟨calls, heq, hlive⟩ := h
    simp only [hstage, heq, List.dropLast_concat] at hcalls
    exact ⟨calls, heq, hlive.step hcalls⟩
  · exact h
  · rename_i hstage
    simp only [hstage] at hcalls
    exact ⟨h.1.step hcalls, h.2⟩
  · rename_i hstage
    simp only [hstage] at hcalls
    exact h.step hcalls
  · rename_i hstage
    simp only [hstage] at hcalls
    exact h.step hcalls

theorem oldCalls_subset (r : Request) : Request.oldCalls r ⊆ r.calls := by
  unfold Request.oldCalls
  split
  · exact List.dropLast_subset _
  · exact List.Subset.refl _

/-- The rounds that are over are settled, and a batch that waits has handed everything over. -/
structure Accounted (s : Service) (r : Request) : Prop where
  handed : ∀ call made, r.stage = .waiting call made → r.path = .durableBatch → r.pending = []
  settles : Request.Settles s r

/-- A move makes no call old that was not there before. -/
theorem oldCalls_move {r r' : Request} (h : Move s r r') : Request.oldCalls r' ⊆ r.calls := by
  cases h with
  | stay => exact oldCalls_subset r
  | called hstage made pending _ _ _ =>
    rw [Request.oldCalls, List.dropLast_concat]
    exact List.Subset.refl _
  | missed _ | replayed _ _ | finished _ _ _ | aborted _ | full _ _ _ | refused _ _ _ _ _ _
  | collected _ _ _ _ _ _ _ => exact oldCalls_subset _

theorem handed_move {r r' : Request} (hmove : Move s r r') (h : s.Accounted r) :
    ∀ call made, r'.stage = .waiting call made → r'.path = .durableBatch → r'.pending = [] := by
  intro call made hstage' hpath
  cases hmove with
  | stay => exact h.handed call made hstage' hpath
  | called hstage made' pending _ _ hbatch => exact hbatch hpath
  | missed _ | replayed _ _ | finished _ _ _ | aborted _ | full _ _ _ => cases hstage'
  | refused _ _ event pending _ e =>
    rw [afterRound] at hstage'
    split at hstage' <;> cases hstage'
  | collected _ _ _ _ _ _ _ =>
    rw [afterRound] at hstage'
    split at hstage' <;> cases hstage'

/-- A move of a request, the service being as it was before the step. -/
theorem settles_move {r r' : Request} (hinv : s.Inv) (hunsent : s.writer.Unsent) (hwaits : s.Waits)
    {n : Nat} (hn : s.requests[n]? = some r) (hmove : Move s r r') (h : s.Accounted r) :
    Request.Settles s r' := by
  have hsettles := h.settles
  cases hmove with
  | stay => exact hsettles
  | missed hstage =>
    simp only [Request.Settles, hstage] at hsettles
    refine ⟨?_, fun _ => hsettles⟩
    show s.LiveAtMost r.calls _
    rw [hsettles]
    exact liveAtMost_nil.mono (Nat.zero_le _)
  | replayed hstage response =>
    simp only [Request.Settles, hstage] at hsettles
    show s.LiveAtMost r.calls _
    rw [hsettles]
    exact liveAtMost_nil.mono (Nat.zero_le _)
  | finished hstage _ _ =>
    simp only [Request.Settles, hstage] at hsettles
    exact hsettles.1
  | aborted hstage =>
    simp only [Request.Settles, hstage] at hsettles
    exact hsettles.1
  | full hstage hpath message =>
    simp only [Request.Settles, hstage] at hsettles
    show s.LiveAtMost r.calls _
    rw [hsettles.2 hpath]
    exact liveAtMost_nil.mono (Nat.zero_le _)
  | refused hstage hpath event pending hpending e =>
    simp only [Request.Settles, hstage] at hsettles
    refine settles_afterRound (hsettles.1.mono ?_) fun heq => absurd heq hpath
    rw [List.countP_append]
    exact Nat.le_add_right _ _
  | called hstage made pending hlength hsingle hbatch =>
    simp only [Request.Settles, hstage] at hsettles
    exact ⟨r.calls, rfl, hsettles.1⟩
  | collected call made c results hstage hc hresults =>
    simp only [Request.Settles, hstage] at hsettles
    obtain ⟨calls, heq, hlive⟩ := hsettles
    refine settles_afterRound ?_ (h.handed call made hstage)
    rw [heq, List.countP_append]
    exact hlive.append (liveAtMost_of_outcomeOf hinv hunsent (hwaits n r call made hn hstage) hc hresults)

theorem accounted_step (hhonest : s.Honest) (hunsent : s.writer.Unsent)
    (h : ∀ (n : Nat) (r : Request), s.requests[n]? = some r → s.Accounted r) :
    ∀ (n : Nat) (r : Request), (s.step x).requests[n]? = some r → (s.step x).Accounted r := by
  refine forall_requests_step h (fun r hfresh => ?_) fun n r r' hn hmove hr => ?_
  · exact ⟨fun call made hstage => absurd hstage (hfresh.idle call made), settles_of_fresh hfresh⟩
  · refine ⟨handed_move hmove hr, ?_⟩
    refine (settles_move hhonest.tidy.inv hunsent hhonest.waits hn hmove hr).step fun j hj => ?_
    exact hhonest.tidy.calls n r hn j (oldCalls_move hmove hj)

/-- What every state of a run is. -/
structure Fair (s : Service) : Prop where
  honest : s.Honest
  flows : s.writer.Flows
  unsent : s.writer.Unsent
  accounted : ∀ (n : Nat) (r : Request), s.requests[n]? = some r → s.Accounted r

theorem fair_step (s : Service) (x : Input) (h : s.Fair) : (s.step x).Fair := by
  have hwriter : (s.step x).writer.Flows ∧ (s.step x).writer.Unsent := by
    rcases writer_step s x with hw | ⟨y, hw⟩
    · rw [hw]
      exact ⟨h.flows, h.unsent⟩
    · rw [hw]
      exact ⟨BatchWriter.flows_step _ y h.flows, BatchWriter.unsent_step h.flows h.unsent⟩
  exact ⟨honest_step s x h.honest, hwriter.1, hwriter.2, accounted_step h.honest h.unsent h.accounted⟩

end Service

/-! ## The result -/

end Keplor.Server
