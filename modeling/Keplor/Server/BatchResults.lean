import Keplor.Lib.Scatter
import Keplor.Server.Attribution

/-!
# `keplor-server/src/{pipeline,routes}.rs` — what becomes of a batch

`ingest_batch_durable` keeps three vectors next to the batch: the events it hands to the writer, what
it will say about each of them, and the place each came from. `ingestBatchDurable` is the function
with its vectors and its index operations, each of which aborts when it is out of range.
`ingestBatchDurable_eq` says that none does, and that the vectors come to what `assemble` says
without them.

`ingestBatch` is the handler around it, and `batchResponse` its two counters.
-/

set_option autoImplicit false

namespace Keplor.Server

open Keplor.Core Keplor.Lib Keplor.Pricing Keplor.Store

/-! ## The vectors -/

/-- What the first loop of `ingest_batch_durable` leaves. -/
structure Gathered where
  llmEvents : List LlmEvent
  responses : List (Provider × String × Int64)
  okIndices : List Nat
  results : List (Option (Except ServerError IngestResponse))

/-- One turn of the first loop. -/
def Gathered.visit (visits : Nat → Visit) (authenticatedKeyId : Option String) (tier : String)
    (g : Gathered) : IngestEvent × Nat → Option Gathered
  | (event, i) =>
    match (processEvent (visits i).env (visits i).catalog event authenticatedKeyId tier).run with
    | none => none
    | some (.ok (llmEvent, provider, model, cost)) =>
      some { g with
        responses := g.responses ++ [(provider, model, cost)]
        llmEvents := g.llmEvents ++ [llmEvent]
        okIndices := g.okIndices ++ [i] }
    | some (.error e) => do
      -- `results[i] = Some(Err(e))`: the one place the first loop writes to by index
      let results ← writeAt g.results i (some (.error e))
      return { g with results := results }

/-- What a write result says about the event it is for. -/
def answerTo (settings : Settings) (response : Provider × String × Int64) :
    Reply → Except ServerError IngestResponse
  | .ok id =>
    .ok {
      id := settings.tf.ulid.print id
      costNanodollars := response.2.2
      model := response.2.1
      provider := response.1.idKey }
  | .error e => .error (.store e)

/-- One turn of the second loop. -/
def Gathered.answer (settings : Settings) (g : Gathered)
    (results : List (Option (Except ServerError IngestResponse))) :
    Reply × Nat → Option (List (Option (Except ServerError IngestResponse)))
  | (writeResult, j) => do
    let idx ← g.okIndices[j]?
    let response ← g.responses[j]?
    writeAt results idx (some (answerTo settings response writeResult))

/-- `Pipeline::ingest_batch_durable`. `write` is `write_many` under its timeout, `none` when that is
over. -/
def ingestBatchDurable (settings : Settings) (dbSize : Option UInt64) (visits : Nat → Visit)
    (write : List LlmEvent → Option (List Reply)) (events : List IngestEvent)
    (authenticatedKeyId : Option String) (tier : String) :
    Option (List (Except ServerError IngestResponse)) :=
  match checkDbSize settings dbSize with
  | .error e => some (events.map fun _ => .error (.storageFull e.display))
  | .ok () => do
    let g ← events.zipIdx.foldlM (Gathered.visit visits authenticatedKeyId tier)
      ⟨[], [], [], List.replicate events.length none⟩
    -- the timeout replaces the whole vector, by the number of indices and not of events
    let writeResults := (write g.llmEvents).getD
      (g.okIndices.map fun _ => .error (.internal (timeoutText settings)))
    let results ← writeResults.zipIdx.foldlM (g.answer settings) g.results
    return results.map fun r => r.getD (.error (.internal "unreachable"))

/-! ## The handler -/

inductive BatchItemResult where
  | ok (response : IngestResponse)
  | err (error : String)

structure BatchResponse where
  results : List BatchItemResult
  accepted : Nat
  rejected : Nat

/-- One turn of the loop over the results. -/
def BatchResponse.add (b : BatchResponse) : Except ServerError IngestResponse → BatchResponse
  | .ok response =>
    { results := b.results ++ [.ok response], accepted := b.accepted + 1, rejected := b.rejected }
  | .error e =>
    { results := b.results ++ [.err e.display], accepted := b.accepted, rejected := b.rejected + 1 }

def batchResponse (results : List (Except ServerError IngestResponse)) : BatchResponse :=
  results.foldl BatchResponse.add ⟨[], 0, 0⟩

/-- `Pipeline::ingest_fire_and_forget`; `send` is `write_fire_and_forget`. -/
def ingestFireAndForget (settings : Settings) (visit : Visit)
    (send : LlmEvent → Except StoreError Unit) (event : IngestEvent)
    (authenticatedKeyId : Option String) (tier : String) : Fallible ServerError IngestResponse := do
  let made ← prepare settings visit event authenticatedKeyId tier
  match send made.1 with
  | .ok () => return respond settings made.1.id made
  | .error e => throw (.store e)

/-- `ingest_batch`, with its headers read: the status and the body. -/
def ingestBatch (settings : Settings) (dbSize : Option UInt64) (visits : Nat → Visit)
    (write : List LlmEvent → Option (List Reply)) (send : Nat → LlmEvent → Except StoreError Unit)
    (durable : Bool) (events : List IngestEvent) (keyId : Option String) (tier : String) :
    Fallible ServerError (Nat × BatchResponse) :=
  if Service.MAX_BATCH_SIZE < events.length then
    throw (.validation ("batch size " ++ toString events.length ++ " exceeds maximum "
      ++ toString Service.MAX_BATCH_SIZE))
  else do
    let results ← Fallible.ofPartial <|
      if durable then ingestBatchDurable settings dbSize visits write events keyId tier
      else events.zipIdx.mapM fun (event, i) =>
        (ingestFireAndForget settings (visits i) (send i) event keyId tier).run
    let response := batchResponse results
    return (if response.rejected = 0 then 201 else 207, response)

/-! ## The loops -/

section Loops

variable {settings : Settings} {visits : Nat → Visit} {authenticatedKeyId : Option String}
  {tier : String}

theorem okValues_eq_llmEvents (made : List (Except ServerError Made)) :
    (okValues made).map Prod.fst = llmEvents made := by
  induction made with
  | nil => rfl
  | cons outcome made ih =>
    cases outcome with
    | error e => exact ih
    | ok m => exact congrArg (m.1 :: ·) ih

/-- What the first loop leaves, from what `process_event` made of the payloads so far and the number
of payloads to come. -/
def gathered (settings : Settings) (made : List (Except ServerError Made)) (rest : Nat) : Gathered where
  llmEvents := llmEvents made
  responses := (okValues made).map Prod.snd
  okIndices := okPositions 0 made
  results := fill .error (fun m => answerTo settings m.2) made ([] : List Reply)
    ++ List.replicate rest none

/-- A turn of the first loop goes from the one to the next. -/
theorem visit_gathered (made : List (Except ServerError Made)) (rest : Nat) (event : IngestEvent) :
    (gathered settings made (rest + 1)).visit visits authenticatedKeyId tier (event, made.length)
      = (processEvent (visits made.length).env (visits made.length).catalog event
          authenticatedKeyId tier).run.map fun outcome => gathered settings (made ++ [outcome]) rest := by
  rw [Gathered.visit]
  match (processEvent (visits made.length).env (visits made.length).catalog event
    authenticatedKeyId tier).run with
  | none => rfl
  | some (.ok m) =>
    simp [gathered, ← okValues_eq_llmEvents, okValues_append, okPositions_append, fill_append_nil, fill,
      okPositions, List.replicate_succ]
  | some (.error e) =>
    simp [gathered, ← okValues_eq_llmEvents, okValues_append, okPositions_append, fill_append_nil, fill,
      okPositions, List.replicate_succ, writeAt]

theorem length_processAll {events : List IngestEvent} {made : List (Except ServerError Made)}
    (h : processAll visits events authenticatedKeyId tier = some made) :
    made.length = events.length := by
  have hsteps := mapM_eq_some_iff.mp h
  rw [← hsteps.length_eq, List.length_zipIdx]

theorem processAll_concat (events : List IngestEvent) (event : IngestEvent) :
    processAll visits (events ++ [event]) authenticatedKeyId tier
      = (processAll visits events authenticatedKeyId tier).bind fun made =>
          (processEvent (visits events.length).env (visits events.length).catalog event
            authenticatedKeyId tier).run.map fun outcome => made ++ [outcome] := by
  simp only [processAll, List.zipIdx_append, List.zipIdx_singleton, Nat.zero_add, mapM_concat]

/-- The first loop, from any number of payloads to come after these. -/
theorem gather_eq (settings : Settings) (visits : Nat → Visit) (authenticatedKeyId : Option String)
    (tier : String) (events : List IngestEvent) (rest : Nat) :
    events.zipIdx.foldlM (Gathered.visit visits authenticatedKeyId tier)
        ⟨[], [], [], List.replicate (events.length + rest) none⟩
      = (processAll visits events authenticatedKeyId tier).map (gathered settings · rest) := by
  -- from the right: the last payload is visited with all the others already in the vectors
  induction events using List.reverseRecOn generalizing rest with
  | nil => simp [processAll, gathered, fill, okValues, okPositions, llmEvents]
  | append_singleton events event ih =>
    have hlength : (events ++ [event]).length + rest = events.length + (rest + 1) := by
      rw [List.length_append, List.length_singleton]
      omega
    rw [hlength, List.zipIdx_append, List.foldlM_append, ih (rest + 1), processAll_concat]
    cases hmade : processAll visits events authenticatedKeyId tier with
    | none => rfl
    | some made =>
      simp only [Option.map_some, Option.bind_eq_bind, Option.bind_some, List.zipIdx_singleton,
        Nat.zero_add, List.foldlM_cons, List.foldlM_nil, ← length_processAll hmade, visit_gathered,
        Option.map_map, Option.pure_def, Option.bind_fun_some, Function.comp_def]

/-- A turn of the second loop puts the next reply where its event came from. -/
theorem answer_gathered (made : List (Except ServerError Made)) (replies : List Reply) (reply : Reply) :
    (gathered settings made 0).answer settings
        (fill .error (fun m => answerTo settings m.2) made replies) (reply, replies.length)
      = if replies.length < (okValues made).length then
          some (fill .error (fun m => answerTo settings m.2) made (replies ++ [reply]))
        else none := by
  simp only [Gathered.answer, gathered, List.getElem?_map]
  split
  · -- the next index and the next response are those of the next event without an answer
    rename_i hlt
    obtain ⟨i, m, hi, hm, hwrite⟩ := writeAt_fill made replies reply hlt 0
    rw [hi, hm, Nat.zero_add]
    exact hwrite
  · rename_i hle
    rw [List.getElem?_eq_none (by rw [length_okPositions]; exact Nat.le_of_not_lt hle)]
    rfl

/-- The second loop: no answer is out of range while there are no more of them than events. -/
theorem scatter_eq (made : List (Except ServerError Made)) (replies : List Reply) :
    replies.zipIdx.foldlM ((gathered settings made 0).answer settings) (gathered settings made 0).results
      = if replies.length ≤ (okValues made).length then
          some (fill .error (fun m => answerTo settings m.2) made replies)
        else none := by
  induction replies using List.reverseRecOn with
  | nil => simp [gathered]
  | append_singleton replies reply ih =>
    rw [List.zipIdx_append, List.foldlM_append, ih, List.length_append, List.length_singleton]
    simp only [List.zipIdx_singleton, Nat.zero_add, List.foldlM_cons, List.foldlM_nil, bind_pure]
    split
    · exact answer_gathered made replies reply
    · rw [if_neg (by omega)]
      rfl

/-- The vectors come to what `assemble` says. -/
theorem assemble_eq_fill (made : List (Except ServerError Made)) (replies : List Reply) :
    assemble settings made replies
      = (fill .error (fun m => answerTo settings m.2) made replies).map fun r =>
          r.getD (.error (.internal "unreachable")) := by
  induction made, replies using assemble.induct with
  | case1 => rfl
  | case2 e made replies ih => exact congrArg (.error e :: ·) ih
  | case3 m made ih => exact congrArg (.error (.internal "unreachable") :: ·) ih
  | case4 m made id replies ih => exact congrArg (.ok (respond settings id m) :: ·) ih
  | case5 m made e replies ih => exact congrArg (.error (.store e) :: ·) ih

theorem length_llmEvents (made : List (Except ServerError Made)) :
    (llmEvents made).length = (okValues made).length := by
  rw [← okValues_eq_llmEvents, List.length_map]

/-- What waiting for the writer comes to, when it may run out of time. -/
def writeResults (settings : Settings) (made : List (Except ServerError Made))
    (answer : Option (List Reply)) : List Reply :=
  answer.getD ((llmEvents made).map fun _ => .error (.internal (timeoutText settings)))

/-- The function without its vectors. It aborts on a payload that does, or on more results than
events. -/
theorem ingestBatchDurable_eq (settings : Settings) (dbSize : Option UInt64) (visits : Nat → Visit)
    (write : List LlmEvent → Option (List Reply)) (events : List IngestEvent)
    (authenticatedKeyId : Option String) (tier : String) :
    ingestBatchDurable settings dbSize visits write events authenticatedKeyId tier
      = match checkDbSize settings dbSize with
        | .error e => some (events.map fun _ => .error (.storageFull e.display))
        | .ok () => (processAll visits events authenticatedKeyId tier).bind fun made =>
            if (writeResults settings made (write (llmEvents made))).length ≤ (llmEvents made).length then
              some (assemble settings made (writeResults settings made (write (llmEvents made))))
            else none := by
  rw [ingestBatchDurable]
  cases checkDbSize settings dbSize with
  | error e => rfl
  | ok u =>
    have hgather := gather_eq settings visits authenticatedKeyId tier events 0
    dsimp only
    rw [Nat.add_zero] at hgather
    rw [hgather]
    cases processAll visits events authenticatedKeyId tier with
    | none => rfl
    | some made =>
      have hresults : (write (gathered settings made 0).llmEvents).getD
          ((gathered settings made 0).okIndices.map fun _ => .error (.internal (timeoutText settings)))
          = writeResults settings made (write (llmEvents made)) := by
        simp only [writeResults, gathered, List.map_const', length_okPositions, length_llmEvents]
      simp only [Option.map_some, Option.bind_eq_bind, Option.bind_some, hresults, scatter_eq,
        length_llmEvents, assemble_eq_fill]
      split
      · rfl
      · rfl

/-- What the service says a batch gets out of its call is what the function returns. -/
theorem ingestBatchDurable_of_outcomeOf {dbSize : Option UInt64} {events : List IngestEvent}
    {made : List (Except ServerError Made)} {c : Call}
    {results : List (Except ServerError IngestResponse)} (hsize : checkDbSize settings dbSize = .ok ())
    (hmade : processAll visits events authenticatedKeyId tier = some made)
    (h : outcomeOf settings .durableBatch made c = some results) :
    ingestBatchDurable settings dbSize visits (fun _ => if c.cancelled then none else some c.results)
      events authenticatedKeyId tier = some results := by
  rw [ingestBatchDurable_eq, hsize, hmade]
  dsimp only [Option.bind_some]
  rw [outcomeOf.eq_def] at h
  dsimp only at h
  cases hcancelled : c.cancelled with
  | true =>
    rw [hcancelled, if_pos rfl] at h
    rw [if_pos rfl, writeResults, Option.getD_none, List.length_map, if_pos (Nat.le_refl _)]
    exact h
  | false =>
    rw [hcancelled, if_neg Bool.false_ne_true] at h
    rw [if_neg Bool.false_ne_true, writeResults, Option.getD_some]
    split at h
    · rename_i hlength
      rw [if_pos (Nat.le_of_eq hlength)]
      exact h
    · cases h

end Loops

/-! ## Which result is whose -/

section Aligned

variable {settings : Settings} {visits : Nat → Visit} {authenticatedKeyId : Option String}
  {tier : String} {events : List IngestEvent} {made : List (Except ServerError Made)}

/-- The events of a batch that go to the writer. -/
def handed (visits : Nat → Visit) (events : List IngestEvent) (authenticatedKeyId : Option String)
    (tier : String) : List LlmEvent :=
  events.zipIdx.filterMap fun (event, i) =>
    (processEvent (visits i).env (visits i).catalog event authenticatedKeyId tier).value?.map Prod.fst

theorem getElem?_processAll (h : processAll visits events authenticatedKeyId tier = some made) {i : Nat}
    {event : IngestEvent} (hi : events[i]? = some event) :
    ∃ outcome, made[i]? = some outcome ∧
      (processEvent (visits i).env (visits i).catalog event authenticatedKeyId tier).run
        = some outcome := by
  have hsteps := mapM_eq_some_iff.mp h
  have hlt : i < events.length := (List.getElem?_eq_some_iff.mp hi).1
  have hmade : i < made.length := by
    rw [length_processAll h]
    exact hlt
  refine ⟨made[i], List.getElem?_eq_getElem hmade, ?_⟩
  have hstep := (List.forall₂_iff_get.mp hsteps).2 i (by rwa [List.length_zipIdx]) hmade
  have hget : events[i] = event := (List.getElem?_eq_some_iff.mp hi).2
  simpa [hget] using hstep

theorem take_processAll (h : processAll visits events authenticatedKeyId tier = some made) (i : Nat) :
    processAll visits (events.take i) authenticatedKeyId tier = some (made.take i) := by
  have htake : (events.take i).zipIdx = events.zipIdx.take i := by
    apply List.ext_getElem?
    intro j
    simp [List.getElem?_take, List.getElem?_zipIdx]
    split <;> rfl
  rw [processAll, htake]
  exact mapM_eq_some_iff.mpr (List.forall₂_take i (mapM_eq_some_iff.mp h))

theorem handed_eq (h : processAll visits events authenticatedKeyId tier = some made) :
    handed visits events authenticatedKeyId tier = llmEvents made := by
  have hsteps := mapM_eq_some_iff.mp h
  rw [handed]
  generalize events.zipIdx = ps at hsteps
  clear h
  induction hsteps with
  | nil => rfl
  | @cons p outcome ps outcomes hstep _ ih =>
    obtain ⟨event, i⟩ := p
    cases outcome with
    | error e =>
      have herror : processEvent (visits i).env (visits i).catalog event authenticatedKeyId tier
          = throw e := hstep
      simp only [List.filterMap_cons, herror, Fallible.value?_throw, Option.map_none]
      exact ih
    | ok m =>
      have hok : processEvent (visits i).env (visits i).catalog event authenticatedKeyId tier
          = pure m := hstep
      simp only [List.filterMap_cons, hok, Fallible.value?_pure, Option.map_some]
      exact congrArg (m.1 :: ·) ih

/-- What waiting for a call of `write_many` has come to: the time was over, whatever the state of the
call, or there is a result for each of its events. -/
inductive Awaited (c : Call) : Option (List Reply) → Prop where
  | timedOut : Awaited c none
  | returned (hall : c.results.length = c.events.length) : Awaited c (some c.results)

/-- What the result for a payload may be, given what `process_event` made of the payload. `k` is the
number of payloads before it that went to the writer, in call `n`. -/
inductive Concerns (settings : Settings) (dbSize : Option UInt64) (s : BatchWriter) (n k : Nat)
    (answer : Option (List Reply)) :
    Fallible ServerError Made → Except ServerError IngestResponse → Prop where
  /-- nothing is stored while the store is full -/
  | refused (outcome : Fallible ServerError Made) (e : ServerError)
      (hfull : checkDbSize settings dbSize = .error e) :
      Concerns settings dbSize s n k answer outcome (.error (.storageFull e.display))
  /-- its own error -/
  | invalid (e : ServerError) : Concerns settings dbSize s n k answer (throw e) (.error e)
  /-- its own id, cost, model and provider -/
  | stored (made : Made) (replies : List Reply) (hanswer : answer = some replies)
      (hreply : replies[k]? = some (.ok made.1.id)) (hown : s.RepliedTo n k made.1 (.ok made.1.id)) :
      Concerns settings dbSize s n k answer (pure made) (.ok (respond settings made.1.id made))
  /-- its own write error -/
  | failed (made : Made) (replies : List Reply) (e : StoreError) (hanswer : answer = some replies)
      (hreply : replies[k]? = some (.error e)) (hown : s.RepliedTo n k made.1 (.error e)) :
      Concerns settings dbSize s n k answer (pure made) (.error (.store e))
  | timedOut (made : Made) (hanswer : answer = none) :
      Concerns settings dbSize s n k answer (pure made)
        (.error (.store (.internal (timeoutText settings))))

/-- There is a result for each event, and none is left over. -/
theorem length_writeResults {c : Call} {answer : Option (List Reply)} (h : Awaited c answer)
    (hevents : c.events = llmEvents made) :
    (writeResults settings made answer).length = (llmEvents made).length := by
  cases h with
  | timedOut => simp [writeResults]
  | returned hall => rw [writeResults, Option.getD_some, hall, hevents]

theorem length_assemble (replies : List Reply) :
    (assemble settings made replies).length = made.length := by
  rw [assemble_eq_fill, List.length_map, length_fill]

/-- The event of a payload stands among the events at the number of those before it. -/
theorem getElem?_llmEvents {i : Nat} {m : Made} (h : made[i]? = some (.ok m)) :
    (llmEvents made)[(llmEvents (made.take i)).length]? = some m.1 := by
  obtain ⟨hlt, hget⟩ := List.getElem?_eq_some_iff.mp h
  have hsplit : made = made.take i ++ .ok m :: made.drop (i + 1) := by
    rw [← hget, List.getElem_cons_drop, List.take_append_drop]
  have hevents : llmEvents made = llmEvents (made.take i) ++ m.1 :: llmEvents (made.drop (i + 1)) := by
    conv_lhs => rw [hsplit]
    exact List.filterMap_append
  rw [hevents, List.getElem?_append_right (Nat.le_refl _), Nat.sub_self, List.getElem?_cons_zero]

/-- What is said about an event from the result at its slot concerns its payload. -/
theorem concerns_answerTo {s : BatchWriter} (hinv : s.Inv) {n k : Nat} {c : Call}
    (hn : s.calls[n]? = some c) {dbSize : Option UInt64} {m : Made} (hevent : c.events[k]? = some m.1)
    {reply : Reply} (hreply : c.results[k]? = some reply) :
    Concerns settings dbSize s n k (some c.results) (pure m) (answerTo settings m.2 reply) := by
  obtain ⟨e, he, hreplied⟩ := hinv.repliedTo hn hreply
  rw [hevent] at he
  cases he
  cases reply with
  | error err => exact .failed m c.results err rfl hreply hreplied
  | ok id =>
    obtain ⟨e, he, hid⟩ := hinv.id_of_result hn hreply
    rw [hevent] at he
    cases he
    subst hid
    exact .stored m c.results rfl hreply hreplied

/-- The results of a batch that was processed to its end concern their payloads. -/
theorem concerns_assemble {s : BatchWriter} (hinv : s.Inv) {n : Nat} {c : Call}
    (hn : s.calls[n]? = some c) {dbSize : Option UInt64} {answer : Option (List Reply)}
    (hanswer : Awaited c answer) (hmade : processAll visits events authenticatedKeyId tier = some made)
    (hevents : c.events = llmEvents made) {i : Nat} {event : IngestEvent}
    {result : Except ServerError IngestResponse} (hi : events[i]? = some event)
    (hresult : (assemble settings made (writeResults settings made answer))[i]? = some result) :
    Concerns settings dbSize s n (handed visits (events.take i) authenticatedKeyId tier).length answer
      (processEvent (visits i).env (visits i).catalog event authenticatedKeyId tier) result := by
  obtain ⟨outcome, hget, hrun⟩ := getElem?_processAll hmade hi
  rw [handed_eq (take_processAll hmade i)]
  rw [assemble_eq_fill, List.getElem?_map] at hresult
  cases outcome with
  | error e =>
    have hthrow : processEvent (visits i).env (visits i).catalog event authenticatedKeyId tier
        = throw e := hrun
    rw [getElem?_fill_error hget] at hresult
    cases hresult
    rw [hthrow]
    exact .invalid e
  | ok m =>
    have hpure : processEvent (visits i).env (visits i).catalog event authenticatedKeyId tier
        = pure m := hrun
    rw [hpure]
    have hown := getElem?_llmEvents hget
    have hslot : (okValues (made.take i)).length = (llmEvents (made.take i)).length :=
      (length_llmEvents _).symm
    cases hanswer with
    | timedOut =>
      have hreply : (writeResults settings made none)[(llmEvents (made.take i)).length]?
          = some (.error (.internal (timeoutText settings))) := by
        rw [writeResults, Option.getD_none, List.getElem?_map, hown]
        rfl
      rw [getElem?_fill_ok hget (by rw [hslot]; exact hreply)] at hresult
      cases hresult
      exact .timedOut m rfl
    | returned hall =>
      -- there is a result for every event, so there is one for this event
      have hlt : (llmEvents (made.take i)).length < c.results.length := by
        rw [hall, hevents]
        exact (List.getElem?_eq_some_iff.mp hown).1
      have hreply := List.getElem?_eq_getElem hlt
      rw [getElem?_fill_ok hget (by rw [hslot]; exact hreply)] at hresult
      cases hresult
      exact concerns_answerTo hinv hn (by rw [hevents]; exact hown) hreply

/-- Each kind of result is something else than the filler. -/
theorem Concerns.ne_unreachable {dbSize : Option UInt64} {s : BatchWriter} {n k : Nat}
    {answer : Option (List Reply)} {visit : Visit} {event : IngestEvent}
    {result : Except ServerError IngestResponse}
    (h : Concerns settings dbSize s n k answer
      (processEvent visit.env visit.catalog event authenticatedKeyId tier) result) :
    result ≠ .error (.internal "unreachable") := by
  generalize houtcome : processEvent visit.env visit.catalog event authenticatedKeyId tier = outcome at h
  cases h with
  | invalid e =>
    -- the only results that carry an error of elsewhere; `process_event` has two kinds, this is neither
    intro heq
    cases heq
    rcases error_of_processEvent houtcome with ⟨message, hm⟩ | ⟨message, hm⟩
    · cases hm
    · cases hm
  | refused | stored | failed | timedOut =>
    intro heq
    cases heq

/-- The loop over the payloads ends exactly when `process_event` returns on each of them. -/
theorem processAll_isSome (tier : String) :
    (processAll visits events authenticatedKeyId tier).isSome ↔
      ∀ (i : Nat) (event : IngestEvent), events[i]? = some event →
        event.costNanodollars.isSome ∨
        (∃ e, validate (visits i).env.tf (visits i).env.validatedAt
          (withAuthenticatedKey event authenticatedKeyId) = .error e) ∨
        ((visits i).catalog.entries (normalizeModel event.model)).isSome ∨
        CutsOnBoundaries (normalizeModel event.model).toList := by
  rw [processAll, mapM_isSome]
  constructor
  · intro h i event hi
    exact returns_processEvent.mp (h (event, i) (List.mem_zipIdx_iff_getElem?.mpr hi))
  · rintro h ⟨event, i⟩ hmem
    exact returns_processEvent.mpr (h i event (List.mem_zipIdx_iff_getElem?.mp hmem))

end Aligned

/-! ## The counters -/

def BatchItemResult.of : Except ServerError IngestResponse → BatchItemResult
  | .ok response => .ok response
  | .error e => .err e.display

theorem foldl_add (results : List (Except ServerError IngestResponse)) (b : BatchResponse) :
    results.foldl BatchResponse.add b =
      { results := b.results ++ results.map .of
        accepted := b.accepted + results.countP fun r => r.isOk
        rejected := b.rejected + results.countP fun r => !r.isOk } := by
  induction results generalizing b with
  | nil => simp
  | cons result results ih =>
    rw [List.foldl_cons, ih]
    cases result with
    | ok response =>
      simp only [BatchResponse.add, BatchItemResult.of, List.map_cons, List.append_assoc,
        List.cons_append, List.nil_append, Except.isOk, Except.toBool, List.countP_cons_of_pos,
        List.countP_cons_of_neg, Bool.not_true, Bool.false_eq_true, not_false_eq_true,
        BatchResponse.mk.injEq, and_true, true_and]
      omega
    | error e =>
      simp only [BatchResponse.add, BatchItemResult.of, List.map_cons, List.append_assoc,
        List.cons_append, List.nil_append, Except.isOk, Except.toBool, List.countP_cons_of_pos,
        List.countP_cons_of_neg, Bool.not_false, Bool.false_eq_true, not_false_eq_true,
        BatchResponse.mk.injEq, true_and]
      omega

/-- The handler's counters: how many results are `Ok` and how many are not. -/
theorem batchResponse_eq (results : List (Except ServerError IngestResponse)) :
    batchResponse results =
      { results := results.map .of
        accepted := results.countP fun r => r.isOk
        rejected := results.countP fun r => !r.isOk } := by
  rw [batchResponse, foldl_add]
  simp

theorem accepted_add_rejected (results : List (Except ServerError IngestResponse)) :
    (results.countP fun r => r.isOk) + (results.countP fun r => !r.isOk) = results.length := by
  simpa using (List.length_eq_countP_add_countP fun r : Except ServerError IngestResponse => r.isOk).symm

/-- Without the durable header, too, every payload is counted. -/
theorem accepted_add_rejected_of_fireAndForget {settings : Settings} {dbSize : Option UInt64}
    {visits : Nat → Visit} {write : List LlmEvent → Option (List Reply)}
    {send : Nat → LlmEvent → Except StoreError Unit} {events : List IngestEvent}
    {keyId : Option String} {tier : String} {status : Nat} {response : BatchResponse}
    (h : ingestBatch settings dbSize visits write send false events keyId tier
      = pure (status, response)) :
    response.accepted + response.rejected = events.length := by
  rw [ingestBatch] at h
  split at h
  · cases h
  · obtain ⟨results, hresults, h⟩ := Fallible.bind_eq_pure h
    cases Fallible.pure_inj h
    have hsteps := mapM_eq_some_iff.mp (Fallible.ofPartial_eq_pure hresults)
    rw [batchResponse_eq, ← List.length_zipIdx, hsteps.length_eq]
    exact accepted_add_rejected results

/-- The batch comes to an end unless a payload aborts. -/
theorem ingestBatchDurable_isSome {settings : Settings} {dbSize : Option UInt64} {visits : Nat → Visit}
    {write : List LlmEvent → Option (List Reply)} {events : List IngestEvent}
    {authenticatedKeyId : Option String} {tier : String} {c : Call}
    (hevents : c.events = handed visits events authenticatedKeyId tier)
    (hwrite : Awaited c (write c.events)) :
    (ingestBatchDurable settings dbSize visits write events authenticatedKeyId tier).isSome ↔
      (∃ e, checkDbSize settings dbSize = .error e) ∨
      ∀ (i : Nat) (event : IngestEvent), events[i]? = some event →
        event.costNanodollars.isSome ∨
        (∃ e, validate (visits i).env.tf (visits i).env.validatedAt
          (withAuthenticatedKey event authenticatedKeyId) = .error e) ∨
        ((visits i).catalog.entries (normalizeModel event.model)).isSome ∨
        CutsOnBoundaries (normalizeModel event.model).toList := by
  rw [ingestBatchDurable_eq, ← processAll_isSome tier]
  cases checkDbSize settings dbSize with
  | error e => simp
  | ok u =>
    cases hmade : processAll visits events authenticatedKeyId tier with
    | none => simp
    | some made =>
      rw [handed_eq hmade] at hevents
      rw [hevents] at hwrite
      simp [length_writeResults hwrite hevents]

/-- The result of a batch that comes to an end. -/
theorem aligned_of_ingestBatchDurable {settings : Settings} {dbSize : Option UInt64}
    {visits : Nat → Visit} {write : List LlmEvent → Option (List Reply)} {events : List IngestEvent}
    {authenticatedKeyId : Option String} {tier : String} {s : BatchWriter} (hinv : s.Inv) {n : Nat}
    {c : Call} (hn : s.calls[n]? = some c)
    (hevents : c.events = handed visits events authenticatedKeyId tier)
    (hwrite : Awaited c (write c.events)) {results : List (Except ServerError IngestResponse)}
    (h : ingestBatchDurable settings dbSize visits write events authenticatedKeyId tier = some results) :
    results.length = events.length ∧
    ∀ (i : Nat) (event : IngestEvent) (result : Except ServerError IngestResponse),
      events[i]? = some event → results[i]? = some result →
      Concerns settings dbSize s n (handed visits (events.take i) authenticatedKeyId tier).length
        (write c.events)
        (processEvent (visits i).env (visits i).catalog event authenticatedKeyId tier) result := by
  rw [ingestBatchDurable_eq] at h
  cases hfull : checkDbSize settings dbSize with
  | error e =>
    rw [hfull] at h
    cases h
    refine ⟨List.length_map _, fun i event result hi hresult => ?_⟩
    rw [List.getElem?_map, hi] at hresult
    cases hresult
    exact .refused _ e hfull
  | ok u =>
    rw [hfull] at h
    obtain ⟨made, hmade, h⟩ := Option.bind_eq_some_iff.mp h
    rw [handed_eq hmade] at hevents
    rw [hevents] at hwrite ⊢
    split at h
    · cases h
      refine ⟨?_, fun i event result hi hresult => ?_⟩
      · rw [length_assemble, length_processAll hmade]
      · exact concerns_assemble hinv hn hwrite hmade hevents hi hresult
    · cases h

/-- In every state of every run of the writer, for every batch whose events are those of some call of
`write_many`, awaited to the end of the call or to a timeout at any point of it:
the batch has one result for each payload, in order, and each is about its own payload; the filler is
not among them; and the handler counts the `Ok`s and the errors, which together are the payloads.
This is so exactly when the store is full, or every payload has a cost of its own, is invalid, names
a model of the catalog or has a name that no slice cuts through. -/
theorem durable_batch_is_aligned_iff (settings : Settings) (dbSize : Option UInt64)
    (visits : Nat → Visit) (events : List IngestEvent) (authenticatedKeyId : Option String)
    (tier : String) (config : BatchConfig) (xs : List BatchWriter.Input) (n : Nat) (c : Call)
    (hn : (run BatchWriter.step (.new config) xs).calls[n]? = some c)
    (hevents : c.events = handed visits events authenticatedKeyId tier)
    (write : List LlmEvent → Option (List Reply)) (hwrite : Awaited c (write c.events))
    (send : Nat → LlmEvent → Except StoreError Unit) :
    (∃ results,
      ingestBatchDurable settings dbSize visits write events authenticatedKeyId tier = some results ∧
      results.length = events.length ∧
      (∀ (i : Nat) (event : IngestEvent) (result : Except ServerError IngestResponse),
        events[i]? = some event → results[i]? = some result →
        Concerns settings dbSize (run BatchWriter.step (.new config) xs) n
          (handed visits (events.take i) authenticatedKeyId tier).length (write c.events)
          (processEvent (visits i).env (visits i).catalog event authenticatedKeyId tier) result) ∧
      .error (.internal "unreachable") ∉ results ∧
      (events.length ≤ Service.MAX_BATCH_SIZE → ∃ status response,
        ingestBatch settings dbSize visits write send true events authenticatedKeyId tier
          = pure (status, response) ∧
        response.accepted = (results.countP fun r => r.isOk) ∧
        response.rejected = (results.countP fun r => !r.isOk) ∧
        response.accepted + response.rejected = events.length)) ↔
    (∃ e, checkDbSize settings dbSize = .error e) ∨
    ∀ (i : Nat) (event : IngestEvent), events[i]? = some event →
      event.costNanodollars.isSome ∨
      (∃ e, validate (visits i).env.tf (visits i).env.validatedAt
        (withAuthenticatedKey event authenticatedKeyId) = .error e) ∨
      ((visits i).catalog.entries (normalizeModel event.model)).isSome ∨
      CutsOnBoundaries (normalizeModel event.model).toList := by
  -- what the list says of itself holds of every list returned; the condition is that there is one
  rw [← ingestBatchDurable_isSome hevents hwrite, Option.isSome_iff_exists]
  constructor
  · rintro ⟨results, hresults, -⟩
    exact ⟨results, hresults⟩
  · rintro ⟨results, hresults⟩
    have hinv := (BatchWriter.inv_run config xs).1
    obtain ⟨hlength, hconcerns⟩ := aligned_of_ingestBatchDurable hinv hn hevents hwrite hresults
    refine ⟨results, hresults, hlength, hconcerns, ?_, ?_⟩
    · intro hmem
      obtain ⟨i, hlt, hget⟩ := List.getElem_of_mem hmem
      have hevent : i < events.length := hlength ▸ hlt
      exact (hconcerns i _ _ (List.getElem?_eq_getElem hevent)
        (List.getElem?_eq_some_iff.mpr ⟨hlt, hget⟩)).ne_unreachable rfl
    · intro hsize
      refine ⟨if (batchResponse results).rejected = 0 then 201 else 207, batchResponse results,
        ?_, ?_, ?_, ?_⟩
      · rw [ingestBatch, if_neg (Nat.not_lt.mpr hsize), if_pos rfl, hresults]
        rfl
      · rw [batchResponse_eq]
      · rw [batchResponse_eq]
      · rw [batchResponse_eq, ← hlength]
        exact accepted_add_rejected results

/-- Payloads find the same server, and each draws its own number for an id. -/
def numberedVisits (i : Nat) : Visit where
  env := { sampleSurroundings with freshId := ⟨BitVec.ofNat 128 i⟩ }
  catalog := ⟨fun _ => none⟩
  dbSize := none

/-- A payload with a cost, one that names no model, and one to be priced. -/
def mixedBatch : List IngestEvent :=
  [{ model := "gpt-4o", provider := "openai", costNanodollars := some 7 },
    { model := "", provider := "openai" }, { model := "claude-sonnet-4-5", provider := "anthropic" }]

/-- The two events of that batch go to two shards, and one of the appends fails. -/
def mixedRun : List BatchWriter.Input :=
  [.writeMany (handed numberedVisits mixedBatch none "free"), .pick 0, .send 0, .pick 0, .send 0,
    .loop 0 .recv, .loop 0 .drain, .loop 0 .tick, .loop 1 .recv, .loop 1 .drain, .loop 1 .tick,
    .loop 1 (.appended (.error .channelFull)), .loop 1 .reply, .loop 0 (.appended (.ok ())),
    .loop 0 .reply, .await 0, .await 0]

theorem mixed_batch_is_aligned :
    ∃ c results, (run BatchWriter.step (.new .default) mixedRun).calls[0]? = some c ∧
      c.results = [.ok ⟨0⟩, .error (.internal "batch writer channel full")] ∧
      ingestBatchDurable sampleSettings none numberedVisits (fun _ => some c.results) mixedBatch none
        "free" = some results ∧
      results.length = 3 ∧ .error (.internal "unreachable") ∉ results := by
  have hcalls : (run BatchWriter.step (.new .default) mixedRun).calls.map
      (fun c => (c.events, c.results)) = [(handed numberedVisits mixedBatch none "free",
        [.ok ⟨0⟩, .error (.internal "batch writer channel full")])] := by
    decide +kernel
  obtain ⟨c, hc⟩ := List.length_eq_one_iff.mp (by simpa using congrArg List.length hcalls)
  rw [hc, List.map_singleton, List.singleton_inj, Prod.mk.injEq] at hcalls
  obtain ⟨hevents, hresults⟩ := hcalls
  have hlength : (handed numberedVisits mixedBatch none "free").length = 2 := by decide +kernel
  have hn : (run BatchWriter.step (.new .default) mixedRun).calls[0]? = some c := by
    rw [hc]
    rfl
  have hwrite : Awaited c (some c.results) := .returned (by rw [hresults, hevents, hlength]; rfl)
  obtain ⟨results, hsome, hlen, -, hfiller, -⟩ := (durable_batch_is_aligned_iff sampleSettings none
    numberedVisits mixedBatch none "free" .default mixedRun 0 c hn hevents (fun _ => some c.results)
    hwrite (fun _ _ => .ok ())).mpr <| .inr fun i event hi => by
      match i, hi with
      | 0, hi =>
        cases hi
        exact .inl rfl
      | 1, hi =>
        cases hi
        exact .inr (.inl ⟨.validation "model is required", by decide +kernel⟩)
      | 2, hi =>
        cases hi
        exact .inr (.inr (.inr (stripDateSuffix_isSome.mp (by decide +kernel))))
      | i + 3, hi => cases hi
  exact ⟨c, results, hn, hresults, hsome, hlen, hfiller⟩

/-- One valid payload whose name is cut inside a character takes the whole batch with it. -/
theorem accented_name_loses_the_batch :
    validate sampleSurroundings.tf sampleSurroundings.validatedAt
      { model := "café-8-turbo", provider := "openai" } = .ok () ∧
    ingestBatchDurable sampleSettings none numberedVisits (fun events => some (events.map fun e => .ok e.id))
      [{ model := "gpt-4o", provider := "openai", costNanodollars := some 7 },
        { model := "café-8-turbo", provider := "openai" }] none "free" = none := by
  decide +kernel

end Keplor.Server
