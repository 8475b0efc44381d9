import Keplor.Server.Moves
import Keplor.Server.Node
import Keplor.Store.Conservation

/-!
# Where the rows of the store come from

Whatever the server does, from any content of its store: what a tier holds is what it held at the
start, and rows of payloads somebody posted with credentials the middleware let through, each no more
often than it was posted, and each in the tier of its own key. Nothing is made up, nothing is written
twice, and nothing gets into another tier; a flush that fails halfway, a task that dies while its
append goes on, and a writer that is shut down make no exception.

The two ledgers of the store are joined here by a third: what the writes were handed is what the
shards have handed out.
-/

set_option autoImplicit false

namespace Keplor.Server

open Keplor.Core Keplor.Lib Keplor.Pricing Keplor.Store
open Finset (range)

/-! ## 1. From the shards to the writes -/

namespace Node

variable {db : Keplordb} {ro : Rotation db} {tf : TextFormats} {start : KdbStore db} {s : Node db}
  {g : LlmEvent → Bool}

/-- The requests of the appends of a shard that are over. -/
def appendedAt (w : BatchWriter) (i : Nat) : List WriteRequest :=
  match w.shards[i]? with
  | none => []
  | some sh => (sh.appends.map Prod.fst).flatten

/-- The requests of a shard that a write was handed: also those of the append under way. -/
def handedAt (s : Node db) (i : Nat) : List WriteRequest :=
  appendedAt s.service.writer i ++
    if (s.appending i).isSome then (batchOf s.service.writer i).getD [] else []

/-- Of the events that are such, the writes were handed those the shards handed out. -/
def Tallied (g : LlmEvent → Bool) (s : Node db) : Prop :=
  (s.store.appends.map fun a => a.events.countP g).sum
    = ∑ i ∈ range s.service.writer.shards.length, (s.handedAt i).countP fun q => g q.event

/-- Only the end of its append adds to what a shard has appended. -/
theorem appendedAt_writer_step {w : BatchWriter} {y : BatchWriter.Input} {i : Nat}
    (hy : ∀ outcome, y ≠ .loop i (.appended outcome)) : appendedAt (w.step y) i = appendedAt w i := by
  have hset : ∀ {j : Nat} {sh sh' : Shard}, w.shards[j]? = some sh → (j = i → sh'.appends = sh.appends) →
      (match (w.shards.set j sh')[i]? with
        | none => []
        | some sh => (sh.appends.map Prod.fst).flatten) = appendedAt w i := by
    intro j sh sh' hj happends
    unfold appendedAt
    by_cases hji : j = i
    · subst hji
      rw [hj, getElem?_set_of hj, if_pos rfl]
      simp only [happends rfl]
    · rw [List.getElem?_set_ne hji]
  have heff := BatchWriter.effect w y
  generalize w.step y = w' at heff
  cases heff with
  | nothing | begin _ _ _ | turn _ _ _ | shutdown | drop _ => rfl
  | deliver hn hcancelled hevent hj => exact hset hj fun _ => rfl
  | @loop j z sh hx hj =>
    refine hset hj fun hji => ?_
    have heff := Shard.effect w.batchSize w.dropped z sh
    generalize sh.step w.batchSize w.dropped z = sh' at heff
    cases heff with
    | appended hp hz => exact absurd (hji ▸ hz ▸ hx) (hy _)
    | _ => rfl

theorem shards_writer_step (w : BatchWriter) (y : BatchWriter.Input) :
    (w.step y).shards.length = w.shards.length := by
  rcases BatchWriter.shards_step w y with h | ⟨n, i, c, event, sh, -, -, -, -, h⟩ | ⟨i, z, sh, -, -, h⟩
  · rw [h]
  · rw [h, List.length_set]
  · rw [h, List.length_set]

/-- A task of the pipeline hands nothing to the store. -/
theorem Tallied.serviceStep (h : s.Tallied g) (hinv : s.Inv tf ro start) {x : Service.Input}
    (hx : isFlush x = false) : Tallied g { s with service := s.service.step x } := by
  have hnot : ∀ i outcome kept, x ≠ .flush i outcome kept := by
    intro i outcome kept heq
    rw [heq] at hx
    cases hx
  have hlength : (s.service.step x).writer.shards.length = s.service.writer.shards.length := by
    rcases s.service.writer_step x with hw | ⟨y, hw⟩
    · rw [hw]
    · rw [hw, shards_writer_step]
  have happended : ∀ i, appendedAt (s.service.step x).writer i = appendedAt s.service.writer i := by
    intro i
    rcases s.service.writer_move x with hw | ⟨y, hw, hflush⟩
    · rw [hw]
    · rw [hw]
      refine appendedAt_writer_step fun outcome heq => ?_
      obtain ⟨kept, hkept⟩ := hflush i outcome heq
      exact hnot i outcome kept hkept
  have hhanded : ∀ i, handedAt { s with service := s.service.step x } i = s.handedAt i := by
    intro i
    unfold handedAt
    simp only [happended]
    cases hk : s.appending i with
    | none => rfl
    | some k =>
      obtain ⟨batch, -, hbatch, -⟩ := hinv.waiting i k hk
      have hstays := batchOf_service_step (hnot i) hbatch
      simp only [hbatch, hstays]
  unfold Tallied at h ⊢
  simp only [hlength, hhanded]
  exact h

/-- The writes that are there were handed what they were handed. -/
theorem events_store_step (ro : Rotation db) (b : BusyStore db) {y : BusyStore.Input tf}
    (hy : isAppend y = false) :
    (b.step tf ro y).appends.map AppendCall.events = b.appends.map AppendCall.events := by
  cases y with
  | append events visit hvisit => cases hy
  | appendTurn n =>
    rw [BusyStore.step]
    split
    · rfl
    · rename_i a hn
      rw [BusyStore.appendNext]
      repeat' split
      · rfl
      all_goals exact map_set_of_eq hn rfl
  | checkpointTurn n =>
    rw [BusyStore.step]
    split
    · rfl
    · rw [BusyStore.appends_checkpointNext]
  | checkpoint | delete _ _ | collect _ _ | openTier _ => rfl

theorem Tallied.storeStep (h : s.Tallied g) {y : BusyStore.Input tf} (hy : isAppend y = false) :
    Tallied g { s with store := s.store.step tf ro y } := by
  have hsame := congrArg (List.map (List.countP g)) (events_store_step ro s.store hy)
  rw [List.map_map, List.map_map] at hsame
  exact (congrArg List.sum hsame).trans h

/-- The batch a shard hands out is counted on both sides. -/
theorem Tallied.append (h : s.Tallied g) {i : Nat} {order : IterOrder (String × List LogEvent)} :
    (s.step ro tf (.append i order)).Tallied g := by
  rw [step]
  split
  · rename_i batch hnone hbatch
    obtain ⟨sh, last, hi, -⟩ := batchOf_eq_some.mp hbatch
    have hlt : i < s.service.writer.shards.length := (List.getElem?_eq_some_iff.mp hi).1
    let s' : Node db := { s with
      store := s.store.step tf ro (.append (batch.map WriteRequest.event)
        (order.arrange (byTier tf _)) (order.perm _))
      appending := Function.update s.appending i (some s.store.appends.length) }
    have hat : s'.handedAt i = s.handedAt i ++ batch := by
      simp [handedAt, s', hnone, hbatch]
    have hoff : ∀ j, j ≠ i → s'.handedAt j = s.handedAt j := by
      intro j hj
      simp [handedAt, s', Function.update_of_ne hj]
    have hsum := sum_range_at hlt (f := fun j => (s.handedAt j).countP fun q => g q.event)
      (g := fun j => (s'.handedAt j).countP fun q => g q.event) fun j hj => by rw [hoff j hj]
    have hevents : (s'.store.appends.map fun a => a.events.countP g).sum
        = (s.store.appends.map fun a => a.events.countP g).sum + batch.countP fun q => g q.event := by
      rw [show s'.store.appends = s.store.appends ++ [_] from rfl, sum_map_concat, List.countP_map]
      rfl
    rw [hat, List.countP_append] at hsum
    show (s'.store.appends.map fun a => a.events.countP g).sum
      = ∑ j ∈ range s.service.writer.shards.length, (s'.handedAt j).countP fun q => g q.event
    unfold Tallied at h
    omega
  · exact h

/-- The end of an append moves its batch to those that are over. -/
theorem Tallied.finish (h : s.Tallied g) (hinv : s.Inv tf ro start) {i : Nat} {a : AppendCall}
    (hcall : s.call i = some a) (outcome : Except StoreError Unit) :
    (s.finish i a outcome).Tallied g := by
  obtain ⟨batch, hbatch, -, -⟩ := hinv.call hcall
  obtain ⟨k, hk, -⟩ := Option.bind_eq_some_iff.mp hcall
  obtain ⟨sh, last, hi, hp⟩ := batchOf_eq_some.mp hbatch
  have hwriter : (s.finish i a outcome).service.writer
      = s.service.writer.step (.loop i (.appended outcome)) := rfl
  have hshards : (s.service.writer.step (.loop i (.appended outcome))).shards
      = s.service.writer.shards.set i (sh.appended outcome batch last) := by
    simp only [BatchWriter.step, hi, Shard.step, hp]
  have hhanded : ∀ j, (s.finish i a outcome).handedAt j = s.handedAt j := by
    intro j
    by_cases hji : j = i
    · subst hji
      have hover : appendedAt (s.service.writer.step (.loop j (.appended outcome))) j
          = appendedAt s.service.writer j ++ batch := by
        unfold appendedAt
        rw [hshards, getElem?_set_of hi, if_pos rfl, hi]
        simp [Shard.appended]
      unfold handedAt
      rw [hwriter, hover]
      simp [Node.finish, hk, hbatch]
    · have hnot : ∀ outcome', BatchWriter.Input.loop i (.appended outcome)
          ≠ .loop j (.appended outcome') := by
        intro outcome' heq
        cases heq
        exact hji rfl
      have hsame : batchOf (s.service.writer.step (.loop i (.appended outcome))) j
          = batchOf s.service.writer j := by
        unfold batchOf
        rw [hshards, List.getElem?_set_ne (Ne.symm hji)]
      unfold handedAt
      rw [hwriter, appendedAt_writer_step hnot, hsame]
      simp [Node.finish, Function.update_of_ne hji]
  unfold Tallied at h ⊢
  simp only [hhanded, hwriter, shards_writer_step]
  exact h

theorem tallied_step (hinv : s.Inv tf ro start) (h : s.Tallied g) (x : Input tf) :
    (s.step ro tf x).Tallied g := by
  cases x with
  | service y =>
    rw [step]
    split
    · exact h
    · rename_i hy
      exact h.serviceStep hinv (by simpa using hy)
  | append i order => exact h.append
  | appended i =>
    rw [step]
    split
    · exact h
    · rename_i a hcall
      split
      · exact h
      · exact h.finish hinv hcall _
  | died i message =>
    rw [step]
    split
    · exact h
    · rename_i a hcall
      exact h.finish hinv hcall _
  | store y =>
    rw [step]
    split
    · exact h
    · rename_i hy
      exact h.storeStep (by simpa using hy)

theorem tallied_run (ro : Rotation db) (settings : Settings) (config : BatchConfig)
    (cache : Option IdempotencyCache) (start : KdbStore db) (xs : List (Input tf)) :
    (run (step ro tf) (new settings config cache start) xs).Tallied g := by
  have hstep : ∀ (s : Node db) (x : Input tf), s.Inv tf ro start ∧ s.Tallied g →
      (s.step ro tf x).Inv tf ro start ∧ (s.step ro tf x).Tallied g :=
    fun s x h => ⟨inv_step s x h.1, tallied_step h.1 h.2 x⟩
  refine (run_invariant_of_step hstep ⟨inv_new settings config cache, ?_⟩ xs).2
  have hnone : ∀ i, (new settings config cache start : Node db).handedAt i = [] := by
    intro i
    have happended : appendedAt (BatchWriter.new config) i = [] := by
      unfold appendedAt
      split
      · rfl
      · rename_i sh hi
        rw [List.eq_of_mem_replicate (List.mem_of_getElem? hi)]
        rfl
    simp [handedAt, new, Service.new, happended]
  unfold Tallied
  simp only [hnone, List.countP_nil, Finset.sum_const_zero]
  rfl

/-- What the writes were handed had been accepted, and so asked for. -/
theorem Tallied.le_askedFor (h : s.Tallied g) (hflows : s.service.writer.Flows)
    (hcovered : s.service.writer.Covered g) :
    (s.store.appends.map fun a => a.events.countP g).sum ≤ s.service.writer.askedFor.countP g := by
  have hhanded : ∀ i sh, s.service.writer.shards[i]? = some sh →
      (s.handedAt i).countP (fun q => g q.event) ≤ sh.accepted.countP fun q => g q.event := by
    intro i sh hi
    have hsh : sh ∈ s.service.writer.shards := List.mem_of_getElem? hi
    have hlogged : sh.handed.flatten = (sh.appends.map Prod.fst).flatten ++ sh.undecided :=
      hflows.logged sh hsh
    have hbatch : (batchOf s.service.writer i).getD [] = sh.undecided := by
      simp only [batchOf, Shard.undecided, hi]
      cases sh.phase <;> rfl
    rw [(hflows.inv.shard i sh hi).queue, hlogged, handedAt, appendedAt, hi, hbatch]
    simp only [List.countP_append]
    split
    · omega
    · rw [List.countP_nil]
      omega
  have hsum := sum_range_le_sum_map (l := s.service.writer.shards) hhanded
  have hasked : s.service.writer.askedFor.countP g
      = (s.service.writer.calls.map fun c => c.events.countP g).sum := by
    rw [BatchWriter.askedFor, List.countP_flatMap]
    rfl
  unfold Tallied at h
  unfold BatchWriter.Covered at hcovered
  omega

/-- Of the rows that are such, a tier has no more than it had and the writer was asked to write. -/
theorem countP_storedRows_le (hro : ro.AddsNothing) (settings : Settings) (config : BatchConfig)
    (cache : Option IdempotencyCache) (start : KdbStore db) (xs : List (Input tf)) (tier : String)
    (f : LogEvent → Bool) :
    let s := run (step ro tf) (new settings config cache start) xs
    (s.store.store.storedRows tier).countP f ≤ (start.storedRows tier ++
      (s.service.writer.askedFor.filter fun e => e.tier = tier).map (toLogEvent tf)).countP f := by
  intro s
  let g : LlmEvent → Bool := fun e => f (toLogEvent tf e) && decide (e.tier = tier)
  have hrows : ∀ events : List LlmEvent,
      ((events.filter fun e => e.tier = tier).map (toLogEvent tf)).countP f = events.countP g := by
    intro events
    rw [List.countP_map, List.countP_filter]
    rfl
  obtain ⟨ys, hys, -⟩ := service_run ro settings config cache start xs
  obtain ⟨ws, hws⟩ := Service.writer_run settings config cache ys
  obtain ⟨zs, hzs⟩ : ∃ zs, s.store = run (BusyStore.step tf ro) (.idle start) zs :=
    store_run (new settings config cache start) xs
  have hwriter : s.service.writer = run BatchWriter.step (.new config) ws := by rw [← hws, ← hys]
  have hwritten : s.store.Accounted tf start tier f := by
    rw [hzs]
    exact BusyStore.accounted_run hro start zs
  have hasked : (s.store.appends.map fun a => a.events.countP g).sum
      ≤ s.service.writer.askedFor.countP g := by
    refine (tallied_run ro settings config cache start xs).le_askedFor ?_ ?_
    · exact hwriter ▸ BatchWriter.flows_run config ws
    · exact hwriter ▸ BatchWriter.covered_run g config ws
  rw [List.countP_append, hrows]
  simp only [BusyStore.Accounted, AppendCall.rows, hrows] at hwritten
  omega

end Node

/-! ## 2. From the requests to the calls -/

namespace Service

variable {s : Service}

/-- The payloads an input brings. -/
def Input.payloads : Input → List IngestEvent
  | .ingestSingle _ _ _ _ event => [event]
  | .ingestBatch _ _ _ events => events
  | _ => []

/-- The writer was asked for no more events than payloads were brought and are not pending. -/
def Spends (payloads : Nat) (s : Service) : Prop :=
  (s.requests.map fun r => r.pending.length).sum + s.writer.askedFor.length ≤ payloads

variable {payloads : Nat}

theorem askedFor_of_asked {w w' : BatchWriter}
    (h : w'.calls.map BatchWriter.asked = w.calls.map BatchWriter.asked) : w'.askedFor = w.askedFor := by
  have hflat : ∀ w : BatchWriter, w.askedFor = (w.calls.map BatchWriter.asked).flatMap Prod.snd := by
    intro w
    rw [List.flatMap_map]
    rfl
  rw [hflat, hflat, h]

/-- A request goes on with payloads it had, and the writer is asked for nothing. -/
theorem Spends.set (h : s.Spends payloads) {n : Nat} {r : Request} (hn : s.requests[n]? = some r)
    {pending : List IngestEvent} (hle : pending.length ≤ r.pending.length)
    (cache : Option IdempotencyCache) (stage : Stage)
    (results : List (Except ServerError IngestResponse)) :
    Spends payloads { s with
      cache := cache
      requests := s.requests.set n
        { r with pending := pending, stage := stage, results := results } } := by
  have hsum := sum_map_set (fun r : Request => r.pending.length) hn
    { r with pending := pending, stage := stage, results := results }
  unfold Spends at h ⊢
  simp only at hsum ⊢
  omega

theorem Spends.writer (h : s.Spends payloads) {y : BatchWriter.Input} (hy : y.begins = false)
    (stored : List Token) :
    Spends payloads { s with writer := s.writer.step y, stored := stored } := by
  have hsame := askedFor_of_asked (BatchWriter.asked_step s.writer y hy)
  unfold Spends at h ⊢
  rw [hsame]
  exact h

/-- A call takes its events from the pending payloads. -/
theorem Spends.call (h : s.Spends payloads) {n : Nat} {r : Request} (hn : s.requests[n]? = some r)
    {made : List (Except ServerError Made)} {pending : List IngestEvent}
    (hlength : made.length + pending.length ≤ r.pending.length) :
    (s.call n r made pending).Spends payloads := by
  have hmade : (llmEvents made).length ≤ made.length := List.length_filterMap_le _ _
  have hasked : (s.call n r made pending).writer.askedFor = s.writer.askedFor ++ llmEvents made := by
    simp [Service.call, BatchWriter.begin, BatchWriter.askedFor]
  have hsum := sum_map_set (fun r : Request => r.pending.length) hn
    { r with
      pending := pending
      stage := .waiting s.writer.calls.length made
      calls := r.calls ++ [s.writer.calls.length] }
  unfold Spends at h ⊢
  rw [hasked, List.length_append]
  simp only [Service.call] at hsum ⊢
  omega

theorem Spends.submit (h : s.Spends payloads) {n : Nat} {r : Request} (hn : s.requests[n]? = some r)
    (visits : Nat → Visit) : (s.submit n r visits).Spends payloads := by
  unfold Service.submit
  dsimp only
  split
  · split
    · exact h.set hn (Nat.zero_le _) s.cache _ _
    · split
      · exact h.set hn (Nat.le_refl _) s.cache _ _
      · rename_i made hmade
        exact h.call hn (Nat.le_of_eq (length_processAll_eq hmade))
  · split
    · exact h.set hn (Nat.le_refl _) s.cache _ _
    · rename_i event pending hpending
      have hlength : r.pending.length = pending.length + 1 := by rw [hpending, List.length_cons]
      split
      · exact h.set hn (Nat.le_refl _) s.cache _ _
      · exact h.set hn (by simp only [hlength]; omega) s.cache _ _
      · refine h.call hn ?_
        rw [hlength, List.length_singleton]
        omega

theorem Spends.enter (h : s.Spends payloads) (keys : ApiKeySet) (header : Option (List UInt8))
    (path : Path) (stage : Stage) {events : List IngestEvent} {brought : Nat}
    (hle : events.length ≤ brought) (results : List (Except ServerError IngestResponse)) :
    (s.enter keys header path stage events results).Spends (payloads + brought) := by
  unfold Service.enter
  split
  · exact h.trans (Nat.le_add_right _ _)
  · unfold Spends at h ⊢
    simp only [sum_map_concat]
    omega

theorem spends_step (h : s.Spends payloads) (x : Input) :
    (s.step x).Spends (payloads + x.payloads.length) := by
  cases x with
  | ingestSingle keys header durable idempotencyKey event =>
    rw [step, ingestSingle]
    split
    · exact h.enter _ _ _ _ (Nat.le_refl _) _
    · exact h.enter _ _ _ _ (Nat.le_refl _) _
  | ingestBatch keys header durableHeader events =>
    rw [step, ingestBatch]
    split
    · exact h.enter _ _ _ _ (Nat.zero_le _) _
    · exact h.enter _ _ _ _ (Nat.le_refl _) _
  | lookup n now =>
    rw [step]
    split
    · exact h
    · rename_i r hn
      split
      · unfold Service.lookup
        split
        · split
          · exact h.set hn (Nat.zero_le _) _ _ _
          · exact h.set hn (Nat.le_refl _) _ _ _
        · exact h.set hn (Nat.le_refl _) s.cache _ _
      · exact h
  | submit n visits =>
    rw [step]
    split
    · exact h
    · rename_i r hn
      split
      · split
        · exact h
        · exact h.submit hn visits
      · exact h
  | collect n now =>
    rw [step]
    split
    · exact h
    · rename_i r hn
      split
      · split
        · exact h
        · rw [collect]
          split
          · exact h
          · exact h.set hn (Nat.le_refl _) _ _ _
      · exact h
  | flush i outcome kept => exact h.writer rfl _
  | writer y =>
    rw [step]
    split
    · rename_i hy
      exact h.writer (begins_of_isInternal hy) s.stored
    · exact h

/-- What the writer was asked for was made of payloads, for the requests that posted them. -/
theorem Inv.madeOf_of_askedFor {supply : Supply} (h : s.Inv) (hsourced : s.Sourced supply)
    {e : LlmEvent} (he : e ∈ s.writer.askedFor) :
    ∃ (m : Nat) (r : Request), s.requests[m]? = some r ∧ MadeOf supply s.settings r e := by
  obtain ⟨c, hc, he⟩ := List.mem_flatMap.mp he
  obtain ⟨j, hj⟩ := List.mem_iff_getElem?.mp hc
  have hasked : (s.writer.calls.map BatchWriter.asked)[j]? = some (c.kind, c.events) := by
    rw [List.getElem?_map, hj]
    rfl
  obtain ⟨m, r, hm, hmem, -⟩ := h.owned j c.kind c.events hasked
  exact ⟨m, r, hm, hsourced.made m r hm j hmem c.kind c.events hasked e he⟩

end Service

namespace Node

variable {db : Keplordb} {ro : Rotation db} {tf : TextFormats}

theorem spends_step {payloads : Nat} (s : Node db) (x : Input tf) (h : s.service.Spends payloads) :
    (s.step ro tf x).service.Spends (payloads + (x.posts.flatMap Service.Input.payloads).length) := by
  have hmore : ∀ more, s.service.Spends (payloads + more) := fun more =>
    h.trans (Nat.le_add_right _ _)
  rcases service_step ro s x with hsame | ⟨y, hy, hflush | hposts⟩
  · rw [hsame]
    exact hmore _
  · rw [hy]
    have hnone : y.payloads = [] := by cases y <;> first | rfl | cases hflush
    have hstep := Service.spends_step h y
    rw [hnone] at hstep
    exact hstep.trans (Nat.le_add_right _ _)
  · rw [hy]
    cases x with
    | service z =>
      obtain rfl := List.mem_singleton.mp hposts
      rw [Input.posts, List.flatMap_singleton]
      exact Service.spends_step h y
    | _ => cases hposts

theorem length_askedFor_le (ro : Rotation db) (settings : Settings) (config : BatchConfig)
    (cache : Option IdempotencyCache) (start : KdbStore db) (xs : List (Input tf)) :
    (run (step ro tf) (new settings config cache start) xs).service.writer.askedFor.length
      ≤ ((xs.flatMap Input.posts).flatMap Service.Input.payloads).length := by
  have hspends : (run (step ro tf) (new settings config cache start) xs).service.Spends
      ((xs.flatMap Input.posts).flatMap Service.Input.payloads).length := by
    induction xs using List.reverseRecOn with
    | nil => exact Nat.le_refl 0
    | append_singleton xs x ih =>
      rw [run_append, List.flatMap_append, List.flatMap_singleton, List.flatMap_append,
        List.length_append]
      exact spends_step _ x ih
  exact (Nat.le_add_left _ _).trans hspends

end Node

/-! ## 3. The result -/

/-- Over every run of the server, from any content of its store. The writer is asked for no more events
than payloads were posted. A tier holds, with multiplicity, no more than it held at the start and the
rows of the events of that tier the writer was asked for. And each of those events was made under the
identity of a request the middleware let through, of a payload posted with that request's
credentials. -/
theorem stored_rows_were_posted (db : Keplordb) (ro : Rotation db) (hro : ro.AddsNothing)
    (settings : Settings) (config : BatchConfig) (cache : Option IdempotencyCache)
    (start : KdbStore db) (xs : List (Node.Input settings.tf)) :
    let s := run (Node.step ro settings.tf) (.new settings config cache start) xs
    let asked := s.service.writer.askedFor
    asked.length ≤ ((xs.flatMap Node.Input.posts).flatMap Service.Input.payloads).length ∧
    (∀ tier, (s.store.store.storedRows tier).Subperm (start.storedRows tier ++
      (asked.filter fun e => e.tier = tier).map (toLogEvent settings.tf))) ∧
    ∀ e ∈ asked, ∃ (m : Nat) (r : Request) (visit : Visit) (payload : IngestEvent) (made : Made),
      s.service.requests[m]? = some r ∧ requireApiKey r.keys r.header = .ok r.auth ∧
      (Supply.of (xs.flatMap Node.Input.posts)).posted r.keys r.header payload ∧
      processEvent visit.env visit.catalog payload (r.identity settings).1 (r.identity settings).2
        = pure made ∧ made.1 = e ∧ e.tier = (r.identity settings).2 := by
  intro s asked
  refine ⟨Node.length_askedFor_le ro settings config cache start xs, fun tier => ?_, fun e he => ?_⟩
  · exact subperm_of_countP_le (Node.countP_storedRows_le hro settings config cache start xs tier)
  · have hinv : s.service.Inv := (Node.inv_run ro settings config cache start xs).service
    have hsourced := Node.sourced_run ro settings config cache start xs
    have hsettings : s.service.settings = settings := by
      obtain ⟨ys, hys, -⟩ := Node.service_run ro settings config cache start xs
      rw [show s.service = _ from hys]
      exact run_unchanged Service.settings_step _ ys
    obtain ⟨m, r, hm, visit, payload, made, -, hposted, hmade, rfl⟩ :=
      hinv.madeOf_of_askedFor hsourced he
    rw [hsettings] at hmade
    have htier := (copied_of_buildLlmEvent (processEvent_eq_pure hmade).2).2.2.2.2
    exact ⟨m, r, visit, payload, made, hm, r.authentic, hposted, hmade, rfl, htier⟩

/-- The one payload of the run is the one row of its tier. -/
theorem stored_rows_were_posted_of_one :
    (listedNode.store.store.storedRows "free").length = 1 ∧
    ∀ row ∈ listedNode.store.store.storedRows "free", ∃ (visit : Visit) (made : Made),
      processEvent visit.env visit.catalog spoofingEvent (some "ops") "free" = pure made ∧
      row = toLogEvent sampleSettings.tf made.1 := by
  obtain ⟨-, hrows, hmade⟩ := stored_rows_were_posted walDb walRotation walRotation_addsNothing
    sampleSettings .default none emptyStart listedBefore
  refine ⟨by decide +kernel, fun row hrow => ?_⟩
  have hmem := (hrows "free").subset hrow
  rw [show emptyStart.storedRows "free" = [] from rfl, List.nil_append] at hmem
  obtain ⟨e, he, rfl⟩ := List.mem_map.mp hmem
  obtain ⟨he, htier⟩ := List.mem_filter.mp he
  obtain ⟨m, r, visit, payload, made, hm, -, hposted, hmade, rfl, -⟩ := hmade e he
  obtain rfl := supply_listedBefore.2 _ _ _ hposted
  have hauths : listedNode.service.requests.map Request.auth = [some ⟨"ops", "free"⟩] := by
    decide +kernel
  have hauth : r.auth = some ⟨"ops", "free"⟩ := by
    have hmem := List.mem_map_of_mem (f := Request.auth)
      (List.mem_of_getElem? (show listedNode.service.requests[m]? = some r from hm))
    rwa [hauths, List.mem_singleton] at hmem
  rw [Request.identity, hauth] at hmade
  exact ⟨visit, made, hmade, rfl⟩

end Keplor.Server
