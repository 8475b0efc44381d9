import Keplor.Lib.Tally
import Keplor.Store.Queues
import Keplor.Store.Rotation

/-!
# Nothing is made up and nothing is written twice

An event gets into the store by being asked for in a call of the writer, accepted by a shard, handed
to `append_batch_durable` in a batch, and written in the sub-batch of its tier. Two ledgers are kept
here, one to each half of that way. What the shards have accepted, with what the calls have still to
send, comes to no more than what the calls were asked for; and what a tier holds, with what the
writes have still to write there, comes to no more than it held at the start and what the writes were
handed. Whatever fails on the way only takes away from the left-hand side.
-/

set_option autoImplicit false

namespace Keplor.Store

open Keplor.Lib Keplor.Core

/-! ## 1. From the calls to the shards -/

/-- The events of a call that have not been sent. -/
def Call.unsent (c : Call) : List LlmEvent := c.events.drop c.sent.length

namespace BatchWriter

variable {s : BatchWriter} {g : LlmEvent → Bool}

/-- The events a writer has been called with. -/
def askedFor (s : BatchWriter) : List LlmEvent := s.calls.flatMap Call.events

/-- Of the events that are such, no more are accepted or still to be sent than were asked for. -/
def Covered (g : LlmEvent → Bool) (s : BatchWriter) : Prop :=
  (s.shards.map fun sh => sh.accepted.countP fun q => g q.event).sum
      + (s.calls.map fun c => c.unsent.countP g).sum
    ≤ (s.calls.map fun c => c.events.countP g).sum

theorem countP_unsent_le (c : Call) : c.unsent.countP g ≤ c.events.countP g :=
  (List.drop_sublist _ _).countP_le

/-- A turn of a call sends nothing. -/
theorem Turn.unsent_le {n : Nat} {c c' : Call} (h : Turn s n c c') :
    c'.events = c.events ∧ c'.unsent.countP g ≤ c.unsent.countP g := by
  cases h with
  | picked _ | told _ | cancelled => exact ⟨rfl, Nat.le_refl _⟩
  | refused hlt e =>
    refine ⟨rfl, ?_⟩
    rw [Call.unsent, Call.unsent, List.length_append, ← List.drop_drop]
    exact (List.drop_sublist _ _).countP_le

theorem covered_step (s : BatchWriter) (x : Input) (h : s.Covered g) : (s.step x).Covered g := by
  have heff := effect s x
  generalize s.step x = s' at heff
  unfold Covered at h ⊢
  cases heff with
  | nothing | shutdown | drop _ => exact h
  | begin kind events _ =>
    simp only [begin, sum_map_concat]
    exact (Nat.add_assoc _ _ _).symm.le.trans (Nat.add_le_add h (countP_unsent_le _))
  | @turn n c c' hn hturn t =>
    obtain ⟨hevents, hunsent⟩ := hturn.unsent_le (g := g)
    have hleft := sum_map_set (fun c => c.unsent.countP g) hn c'
    have hasked := sum_map_set (fun c => c.events.countP g) hn c'
    simp only [hevents] at hleft hasked ⊢
    omega
  | @deliver n i c event sh hn hcancelled hevent hi =>
    have hunsent : c.unsent = event :: c.events.drop (c.sent.length + 1) := by
      obtain ⟨hlt, hget⟩ := List.getElem?_eq_some_iff.mp hevent
      rw [Call.unsent, List.drop_eq_getElem_cons hlt, hget]
    let r : WriteRequest := ⟨⟨n, c.sent.length⟩, event, c.kind.awaits⟩
    let c' : Call := { c with picked := none, sent := c.sent ++ [.ok i] }
    have hafter : c'.unsent = c.events.drop (c.sent.length + 1) := by
      rw [Call.unsent, List.length_append, List.length_singleton]
    have haccepted : (sh.push r).accepted = sh.accepted ++ [r] := rfl
    have hshards := sum_map_set (fun sh => sh.accepted.countP fun q => g q.event) hi (sh.push r)
    have hleft := sum_map_set (fun c => c.unsent.countP g) hn c'
    have hasked := sum_map_set (fun c => c.events.countP g) hn c'
    rw [haccepted, List.countP_append, List.countP_singleton] at hshards
    rw [hafter, hunsent, List.countP_cons] at hleft
    rw [show c'.events = c.events from rfl] at hasked
    rw [show r.event = event from rfl] at hshards
    show ((s.shards.set i (sh.push r)).map fun sh => sh.accepted.countP fun q => g q.event).sum
        + ((s.calls.set n c').map fun c => c.unsent.countP g).sum
      ≤ ((s.calls.set n c').map fun c => c.events.countP g).sum
    omega
  | @loop i y sh hx hi =>
    have hshards := sum_map_set (fun sh => sh.accepted.countP fun q => g q.event) hi
      (sh.step s.batchSize s.dropped y)
    rw [Shard.accepted_step] at hshards
    simp only
    omega

/-- Over every run: what the shards have accepted was asked for, and no more often. -/
theorem covered_run (g : LlmEvent → Bool) (config : BatchConfig) (xs : List Input) :
    (run step (new config) xs).Covered g := by
  refine run_invariant_of_step (fun s x => covered_step s x) ?_ xs
  have hnone : ((new config).shards.map fun sh => sh.accepted.countP fun q => g q.event).sum = 0 := by
    simp [new, Shard.new]
  rw [Covered, hnone]
  exact Nat.le_refl 0

end BatchWriter

/-! ## 2. From the writes to the engines -/

variable {db : Keplordb}

/-- Only an append adds rows: a rotation, a tombstone and a dropped segment never do. -/
structure Rotation.AddsNothing (ro : Rotation db) : Prop where
  flush : ∀ e, (db.stored (ro.flush e).2).Subperm (db.stored e)
  delete : ∀ e ids, (db.stored (db.deleteEvents e ids).2).Subperm (db.stored e)
  gc : ∀ e c, (db.stored (db.gc e c).2).Subperm (db.stored e)

namespace KdbStore

variable {ro : Rotation db} {s s' : KdbStore db} {tier : String} {f : LogEvent → Bool}

/-- A tier's engine is replaced by one that stores no more. -/
theorem countP_put_le {e e' : db.Engine} (hget : s.get tier = some e)
    (h : (db.stored e').Subperm (db.stored e)) (t : String) (f : LogEvent → Bool) :
    ((s.put tier e').storedRows t).countP f ≤ (s.storedRows t).countP f := by
  rw [storedRows_put]
  split
  · rename_i ht
    rw [ht, storedRows_of_get hget]
    exact h.countP_le f
  · exact Nat.le_refl _

theorem countP_flushTier_le (hro : ro.AddsNothing) (s : KdbStore db) (tier t : String)
    (f : LogEvent → Bool) :
    ((s.flushTier ro tier).2.storedRows t).countP f ≤ (s.storedRows t).countP f := by
  rw [flushTier]
  cases hget : s.get tier with
  | none => exact Nat.le_refl _
  | some e => exact countP_put_le hget (hro.flush e) t f

theorem countP_deleteFrom_le (hro : ro.AddsNothing) (s : KdbStore db) (ids : List String)
    (tier t : String) (f : LogEvent → Bool) :
    ((s.deleteFrom ids tier).2.storedRows t).countP f ≤ (s.storedRows t).countP f := by
  rw [deleteFrom]
  cases hget : s.get tier with
  | none => exact Nat.le_refl _
  | some e => exact countP_put_le hget (hro.delete e ids) t f

theorem countP_gcTier_le (hro : ro.AddsNothing) (s : KdbStore db) (tier : String) (c : Int64)
    (t : String) (f : LogEvent → Bool) :
    ((s.gcTier tier c).2.storedRows t).countP f ≤ (s.storedRows t).countP f := by
  have hopen := storedRows_engineFor s tier t
  match hf : s.engineFor tier with
  | (.error m, s₁) =>
    rw [hf] at hopen
    rw [gcTier, hf]
    exact (congrArg (List.countP f) hopen).le
  | (.ok e, s₁) =>
    rw [hf] at hopen
    rw [gcTier, hf, ← hopen]
    exact countP_put_le (get_of_engineFor hf) (hro.gc e c) t f

end KdbStore

/-- The rows of a tier that a write has still to write. -/
def AppendCall.toWrite (a : AppendCall) (tier : String) : List LogEvent :=
  (a.left.filter fun p => p.1 = tier).flatMap Prod.snd

/-- The rows of a tier that a write was handed. -/
def AppendCall.rows (tf : TextFormats) (a : AppendCall) (tier : String) : List LogEvent :=
  (a.events.filter fun e => e.tier = tier).map (toLogEvent tf)

/-- The sub-batches of a tier are the rows of its events. -/
theorem toWrite_perm_rows {tf : TextFormats} {events : List LlmEvent}
    {visit : List (String × List LogEvent)} (hvisit : visit.Perm (byTier tf events))
    (outcome : Option (Except StoreError Unit)) (tier : String) :
    (AppendCall.toWrite ⟨events, visit, outcome⟩ tier).Perm
      (AppendCall.rows tf ⟨events, visit, outcome⟩ tier) := by
  have hgroups := flatMap_filter_collect LlmEvent.tier tier events
  refine ((hvisit.filter _).flatMap_right Prod.snd).trans ?_
  rw [byTier, List.filter_map, List.flatMap_map]
  refine List.Perm.trans (List.Perm.of_eq ?_) (hgroups.map (toLogEvent tf))
  rw [List.map_flatMap]
  rfl

namespace BusyStore

variable {tf : TextFormats} {ro : Rotation db} {start : KdbStore db} {s : BusyStore db}
  {tier : String} {f : LogEvent → Bool}

/-- Of the rows that are such, a tier has no more than it had at the start and the writes were handed,
with what they have still to write. -/
def Accounted (tf : TextFormats) (start : KdbStore db) (tier : String) (f : LogEvent → Bool)
    (s : BusyStore db) : Prop :=
  (s.store.storedRows tier).countP f + (s.appends.map fun a => (a.toWrite tier).countP f).sum
    ≤ (start.storedRows tier).countP f + (s.appends.map fun a => (a.rows tf tier).countP f).sum

theorem Accounted.of_le {s' : BusyStore db} (h : s.Accounted tf start tier f)
    (happends : s'.appends = s.appends)
    (hle : (s'.store.storedRows tier).countP f ≤ (s.store.storedRows tier).countP f) :
    s'.Accounted tf start tier f := by
  unfold Accounted at h ⊢
  rw [happends]
  exact (Nat.add_le_add_right hle _).trans h

theorem accounted_appendNext (h : s.Accounted tf start tier f) {n : Nat} {a : AppendCall}
    (hn : s.appends[n]? = some a) : (s.appendNext n a).Accounted tf start tier f := by
  -- what the write was handed does not change, so it is what is left that counts
  have hmove : ∀ (store : KdbStore db) (a' : AppendCall), a'.events = a.events →
      (store.storedRows tier).countP f + (a'.toWrite tier).countP f
        ≤ (s.store.storedRows tier).countP f + (a.toWrite tier).countP f →
      Accounted tf start tier f { s with store := store, appends := s.appends.set n a' } := by
    intro store a' hevents hle
    have hleft := sum_map_set (fun a => (a.toWrite tier).countP f) hn a'
    have hrows := sum_map_set (fun a => (a.rows tf tier).countP f) hn a'
    rw [AppendCall.rows, AppendCall.rows, hevents] at hrows
    unfold Accounted at h ⊢
    simp only
    omega
  unfold appendNext
  split
  · exact h
  · exact hmove s.store _ rfl (Nat.le_refl _)
  · rename_i p rest _ hleft
    split
    · rename_i e store happ
      refine hmove store _ rfl ?_
      rw [KdbStore.appendTier_error happ]
      exact Nat.le_refl _
    · rename_i store happ
      refine hmove store _ rfl ?_
      have hwritten := (KdbStore.appendTier_ok happ tier).countP_eq f
      rw [hwritten, AppendCall.toWrite, AppendCall.toWrite, hleft]
      by_cases hp : p.1 = tier
      · simp only [hp, if_true, List.filter_cons, decide_true, List.flatMap_cons, List.countP_append]
        omega
      · rw [if_neg (Ne.symm hp), List.filter_cons_of_neg (by simpa using hp)]

theorem accounted_step (hro : ro.AddsNothing) (h : s.Accounted tf start tier f) (x : Input tf) :
    (s.step tf ro x).Accounted tf start tier f := by
  cases x with
  | append events visit hvisit =>
    have hsame := (toWrite_perm_rows hvisit none tier).countP_eq f
    unfold Accounted at h ⊢
    simp only [step, sum_map_concat, hsame]
    omega
  | appendTurn n =>
    rw [step]
    split
    · exact h
    · rename_i a hn
      exact accounted_appendNext h hn
  | checkpoint => exact h.of_le rfl (Nat.le_refl _)
  | checkpointTurn n =>
    rw [step]
    split
    · exact h
    · rename_i c hn
      rw [checkpointNext]
      split
      · exact h
      · exact h.of_le rfl (Nat.le_refl _)
      · rename_i t rest _ _
        have hle := KdbStore.countP_flushTier_le hro s.store t tier f
        rcases hflush : s.store.flushTier ro t with ⟨e | _, store⟩
        · rw [hflush] at hle
          exact h.of_le rfl hle
        · rw [hflush] at hle
          exact h.of_le rfl hle
  | delete ids t => exact h.of_le rfl (KdbStore.countP_deleteFrom_le hro s.store ids t tier f)
  | collect t cutoff => exact h.of_le rfl (KdbStore.countP_gcTier_le hro s.store t cutoff tier f)
  | openTier t =>
    refine h.of_le rfl (Nat.le_of_eq ?_)
    exact congrArg (List.countP f) (KdbStore.storedRows_engineFor s.store t tier)

/-- Over every run: a tier has no more such rows than it had at the start and was handed. -/
theorem accounted_run (hro : ro.AddsNothing) (start : KdbStore db) (xs : List (Input tf)) :
    (run (step tf ro) (idle start) xs).Accounted tf start tier f :=
  have hstep : ∀ (s : BusyStore db) (x : Input tf), s.Accounted tf start tier f →
      (s.step tf ro x).Accounted tf start tier f := fun _ x h => accounted_step hro h x
  run_invariant_of_step hstep (Nat.le_refl _) xs

end BusyStore

/-- The engines of the examples promise it too. -/
theorem walRotation_addsNothing : walRotation.AddsNothing := by
  constructor
  · intro e
    rw [walRotation]
    dsimp only
    split
    · exact List.Subperm.refl _
    · refine List.Perm.subperm (List.Perm.of_eq ?_)
      simp [walDb]
  · intro e ids
    simp only [walDb, memoryDb]
    split
    · exact List.Subperm.refl _
    · exact List.Subperm.refl _
  · intro e c
    simp only [walDb, memoryDb]
    exact (List.filter_sublist.flatten.append_right _).subperm

end Keplor.Store
