import Keplor.Core.Formats
import Keplor.Store.BatchQueue

/-!
# `BatchWriter::shutdown`

The call sets a flag, takes the handles of the append loops, and waits for one after the other until
the deadline. A loop returns when its channel is closed and empty, and a channel is closed when the
writer, which holds the senders, is dropped. But the call borrows the writer: as long as it lasts the
channels are open (`Staying`), the first loop does not return, and the wait for it ends at the deadline.
The handles behind it are aborted then.

So the first call returns `false` in every run, also when there is nothing left to flush
(`shutdown_truthful_iff`), and the server, which takes `false` for a drain that ran out of time, warns
of lost events at every stop. A panic ends the process in a release build, so a loop does not end that
way either.
-/

set_option autoImplicit false

namespace Keplor.Store

open Keplor.Lib Keplor.Core

/-! ## The call and the writer -/

/-- Every request a shard took. -/
def BatchWriter.accepted (s : BatchWriter) : List WriteRequest := s.shards.flatMap Shard.accepted

/-- The requests no flush has decided: in a channel, in a buffer, or in a flush that has not returned. -/
def BatchWriter.unflushed (s : BatchWriter) : List WriteRequest := s.shards.flatMap Shard.queued

/-- The loop of a shard has returned. -/
def BatchWriter.loopDone (s : BatchWriter) (i : Nat) : Bool := (s.shards[i]?.map Shard.gone).getD false

/-- Where the first call of `shutdown` stands, with what had been accepted when it began. -/
inductive ShutdownCall where
  | before
  /-- at the top of the loop over the handles: how much time remains? -/
  | looking (i : Nat) (accepted : List WriteRequest)
  /-- in `timeout(remaining, handle)` -/
  | waiting (i : Nat) (accepted : List WriteRequest)
  /-- its result, and what was not flushed when it returned -/
  | returned (drained : Bool) (accepted unflushed : List WriteRequest)

/-- The call is in progress, and borrows the writer. -/
def ShutdownCall.borrows : ShutdownCall → Bool
  | looking _ _ | waiting _ _ => true
  | _ => false

/-- The writer, the first shutdown call on it, and the loops this has aborted. -/
structure Stopping where
  writer : BatchWriter
  call : ShutdownCall
  aborted : List Nat

namespace Stopping

/-- What happens: a step of some other task, or of the call, or the deadline passes. -/
inductive Input where
  | other (x : BatchWriter.Input)
  | shutdown
  | poll
  | deadline

def start (config : BatchConfig) : Stopping := ⟨BatchWriter.new config, .before, []⟩

/-- Everything but the call: a borrowed writer is not dropped, and an aborted loop does not move. -/
def other (s : Stopping) (x : BatchWriter.Input) : Stopping :=
  match x with
  | .drop => if s.call.borrows then s else { s with writer := s.writer.step .drop }
  | .loop i y => if i ∈ s.aborted then s else { s with writer := s.writer.step (.loop i y) }
  | x => { s with writer := s.writer.step x }

/-- The call comes to the next handle, or to its end. -/
def poll (s : Stopping) : Stopping :=
  match s.call with
  | .looking i accepted => { s with call := .waiting i accepted }
  | .waiting i accepted =>
    if s.writer.loopDone i then
      if i + 1 < s.writer.shards.length then { s with call := .looking (i + 1) accepted }
      else { s with call := .returned true accepted s.writer.unflushed }
    else s
  | _ => s

/-- The deadline: a handle that was being awaited counts if it is ready, and every other one that is
left is aborted. -/
def deadline (s : Stopping) : Stopping :=
  match s.call with
  | .looking i accepted =>
    { s with
      call := .returned false accepted s.writer.unflushed
      aborted := (List.range s.writer.shards.length).drop i }
  | .waiting i accepted =>
    { s with
      call := .returned (s.writer.loopDone i && decide (s.writer.shards.length ≤ i + 1)) accepted
        s.writer.unflushed
      aborted := (List.range s.writer.shards.length).drop (i + 1) }
  | _ => s

def step (s : Stopping) : Input → Stopping
  | .other x => s.other x
  | .shutdown =>
    match s.call with
    | .before =>
      if s.writer.dropped then s
      else { s with writer := s.writer.step .shutdown, call := .looking 0 s.writer.accepted }
    | _ => s
  | .poll => s.poll
  | .deadline => s.deadline

end Stopping

/-! ## No loop returns while the senders live -/

/-- The loop is not on its way out. -/
def Shard.Staying (sh : Shard) : Prop :=
  match sh.phase with
  | .exited => False
  | .flushing _ last => last = false
  | .replying _ last => last = false
  | _ => True

theorem Shard.Staying.not_gone {sh : Shard} (h : sh.Staying) : sh.gone = false := by
  unfold Staying at h
  unfold gone
  split
  · rename_i hp
    rw [hp] at h
    exact h.elim
  · rfl

theorem Shard.staying_step {sh : Shard} (h : sh.Staying) (batchSize : Nat) (x : Shard.Input) :
    (sh.step batchSize false x).Staying := by
  have heff := effect batchSize false x sh
  generalize sh.step batchSize false x = sh' at heff
  cases heff with
  | nothing => exact h
  | take _ _ _ => trivial
  | rest _ _ => trivial
  | @flush last _ hlast =>
    -- a last flush is one of a channel that is closed
    cases last with
    | false => rfl
    | true => cases hlast rfl
  | leave _ hclosed _ => cases hclosed
  | appended hp _ =>
    rw [Staying, hp] at h
    exact h
  | reply hp =>
    rw [Staying, hp] at h
    exact h
  | finish hp =>
    rw [Staying, hp] at h
    rw [Staying, h]
    trivial

namespace BatchWriter

/-- While the senders live, every loop stays. -/
def Staying (s : BatchWriter) : Prop := s.dropped = false → ∀ sh ∈ s.shards, sh.Staying

theorem staying_new (config : BatchConfig) : (new config).Staying := by
  intro _ sh hsh
  rw [List.eq_of_mem_replicate hsh]
  trivial

/-- Nothing but a drop drops the writer. -/
theorem dropped_step {s : BatchWriter} {x : Input} (hx : x ≠ .drop) :
    (s.step x).dropped = s.dropped := by
  have heff := effect s x
  generalize s.step x = s' at heff
  cases heff with
  | drop hdrop => exact absurd hdrop hx
  | nothing | begin _ _ _ | turn _ _ _ | deliver _ _ _ _ | loop _ _ | shutdown => rfl

/-- A writer that is not dropped after a step was not dropped before. -/
theorem dropped_of_step {s : BatchWriter} {x : Input} (h : (s.step x).dropped = false) :
    s.dropped = false := by
  have heff := effect s x
  generalize s.step x = s' at heff h
  cases heff with
  | drop _ => cases h
  | nothing | begin _ _ _ | turn _ _ _ | deliver _ _ _ _ | loop _ _ | shutdown => exact h

theorem staying_step {s : BatchWriter} (h : s.Staying) (x : Input) : (s.step x).Staying := by
  intro hd sh' hsh'
  have hstay := h (dropped_of_step hd)
  obtain ⟨j, hj⟩ := List.getElem?_of_mem hsh'
  rcases shards_step s x with hsame | ⟨n, i, c, event, sh, -, -, -, hi, hset⟩ | ⟨i, y, sh, -, hi, hset⟩
  · rw [hsame] at hsh'
    exact hstay sh' hsh'
  · rw [hset] at hj
    rcases getElem?_set_cases hj with ⟨-, rfl⟩ | ⟨-, hj⟩
    · exact hstay sh (List.mem_of_getElem? hi)
    · exact hstay sh' (List.mem_of_getElem? hj)
  · rw [hset] at hj
    rcases getElem?_set_cases hj with ⟨-, rfl⟩ | ⟨-, hj⟩
    · rw [dropped_of_step hd]
      exact Shard.staying_step (hstay sh (List.mem_of_getElem? hi)) _ y
    · exact hstay sh' (List.mem_of_getElem? hj)

theorem loopDone_eq_false {s : BatchWriter} (h : s.Staying) (hd : s.dropped = false) (i : Nat) :
    s.loopDone i = false := by
  unfold loopDone
  cases hi : s.shards[i]? with
  | none => rfl
  | some sh => exact (h hd sh (List.mem_of_getElem? hi)).not_gone

end BatchWriter

/-! ## The result -/

/-- What `run_inner` logs about the drain. -/
def drainMessage (drained : Bool) : String :=
  if drained then "batch writer drained successfully"
  else "batch writer drain timed out — some events may be lost"

/-- The result of the call tells what became of the requests, and so does the server's log: `false` and
a warning when some request is not flushed, `true` when those accepted before the call all are. -/
structure Truthful (drained : Bool) (accepted unflushed : List WriteRequest) : Prop where
  onFalse : drained = false → unflushed ≠ []
  onTrue : drained = true → ∀ r ∈ accepted, r ∉ unflushed
  warning : drainMessage drained = drainMessage false ↔ unflushed ≠ []

namespace Stopping

/-- While the call is at its first handle the writer lives, and a call that returned did so there. -/
def CallOk (s : Stopping) : Prop :=
  match s.call with
  | .before => True
  | .looking i _ => i = 0 ∧ s.writer.dropped = false
  | .waiting i _ => i = 0 ∧ s.writer.dropped = false
  | .returned drained _ _ => drained = false

def Inv (s : Stopping) : Prop := s.writer.Staying ∧ s.CallOk

variable {s : Stopping}

theorem inv_start (config : BatchConfig) : (start config).Inv :=
  ⟨BatchWriter.staying_new config, trivial⟩

theorem call_other (s : Stopping) (x : BatchWriter.Input) : (s.other x).call = s.call := by
  unfold other
  split
  · split <;> rfl
  · split <;> rfl
  · rfl

theorem staying_other (h : s.writer.Staying) (x : BatchWriter.Input) :
    (s.other x).writer.Staying := by
  unfold other
  split
  · split
    · exact h
    · exact BatchWriter.staying_step h _
  · split
    · exact h
    · exact BatchWriter.staying_step h _
  · exact BatchWriter.staying_step h _

/-- The writer is borrowed, so no other task drops it. -/
theorem dropped_other (hb : s.call.borrows = true) (x : BatchWriter.Input) :
    (s.other x).writer.dropped = s.writer.dropped := by
  unfold other
  split
  · rw [if_pos hb]
  · split
    · rfl
    · exact BatchWriter.dropped_step (by simp)
  · rename_i hdrop _
    exact BatchWriter.dropped_step hdrop

theorem inv_other (h : s.Inv) (x : BatchWriter.Input) : (s.other x).Inv := by
  refine ⟨staying_other h.1 x, ?_⟩
  have hok := h.2
  unfold CallOk at hok ⊢
  rw [call_other]
  cases hcall : s.call with
  | before => trivial
  | looking i accepted =>
    rw [hcall] at hok
    exact ⟨hok.1, (dropped_other (by rw [hcall]; rfl) x).trans hok.2⟩
  | waiting i accepted =>
    rw [hcall] at hok
    exact ⟨hok.1, (dropped_other (by rw [hcall]; rfl) x).trans hok.2⟩
  | returned drained accepted unflushed =>
    rw [hcall] at hok
    exact hok

/-- The first handle never becomes ready. -/
theorem inv_poll (h : s.Inv) : s.poll.Inv := by
  have hok := h.2
  unfold CallOk at hok
  unfold poll
  cases hcall : s.call with
  | before | returned _ _ _ => exact h
  | looking i accepted =>
    rw [hcall] at hok
    exact ⟨h.1, hok⟩
  | waiting i accepted =>
    rw [hcall] at hok
    have hnot : ¬ s.writer.loopDone i = true := by
      rw [BatchWriter.loopDone_eq_false h.1 hok.2]
      exact Bool.false_ne_true
    dsimp only
    rw [if_neg hnot]
    exact h

theorem inv_deadline (h : s.Inv) : s.deadline.Inv := by
  have hok := h.2
  unfold CallOk at hok
  unfold deadline
  cases hcall : s.call with
  | before | returned _ _ _ => exact h
  | looking i accepted => exact ⟨h.1, rfl⟩
  | waiting i accepted =>
    rw [hcall] at hok
    refine ⟨h.1, ?_⟩
    unfold CallOk
    dsimp only
    rw [BatchWriter.loopDone_eq_false h.1 hok.2]
    rfl

theorem inv_step (s : Stopping) (x : Input) (h : s.Inv) : (s.step x).Inv := by
  cases x with
  | other x => exact inv_other h x
  | poll => exact inv_poll h
  | deadline => exact inv_deadline h
  | shutdown =>
    unfold step
    dsimp only
    split
    · split
      · exact h
      · rename_i hdropped
        refine ⟨BatchWriter.staying_step h.1 .shutdown, rfl, ?_⟩
        exact Bool.eq_false_iff.mpr hdropped
    · exact h

/-- In every run, a first call that has returned has returned `false`. -/
theorem returned_false {config : BatchConfig} {xs : List Input} {drained : Bool}
    {accepted unflushed : List WriteRequest}
    (h : (run step (start config) xs).call = .returned drained accepted unflushed) :
    drained = false := by
  have hstep : ∀ s x, Inv s → Inv (step s x) := inv_step
  have hinv : (run step (start config) xs).Inv := run_invariant_of_step hstep (inv_start config) xs
  have hok := hinv.2
  unfold CallOk at hok
  rw [h] at hok
  exact hok

end Stopping

theorem truthful_false_iff (accepted unflushed : List WriteRequest) :
    Truthful false accepted unflushed ↔ unflushed ≠ [] := by
  constructor
  · exact fun h => h.onFalse rfl
  · intro hne
    refine ⟨fun _ => hne, fun h => ?_, fun _ => hne, fun _ => rfl⟩
    cases h

/-- In every run, with any number of shards and any interleaving up to the deadline: the first call's
result, and the server's log, tell the truth if and only if some accepted request is still in a
channel, in a buffer or in a flush that has not returned when the call ends. -/
theorem shutdown_truthful_iff (config : BatchConfig) (xs : List Stopping.Input) (drained : Bool)
    (accepted unflushed : List WriteRequest)
    (h : (run Stopping.step (Stopping.start config) xs).call =
      .returned drained accepted unflushed) :
    Truthful drained accepted unflushed ↔ unflushed ≠ [] := by
  rw [Stopping.returned_false h]
  exact truthful_false_iff accepted unflushed

/-- One shard. -/
def oneShard : BatchConfig := { batchSize := 8, channelCapacity := 8, flushShards := 1 }

/-- A request is in the channel when the call comes, and the deadline comes before the loop does. -/
def cutShort : List Stopping.Input :=
  [.other (.write sampleEvent), .other (.pick 0), .other (.send 0), .shutdown, .deadline]

/-- The call returns `false`, and rightly so. -/
theorem shutdown_truthful_cut_short :
    (run Stopping.step (Stopping.start oneShard) cutShort).call =
        .returned false [⟨⟨0, 0⟩, sampleEvent, true⟩] [⟨⟨0, 0⟩, sampleEvent, true⟩] ∧
      Truthful false [⟨⟨0, 0⟩, sampleEvent, true⟩] [⟨⟨0, 0⟩, sampleEvent, true⟩] := by
  have hcall : (run Stopping.step (Stopping.start oneShard) cutShort).call =
      .returned false [⟨⟨0, 0⟩, sampleEvent, true⟩] [⟨⟨0, 0⟩, sampleEvent, true⟩] := rfl
  refine ⟨hcall, (shutdown_truthful_iff oneShard cutShort _ _ _ hcall).mpr ?_⟩
  exact List.cons_ne_nil _ _

/-- An idle writer: nothing was ever accepted, and the call returns `false`. -/
theorem idle_shutdown_warns :
    (run Stopping.step (Stopping.start oneShard) [.shutdown, .deadline]).call = .returned false [] [] ∧
      ¬ Truthful false [] [] := by
  refine ⟨rfl, ?_⟩
  rw [truthful_false_iff]
  exact fun h => h rfl

end Keplor.Store
