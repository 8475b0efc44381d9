import Keplor.Server.Retention
import Keplor.Store.Rotation

/-!
# `gc_tiered_loop` next to everything else

The loop wakes up, reads the clock, and takes the configured tiers in turn; writes, checkpoints and
deletions go on in between. A tier with `days = 0` is passed over, and a tier that has no entry is
never visited. So an event can only leave the store by its own id or by an entry for its own tier,
whatever the entries of the other tiers say.
-/

set_option autoImplicit false

namespace Keplor.Server

open Keplor.Core Keplor.Lib Keplor.Store

variable {db : Keplordb} (ro : Rotation db) (tf : TextFormats)

/-- A store in use and the collecting loop: the clock of the round that is under way, and the entries
that are left in it. -/
structure TieredStore (db : Keplordb) where
  busy : BusyStore db
  now : Int64
  left : List RetentionTier

namespace TieredStore

def idle (store : KdbStore db) : TieredStore db := ⟨.idle store, 0, []⟩

inductive Input where
  /-- the loop wakes up -/
  | wake (now : Int64)
  /-- the loop goes on to the next entry -/
  | turn
  /-- something else happens at the store -/
  | other (x : BusyStore.Input tf)

/-- Only the loop collects. -/
def collects : BusyStore.Input tf → Bool
  | .collect _ _ => true
  | _ => false

/-- `gc_tiered_loop`, one entry at a time. -/
def step (tiers : List RetentionTier) (s : TieredStore db) : Input tf → TieredStore db
  | .wake now => if s.left.isEmpty then { s with now := now, left := tiers } else s
  | .turn =>
    match s.left with
    | [] => s
    | t :: rest =>
      if t.days = 0 then { s with left := rest }
      else
        { s with
          busy := s.busy.step tf ro (.collect t.name (tierCutoff s.now t)), left := rest }
  | .other x => if collects tf x then s else { s with busy := s.busy.step tf ro x }

/-- A round of the loop that nothing comes between is `gcTieredPass`. -/
theorem run_turns (tiers : List RetentionTier) (left : List RetentionTier) :
    ∀ s : TieredStore db, s.left = left →
      (run (step ro tf tiers) s (List.replicate left.length .turn)).busy.store
        = gcTieredPass s.now left s.busy.store := by
  induction left with
  | nil => exact fun s _ => rfl
  | cons t rest ih =>
    intro s hleft
    rw [List.length_cons, List.replicate_succ, run_cons, gcTieredPass, List.foldl_cons]
    by_cases hdays : t.days = 0
    · rw [if_pos hdays]
      have hstep : s.step ro tf tiers .turn = { s with left := rest } := by
        simp only [step, hleft, hdays, if_true]
      rw [hstep]
      exact ih _ rfl
    · rw [if_neg hdays]
      have hstep : s.step ro tf tiers .turn = { s with
          busy := s.busy.step tf ro (.collect t.name (tierCutoff s.now t)), left := rest } := by
        simp only [step, hleft, hdays, if_false]
      rw [hstep]
      exact ih _ rfl

variable {ro} {tf} {tiers : List RetentionTier} {s : TieredStore db}

theorem sound_step (start : KdbStore db) (h : s.busy.Sound tf ro start) (x : Input tf) :
    (s.step ro tf tiers x).busy.Sound tf ro start := by
  cases x with
  | wake now =>
    rw [step]
    split <;> exact h
  | other y =>
    rw [step]
    split
    · exact h
    · exact BusyStore.sound_step start s.busy y h
  | turn =>
    rw [step]
    split
    · exact h
    · rename_i t rest hleft
      split
      · exact h
      · exact BusyStore.sound_step start s.busy (.collect t.name (tierCutoff s.now t)) h

end TieredStore

/-- A day for one tier, and no limit for the other: the first loses its segment, the second keeps it. -/
example :
    let s := run (TieredStore.step walRotation textFormats [⟨"free", 1⟩, ⟨"pro", 0⟩])
      (.idle rotatingStart) (beforeRotation.map .other ++ .other .checkpoint ::
        duringRotation.map .other ++ [.wake newYear2026, .turn, .turn])
    visibleIds s.busy "free" = [] ∧ visibleIds s.busy "pro" = ["00000000000000000000000002"] := by
  decide +kernel

end Keplor.Server
