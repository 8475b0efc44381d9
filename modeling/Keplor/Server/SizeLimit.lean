import Keplor.Core.Formats
import Keplor.Server.Ingest
import Keplor.Store.SizeCache

/-!
# The size limit and the size it is held against

`Pipeline::check_db_size` lets an event in when the size that the store returns is below the limit. The
size is a measured one in every run in which no caller that lost the refresh lock takes the cached size
before the first one is stored. Two requests that come at once to a store just opened are enough for a
run that is not of this kind: the second is let in on the zero the cache starts with.
-/

set_option autoImplicit false

namespace Keplor.Server

open Keplor.Lib Keplor.Store

theorem lt_of_checkDbSize_ok {settings : Settings} {size : UInt64}
    (h : checkDbSize settings (some size) = .ok ()) :
    settings.maxDbBytes = 0 ∨ size < settings.maxDbBytes := by
  unfold checkDbSize at h
  split at h
  · rename_i hzero
    exact .inl hzero
  · dsimp only at h
    split at h
    · cases h
    · rename_i hle
      exact .inr (UInt64.not_le.mp hle)

/-- In a run where the cached size is not taken by a loser of the lock before there is one, every size
returned was measured since the store was opened, and events are let in on such sizes only. -/
theorem size_limit_reads_measured {θ : Type} [DecidableEq θ] (sizeCheckIntervalMs : UInt64)
    (engineBytes : List UInt64) (moves : List (SizeMove θ))
    (h : Allowed SizeCache.step SizeCache.LostAfterStore
      (SizeCache.opened sizeCheckIntervalMs engineBytes) moves) :
    let s := run SizeCache.step (SizeCache.opened sizeCheckIntervalMs engineBytes) moves
    (∀ size ∈ s.returns, size ∈ s.measured) ∧
    (∀ settings, ∀ size ∈ s.returns, checkDbSize settings (some size) = .ok () →
      settings.maxDbBytes = 0 ∨ (size ∈ s.measured ∧ size < settings.maxDbBytes)) := by
  intro s
  have hmeasured : ∀ size ∈ s.returns, size ∈ s.measured := SizeCache.returns_measured h
  refine ⟨hmeasured, ?_⟩
  intro settings size hsize hok
  rcases lt_of_checkDbSize_ok hok with hzero | hlt
  · exact .inl hzero
  · exact .inr ⟨hmeasured size hsize, hlt⟩

/-- The second caller loses the lock while the first one refreshes, and takes the size after it was
stored. -/
theorem size_limit_reads_measured_late_loser :
    let moves : List (SizeMove Bool) :=
      [.call true 1000, .call false 1001, .go true false, .go false false, .go true false,
        .go false false, .go true false, .go true false, .go true false, .go false false]
    let s := run SizeCache.step (SizeCache.opened 1000 [8192, 100]) moves
    s.returns = [8292] ∧
      ∀ size ∈ s.returns, size ∈ s.measured := by
  intro moves
  have h : Allowed SizeCache.step SizeCache.LostAfterStore (SizeCache.opened 1000 [8192, 100]) moves := by
    decide
  exact ⟨by decide, (size_limit_reads_measured 1000 [8192, 100] moves h).1⟩

/-- The second caller loses the lock while the first one is about to walk, and its event is let in on
a size of zero though the engines hold twice the limit. -/
theorem unmeasured_zero_admitted :
    let moves : List (SizeMove Bool) :=
      [.call true 1000, .call false 1001, .go true false, .go false false, .go true false,
        .go false false, .go false false]
    let s := run SizeCache.step (SizeCache.opened 1000 [8192]) moves
    let settings : Settings := ⟨Core.textFormats, "free", 4096, 10, fun _ _ => ""⟩
    (moves.filterMap SizeMove.reading).Pairwise (· ≤ ·) ∧
      computeDbSize s.engineBytes = 8192 ∧
      ¬ (∀ size ∈ s.returns, size ∈ s.measured) ∧
      0 ∈ s.returns ∧ checkDbSize settings (some 0) = .ok () := by
  intro moves s settings
  have hreturns : s.returns = [0] := rfl
  have hmeasured : s.measured = [] := rfl
  refine ⟨by decide, by decide, ?_, ?_, rfl⟩
  · intro h
    have hzero := h 0 (by rw [hreturns]; exact List.mem_singleton.mpr rfl)
    rw [hmeasured] at hzero
    cases hzero
  · rw [hreturns]
    exact List.mem_singleton.mpr rfl

end Keplor.Server
