import Mathlib.Algebra.Order.Field.Basic
import Mathlib.Tactic.Linarith
import Mathlib.Tactic.Ring
import Mathlib.Tactic.Common

/-!
# Token buckets

A bucket holds tokens up to a capacity and fills at a fixed rate. A call at some time fills it up to
that time and takes one token, if there is a whole one. The calls granted in a window are bounded by
what the bucket can hold at its start and what runs in during it (`grantedIn_le`): every grant is
paid for with a token, and `grant_add_level_le` says that tokens come from nowhere else.

While calls are refused, nothing runs over and nothing is taken, so the level stays on one line over
time. `start` is where that line begins, and with it the time of the next grant is fixed.
-/

set_option autoImplicit false

namespace Keplor.Lib

variable {K : Type} [Field K] [LinearOrder K]

/-- What is in a bucket, and the time at which that was worked out. -/
structure FillingBucket (K : Type) where
  level : K
  time : K
  deriving DecidableEq

namespace FillingBucket

/-- Fill up to a time; what does not fit runs over. -/
def fill (rate capacity now : K) (b : FillingBucket K) : FillingBucket K :=
  ⟨min (b.level + (now - b.time) * rate) capacity, now⟩

/-- A call at a time: whether it is granted, and the bucket after it. -/
def take (rate capacity now : K) (b : FillingBucket K) : Bool × FillingBucket K :=
  let filled := b.fill rate capacity now
  if 1 ≤ filled.level then (true, { filled with level := filled.level - 1 }) else (false, filled)

/-- The calls at the given times, each with its answer. -/
def takes (rate capacity : K) : FillingBucket K → List K → List (K × Bool)
  | _, [] => []
  | b, now :: times =>
    (now, (b.take rate capacity now).1) :: takes rate capacity (b.take rate capacity now).2 times

/-- How many of the calls in a closed window are granted. -/
def grantedIn (s t : K) (calls : List (K × Bool)) : Nat :=
  calls.countP fun c => c.2 && (decide (s ≤ c.1) && decide (c.1 ≤ t))

/-- The level is one that a bucket of that capacity can have. -/
def Within (capacity : K) (b : FillingBucket K) : Prop := 0 ≤ b.level ∧ b.level ≤ capacity

variable {rate capacity now s t : K} {b : FillingBucket K} {times : List K}

@[simp] theorem take_time : (b.take rate capacity now).2.time = now := by
  unfold take
  dsimp only
  split <;> rfl

theorem mem_of_mem_takes {c : K × Bool} (h : c ∈ takes rate capacity b times) : c.1 ∈ times := by
  induction times generalizing b with
  | nil => simp [takes] at h
  | cons now times ih =>
    simp only [takes, List.mem_cons] at h
    rcases h with rfl | h
    · simp
    · simp [ih h]

/-- A grant and what it leaves are no more than the bucket was filled to. -/
theorem grant_add_level_le (rate capacity now : K) (b : FillingBucket K) :
    ((b.take rate capacity now).1.toNat : K) + (b.take rate capacity now).2.level
      ≤ (b.fill rate capacity now).level := by
  unfold take
  dsimp only
  split <;> simp

omit [Field K] in
theorem grantedIn_cons (c : K × Bool) (calls : List (K × Bool)) (hs : s ≤ c.1) (ht : c.1 ≤ t) :
    grantedIn s t (c :: calls) = grantedIn s t calls + c.2.toNat := by
  rw [grantedIn, List.countP_cons, ← grantedIn]
  cases c.2 <;> simp [hs, ht]

omit [Field K] in
theorem grantedIn_eq_zero {calls : List (K × Bool)} (h : ∀ c ∈ calls, t < c.1) :
    grantedIn s t calls = 0 := by
  apply List.countP_eq_zero.mpr
  intro c hc
  have hlate := h c hc
  simp [not_le.mpr hlate]

/-- Where the level would have been at time zero. -/
def start (rate : K) (b : FillingBucket K) : K := b.level - b.time * rate

/-- A bucket that can hold a whole token grants a call as soon as its line is there. -/
theorem take_iff (hone : 1 ≤ capacity) :
    (b.take rate capacity now).1 = true ↔ 1 ≤ b.start rate + now * rate := by
  have hline : b.level + (now - b.time) * rate = b.start rate + now * rate := by
    unfold start
    ring
  unfold take fill
  dsimp only
  rw [hline]
  split
  · rename_i hle
    exact iff_of_true rfl (le_min_iff.mp hle).1
  · rename_i hlt
    exact iff_of_false Bool.false_ne_true fun hle => hlt (le_min hle hone)

/-- A refused call leaves the bucket on its line. -/
theorem start_take (hone : 1 ≤ capacity) (h : (b.take rate capacity now).1 = false) :
    (b.take rate capacity now).2.start rate = b.start rate := by
  unfold take fill at h ⊢
  dsimp only at h ⊢
  split at h
  · cases h
  · rename_i hlt
    have hroom : b.level + (now - b.time) * rate ≤ capacity := by
      by_contra hover
      exact hlt (le_min (hone.trans (le_of_lt (not_le.mp hover))) hone)
    rw [if_neg hlt, min_eq_left hroom]
    unfold start
    ring

variable [IsStrictOrderedRing K]

theorem within_fill (hrate : 0 ≤ rate) (hcapacity : 0 ≤ capacity) (h : b.Within capacity)
    (hnow : b.time ≤ now) : (b.fill rate capacity now).Within capacity := by
  refine ⟨le_min ?_ hcapacity, min_le_right _ _⟩
  have hin : 0 ≤ (now - b.time) * rate := mul_nonneg (sub_nonneg.mpr hnow) hrate
  exact add_nonneg h.1 hin

theorem within_take (hrate : 0 ≤ rate) (hcapacity : 0 ≤ capacity) (h : b.Within capacity)
    (hnow : b.time ≤ now) : (b.take rate capacity now).2.Within capacity := by
  have hfill := within_fill hrate hcapacity h hnow
  unfold take
  dsimp only
  split
  · rename_i hone
    refine ⟨sub_nonneg.mpr hone, ?_⟩
    exact (sub_le_self _ zero_le_one).trans hfill.2
  · exact hfill

/-- From a bucket inside the window, the rest of the window grants at most what is in the bucket and
what still runs in. -/
theorem grantedIn_le_level (hrate : 0 ≤ rate) (hcapacity : 0 ≤ capacity)
    (hsorted : (b.time :: times).Pairwise (· ≤ ·)) (hb : b.Within capacity) (hs : s ≤ b.time)
    (ht : b.time ≤ t) :
    (grantedIn s t (takes rate capacity b times) : K) ≤ b.level + (t - b.time) * rate := by
  induction times generalizing b with
  | nil =>
    have hin : 0 ≤ (t - b.time) * rate := mul_nonneg (sub_nonneg.mpr ht) hrate
    simpa [takes, grantedIn] using add_nonneg hb.1 hin
  | cons now times ih =>
    have hnow : b.time ≤ now := List.rel_of_pairwise_cons hsorted (by simp)
    by_cases hlate : t < now
    · -- the first call is past the window, and with it all the others
      have hzero : grantedIn s t (takes rate capacity b (now :: times)) = 0 := by
        apply grantedIn_eq_zero
        intro c hc
        rcases List.mem_cons.mp (mem_of_mem_takes hc) with heq | hmem
        · rwa [heq]
        · exact hlate.trans_le (List.rel_of_pairwise_cons hsorted.of_cons hmem)
      have hin : 0 ≤ (t - b.time) * rate := mul_nonneg (sub_nonneg.mpr ht) hrate
      simpa [hzero] using add_nonneg hb.1 hin
    · have htail : ((b.take rate capacity now).2.time :: times).Pairwise (· ≤ ·) := by
        rw [take_time]
        exact hsorted.of_cons
      have hrest := ih htail (within_take hrate hcapacity hb hnow)
        (by rw [take_time]; exact hs.trans hnow) (by rw [take_time]; exact not_lt.mp hlate)
      rw [take_time] at hrest
      have hfill : (b.fill rate capacity now).level ≤ b.level + (now - b.time) * rate := min_le_left _ _
      have hgrant := grant_add_level_le rate capacity now b
      rw [takes, grantedIn_cons _ _ (hs.trans hnow) (not_lt.mp hlate)]
      push_cast
      have hsplit : (t - b.time) * rate = (t - now) * rate + (now - b.time) * rate := by ring
      rw [hsplit]
      linarith

/-- In any closed window, a bucket grants at most its capacity and what runs in. -/
theorem grantedIn_le (hrate : 0 ≤ rate) (hcapacity : 0 ≤ capacity)
    (hsorted : (b.time :: times).Pairwise (· ≤ ·)) (hb : b.Within capacity) (hst : s ≤ t) :
    (grantedIn s t (takes rate capacity b times) : K) ≤ capacity + (t - s) * rate := by
  have hwindow : 0 ≤ (t - s) * rate := mul_nonneg (sub_nonneg.mpr hst) hrate
  induction times generalizing b with
  | nil => simpa [takes, grantedIn] using add_nonneg hcapacity hwindow
  | cons now times ih =>
    have hnow : b.time ≤ now := List.rel_of_pairwise_cons hsorted (by simp)
    have hnext := within_take hrate hcapacity hb hnow
    have htail : ((b.take rate capacity now).2.time :: times).Pairwise (· ≤ ·) := by
      rw [take_time]
      exact hsorted.of_cons
    by_cases hin : s ≤ now ∧ now ≤ t
    · -- the first call of the window finds at most a full bucket
      obtain ⟨hearly, hlate⟩ := hin
      have hrest := grantedIn_le_level (s := s) (t := t) hrate hcapacity htail hnext
        (by rwa [take_time]) (by rwa [take_time])
      rw [take_time] at hrest
      have hfill : (b.fill rate capacity now).level ≤ capacity := min_le_right _ _
      have hgrant := grant_add_level_le rate capacity now b
      have hlength : (t - now) * rate ≤ (t - s) * rate := by
        apply mul_le_mul_of_nonneg_right _ hrate
        linarith
      rw [takes, grantedIn_cons _ _ hearly hlate]
      push_cast
      linarith
    · have hout : grantedIn s t (takes rate capacity b (now :: times))
          = grantedIn s t (takes rate capacity (b.take rate capacity now).2 times) := by
        rw [takes, grantedIn, List.countP_cons_of_neg]
        · rfl
        · simp only [Bool.and_eq_true, decide_eq_true_eq, not_and]
          exact fun _ => not_and.mp hin
      rw [hout]
      exact ih htail hnext

end FillingBucket

end Keplor.Lib
