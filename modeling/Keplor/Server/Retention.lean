import Keplor.Lib.Int64
import Keplor.Server.Config
import Keplor.Server.Schema
import Keplor.Store.MemoryEngine
import Keplor.Core.Formats

/-!
# `keplor-server/src/{server,routes}.rs` — who deletes by age

Three places turn a number of days into a cutoff and hand it to the garbage collector: the pass over
the retention tiers, the older pass with one global retention, and the bulk-delete request. Each
computes `now - days * 86400 * 10⁹` in `i64`, and none bounds `days` first. In a release build the
product wraps.

`exactCutoff` is the same expression over the integers. A cutoff above it deletes events that are
younger than the policy says. `cutoff_le_exact_iff` finds the line: the wrapped value is on the safe
side exactly while the window reaches no further back than the clock's own range (`WindowFits`,
some 127 000 days today).
-/

set_option autoImplicit false

namespace Keplor.Server

open Keplor.Lib Keplor.Store

/-! ## The cutoffs -/

/-- The cutoff of a tier in `gc_tiered_loop`; `as i64` keeps the bits. -/
def tierCutoff (now : Int64) (t : RetentionTier) : Int64 :=
  now - (t.days.toInt64 * 86400 * 1000000000)

/-- The cutoff of `gc_loop`. -/
def legacyCutoff (now : Int64) (retentionDays : UInt64) : Int64 :=
  now - (retentionDays.toInt64 * 86400 * 1000000000)

/-- The cutoff of `delete_events_bulk`. -/
def bulkCutoff (now : Int64) (days : UInt32) : Int64 :=
  now - days.toUInt64.toInt64 * 86400 * 1000000000

/-- A day in nanoseconds. -/
def dayNs : Nat := 86400 * 1000000000

/-- The cutoff a policy of so many days asks for. -/
def exactCutoff (now : Int64) (days : Nat) : Int := now.toInt - days * dayNs

/-- The window does not reach back past the first instant of the clock. -/
def WindowFits (now : Int64) (days : Nat) : Prop := (days * dayNs : Int) ≤ now.toInt + 2 ^ 63

instance (now : Int64) (days : Nat) : Decidable (WindowFits now days) :=
  inferInstanceAs (Decidable (_ ≤ _))

theorem toInt_cutoff (now : Int64) (days : UInt64) :
    (now - days.toInt64 * 86400 * 1000000000).toInt =
      (exactCutoff now days.toNat).bmod (2 ^ 64) := by
  have hmul : days.toInt64 * 86400 * 1000000000 = days.toInt64 * (86400 * 1000000000) :=
    Int64.mul_assoc _ _ _
  have hday : ((86400 * 1000000000 : Int64)).toInt = dayNs := by decide
  rw [hmul, toInt_sub_mul, hday, toInt_toInt64, exactCutoff, ← Int.sub_bmod_bmod, Int.bmod_mul_bmod,
    Int.sub_bmod_bmod]

/-- The wrapped cutoff is not above the exact one exactly when the window fits. -/
theorem cutoff_le_exact_iff (now : Int64) (days : UInt64) :
    (now - days.toInt64 * 86400 * 1000000000).toInt ≤ exactCutoff now days.toNat ↔
      WindowFits now days.toNat := by
  rw [toInt_cutoff, bmod_le_self_iff, exactCutoff, WindowFits]
  omega

/-! ## The passes -/

section Passes

variable {db : Keplordb}

/-- One round of `gc_tiered_loop`. A tier that fails is logged and the round goes on. -/
def gcTieredPass (now : Int64) (tiers : List RetentionTier) (s : KdbStore db) : KdbStore db :=
  tiers.foldl (fun s t => if t.days = 0 then s else (s.gcTier t.name (tierCutoff now t)).2) s

/-- One round of `gc_loop`. -/
def gcPass (now : Int64) (retentionDays : UInt64) (s : KdbStore db) : KdbStore db :=
  (s.gcExpired (legacyCutoff now retentionDays)).2

/-- The `older_than_days` arm of `delete_events_bulk`. -/
def deleteOlderThan (now : Int64) (days : UInt32) (s : KdbStore db) :
    Except ServerError Nat × KdbStore db :=
  if days = 0 then (.error (.validation "older_than_days must be > 0"), s)
  else
    let r := s.gcExpired (bulkCutoff now days)
    (r.1.mapError .store, r.2)

/-- A round over the tiers loses only segments below the cutoff of a tier of that name. -/
theorem gcTieredPass_drops (now : Int64) (tiers : List RetentionTier) (s : KdbStore db) :
    KdbStore.Drops
      (fun tier r => ∃ t ∈ tiers, t.name = tier ∧ t.days ≠ 0 ∧ r.tsNs < tierCutoff now t) s
      (gcTieredPass now tiers s) := by
  induction tiers generalizing s with
  | nil => exact KdbStore.Drops.refl _ s
  | cons t tiers ih =>
    rw [gcTieredPass, List.foldl_cons]
    refine KdbStore.Drops.trans ?_ ((ih _).mono ?_)
    · split
      · exact KdbStore.Drops.refl _ s
      · rename_i hdays
        refine (s.gcTier_drops t.name (tierCutoff now t)).mono ?_
        rintro tier r ⟨rfl, hr⟩
        exact ⟨t, by simp, rfl, hdays, hr⟩
    · rintro tier r ⟨u, hu, h⟩
      exact ⟨u, by simp [hu], h⟩

/-- Below a cutoff that is not above the exact one, a row is older than the policy. -/
theorem lt_exact_of_lt {now c : Int64} {days : Nat} {r : LogEvent}
    (hc : c.toInt ≤ exactCutoff now days) (hr : r.tsNs < c) :
    r.tsNs.toInt < exactCutoff now days := by
  rw [Int64.lt_iff_toInt_lt] at hr
  omega

end Passes

/-- For every clock value and every number of days: the cutoff handed to the collector is at most
the exact one if and only if the window fits, in all three places; and where it fits, a segment that
goes holds nothing younger than the policy. -/
theorem retention_spares_young_iff (db : Keplordb) (now : Int64) :
    (∀ t : RetentionTier, (tierCutoff now t).toInt ≤ exactCutoff now t.days.toNat ↔
      WindowFits now t.days.toNat) ∧
    (∀ days : UInt64, (legacyCutoff now days).toInt ≤ exactCutoff now days.toNat ↔
      WindowFits now days.toNat) ∧
    (∀ days : UInt32, (bulkCutoff now days).toInt ≤ exactCutoff now days.toNat ↔
      WindowFits now days.toNat) ∧
    (∀ (tiers : List RetentionTier) (s : KdbStore db),
      (∀ t ∈ tiers, t.days ≠ 0 → WindowFits now t.days.toNat) →
      KdbStore.Drops (fun tier r => ∃ t ∈ tiers, t.name = tier ∧ t.days ≠ 0 ∧
        r.tsNs.toInt < exactCutoff now t.days.toNat) s (gcTieredPass now tiers s)) ∧
    (∀ (days : UInt64) (s : KdbStore db), WindowFits now days.toNat →
      KdbStore.Drops (fun _ r => r.tsNs.toInt < exactCutoff now days.toNat) s (gcPass now days s)) ∧
    (∀ (days : UInt32) (s : KdbStore db), WindowFits now days.toNat →
      KdbStore.Drops (fun _ r => r.tsNs.toInt < exactCutoff now days.toNat) s
        (deleteOlderThan now days s).2) := by
  have htier : ∀ t : RetentionTier, (tierCutoff now t).toInt ≤ exactCutoff now t.days.toNat ↔
      WindowFits now t.days.toNat := fun t => cutoff_le_exact_iff now t.days
  have hbulk : ∀ days : UInt32, (bulkCutoff now days).toInt ≤ exactCutoff now days.toNat ↔
      WindowFits now days.toNat := fun days => cutoff_le_exact_iff now days.toUInt64
  refine ⟨htier, cutoff_le_exact_iff now, hbulk, ?_, ?_, ?_⟩
  · intro tiers s hfits
    refine (gcTieredPass_drops now tiers s).mono ?_
    rintro tier r ⟨t, ht, hname, hdays, hr⟩
    exact ⟨t, ht, hname, hdays, lt_exact_of_lt ((htier t).mpr (hfits t ht hdays)) hr⟩
  · intro days s hfits
    exact (s.gcExpired_drops _).mono fun _ r hr =>
      lt_exact_of_lt ((cutoff_le_exact_iff now days).mpr hfits) hr
  · intro days s hfits
    rw [deleteOlderThan]
    split
    · exact KdbStore.Drops.refl _ s
    · exact (s.gcExpired_drops _).mono fun _ r hr => lt_exact_of_lt ((hbulk days).mpr hfits) hr

/-- The first of January 2026. -/
def newYear2026 : Int64 := 1767225600000000000

/-- Ninety days fit. -/
theorem retention_spares_young_ninety_days :
    WindowFits newYear2026 90 ∧
      (tierCutoff newYear2026 ⟨"pro", 90⟩).toInt ≤ exactCutoff newYear2026 90 :=
  ⟨by decide, ((retention_spares_young_iff memoryDb newYear2026).1 ⟨"pro", 90⟩).mpr (by decide)⟩

/-- A configuration meant to keep everything for five centuries. -/
def fiveCenturies : ServerConfig where
  retention := { defaultTier := "archive", tiers := [⟨"archive", 200000⟩] }

/-- A store whose one event was written this instant. -/
def freshStore : KdbStore memoryDb where
  engines := [("archive", { segs := [[toLogEvent Core.textFormats
    { Core.sampleEvent with tsNs := newYear2026 }]] })]

/-- Two hundred thousand days pass validation, put the cutoff into the future, and the event of this
instant is dropped with its segment. -/
theorem five_centuries_drop_everything :
    fiveCenturies.validate (fun _ => false) = .ok () ∧
    exactCutoff newYear2026 200000 < (tierCutoff newYear2026 ⟨"archive", 200000⟩).toInt ∧
    newYear2026 < tierCutoff newYear2026 ⟨"archive", 200000⟩ ∧
    (gcTieredPass newYear2026 fiveCenturies.retention.tiers freshStore).engines.map
      (fun p => (p.1, p.2.segs.length)) = [("archive", 0)] := by
  decide +kernel

end Keplor.Server
