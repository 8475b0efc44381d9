import Keplor.Server.Rollups
import Keplor.Store.Days

/-!
# The day of a timestamp, twice

The rollup routes reduce a timestamp to the start of its day in epoch seconds, the archiver to the text
of a date. Both divide towards zero, so both ask for the same day number and never disagree; it is the
day of the timestamp from 1970 on. Before, an instant inside a day is given the day after, and only
the first instant of a day its own (`unixDay_eq_floor_iff`).
-/

set_option autoImplicit false

namespace Keplor.Server

open Keplor.Lib Keplor.Store

theorem unixDay_mono {a b : Int} (h : a ≤ b) : unixDay a ≤ unixDay b := by
  rcases Int.lt_or_le a 0 with ha | ha <;> rcases Int.lt_or_le b 0 with hb | hb
  · rw [unixDay_of_neg ha, unixDay_of_neg hb, nsPerDay]
    omega
  · rw [unixDay_of_neg ha, unixDay_of_nonneg hb, nsPerDay]
    omega
  · omega
  · rw [unixDay_of_nonneg ha, unixDay_of_nonneg hb, nsPerDay]
    omega

/-- Rounding towards zero rounds down for what is not negative and for whole days. -/
theorem unixDay_eq_floor_iff (ns : Int) :
    unixDay ns = ns / nsPerDay ↔ 0 ≤ ns ∨ nsPerDay ∣ ns := by
  rcases Int.lt_or_le ns 0 with h | h
  · rw [unixDay_of_neg h, nsPerDay]
    omega
  · exact ⟨fun _ => .inl h, fun _ => unixDay_of_nonneg h⟩

theorem toInt_nsToDayEpoch (ns : Int64) : (nsToDayEpoch ns).toInt = 86400 * unixDay ns.toInt := by
  have hsecs : (ns / 1000000000).toInt = ns.toInt.tdiv 1000000000 :=
    Int64.toInt_div_of_ne_right _ _ (by decide)
  have hmod : (ns / 1000000000 % 86400).toInt = (ns.toInt.tdiv 1000000000).tmod 86400 := by
    rw [Int64.toInt_mod, hsecs]
    rfl
  have hsplit := Int.tdiv_mul_add_tmod (ns.toInt.tdiv 1000000000) 86400
  obtain ⟨hlo, hhi⟩ := unixDay_bounds ns
  have hexact : ns.toInt.tdiv 1000000000 - (ns.toInt.tdiv 1000000000).tmod 86400 =
      86400 * unixDay ns.toInt := by
    rw [unixDay]
    omega
  rw [nsToDayEpoch, Int64.toInt_sub, hsecs, hmod, hexact]
  exact Int.bmod_eq_of_le_mul_two (by omega) (by omega)

theorem nsToDayEpoch_le_iff {a b : Int64} :
    nsToDayEpoch a ≤ nsToDayEpoch b ↔ unixDay a.toInt ≤ unixDay b.toInt := by
  rw [Int64.le_iff_toInt_le, toInt_nsToDayEpoch, toInt_nsToDayEpoch]
  omega

theorem nsToDayEpoch_inj {a b : Int64} :
    nsToDayEpoch a = nsToDayEpoch b ↔ unixDay a.toInt = unixDay b.toInt := by
  rw [← Int64.toInt_inj, toInt_nsToDayEpoch, toInt_nsToDayEpoch]
  omega

/-- The day that contains an instant, as the archiver would have to write it. -/
theorem tsNsToDay_eq_dayText_iff (ns : Int64) :
    (∃ a : Date, a.dayNumber = ns.toInt / nsPerDay ∧ tsNsToDay ns = dayText a) ↔
      unixDay ns.toInt = ns.toInt / nsPerDay := by
  have hlt := ns.toInt_lt
  have hle := ns.le_toInt
  constructor
  · rintro ⟨a, hday, htext⟩
    have ha : a = civilDate (ns.toInt / nsPerDay) := by
      rw [← Date.dayNumber_inj, hday, dayNumber_civilDate]
    have hfour : FourDigits a := by
      rw [ha]
      exact fourDigits_civilDate (by rw [nsPerDay]; omega) (by rw [nsPerDay]; omega)
    rw [tsNsToDay_eq, dayText_inj (fourDigits_of_ns ns) hfour, ha, civilDate_inj] at htext
    exact htext
  · intro h
    exact ⟨civilDate (ns.toInt / nsPerDay), dayNumber_civilDate _, by rw [tsNsToDay_eq, h]⟩

/-- Both reductions are the floor exactly from 1970 on and at the first instant of a day; they are
monotone and agree on which instants share a day throughout. -/
theorem day_buckets_floor_iff (ns : Int64) :
    ((nsToDayEpoch ns).toInt = 86400 * (ns.toInt / nsPerDay) ↔
      0 ≤ ns.toInt ∨ nsPerDay ∣ ns.toInt) ∧
    ((∃ a : Date, a.dayNumber = ns.toInt / nsPerDay ∧ tsNsToDay ns = dayText a) ↔
      0 ≤ ns.toInt ∨ nsPerDay ∣ ns.toInt) ∧
    (∀ later : Int64, ns ≤ later →
      nsToDayEpoch ns ≤ nsToDayEpoch later ∧ tsNsToDay ns ≤ tsNsToDay later) ∧
    ∀ other : Int64, nsToDayEpoch ns = nsToDayEpoch other ↔ tsNsToDay ns = tsNsToDay other := by
  refine ⟨?_, ?_, fun later hle => ⟨?_, ?_⟩, fun other => ?_⟩
  · rw [← unixDay_eq_floor_iff, toInt_nsToDayEpoch]
    omega
  · rw [← unixDay_eq_floor_iff, tsNsToDay_eq_dayText_iff]
  · exact nsToDayEpoch_le_iff.mpr (unixDay_mono (Int64.le_iff_toInt_le.mp hle))
  · show ¬ tsNsToDay later < tsNsToDay ns
    rw [tsNsToDay_lt_iff, Int.not_lt]
    exact unixDay_mono (Int64.le_iff_toInt_le.mp hle)
  · rw [nsToDayEpoch_inj, tsNsToDay_inj]

theorem day_buckets_second_day :
    (3600000000000 : Int64) ≤ 90000000000000 ∧
    nsToDayEpoch 3600000000000 ≤ nsToDayEpoch 90000000000000 ∧
    tsNsToDay 3600000000000 ≤ tsNsToDay 90000000000000 := by
  have h : (3600000000000 : Int64) ≤ 90000000000000 := by decide
  exact ⟨h, (day_buckets_floor_iff 3600000000000).2.2.1 _ h⟩

/-- One nanosecond before 1970 is put on the day after. -/
theorem before_epoch_next_day :
    ¬ ((nsToDayEpoch (-1)).toInt = 86400 * ((-1 : Int64).toInt / nsPerDay) ∧
      ∃ a : Date, a.dayNumber = (-1 : Int64).toInt / nsPerDay ∧ tsNsToDay (-1) = dayText a) := by
  intro h
  have hday : (nsToDayEpoch (-1)).toInt = 0 := by decide
  rw [hday] at h
  exact absurd h.1 (by decide)

end Keplor.Server
