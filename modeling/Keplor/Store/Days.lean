import Keplor.Lib.Calendar
import Keplor.Lib.Numerals
import Keplor.Store.Archive
import Mathlib.Tactic.IntervalCases

/-!
# `keplor-store/src/archive.rs` — day numbers and dates

`civil_from_days` counts in eras of 400 years that begin on the first of March, so that the leap day
is the last day of its year. The lemmas follow its steps: the era, the year of the era, the day of that
year, the month. `marchStart` is what the steps add up to, and `dayNumber_civilDate` says that the
calendar's count undoes them.

The function mixes `i64` and `u32`. `civilFromDaysChecked` is the same text with every operation
watched for leaving its type; `civilFromDaysChecked_eq` says that none does, as long as the two
operations on the argument stay inside `i64`.
-/

set_option autoImplicit false

namespace Keplor.Store

open Keplor.Lib Keplor.Core

/-! ## The steps -/

/-- The era of a day: 400 years from the first of March of the year 0. -/
def eraOf (days : Int) : Int := (days + 719468) / 146097

/-- The day of its era. -/
def dayOfEra (days : Int) : Nat := ((days + 719468) % 146097).toNat

/-- The year of the era a day of the era is in. -/
def yearOfEra (doe : Nat) : Nat := (doe - doe / 1460 + doe / 36524 - doe / 146096) / 365

/-- The day of the year, from the first of March. -/
def dayOfYear (doe : Nat) : Nat :=
  doe - (365 * yearOfEra doe + yearOfEra doe / 4 - yearOfEra doe / 100)

/-- The month, counted from March. -/
def marchMonth (doy : Nat) : Nat := (5 * doy + 2) / 153

/-- The month, counted from January. -/
def monthOf (mp : Nat) : Nat := if mp < 10 then mp + 3 else mp - 9

/-- The year a month counted from March is in, where `y` is the year of its March. -/
def yearOf (y : Int) (mp : Nat) : Int := if monthOf mp ≤ 2 then y + 1 else y

theorem dayOfEra_lt (days : Int) : dayOfEra days < 146097 := by
  rw [dayOfEra]
  omega

/-- Rounding towards zero after stepping back rounds down. -/
theorem tdiv_eraOf (days : Int) :
    Int.tdiv (if 0 ≤ days + 719468 then days + 719468 else days + 719468 - 146096) 146097 =
      eraOf days := by
  unfold eraOf
  split
  · rw [Int.tdiv_eq_ediv_of_nonneg ‹_›]
  · rename_i hneg
    have hsign : Int.sign 146097 = 1 := rfl
    rw [Int.tdiv_eq_ediv, hsign]
    split <;> omega

theorem civilFromDays_eq (days : Int) :
    civilFromDays days =
      let doy := dayOfYear (dayOfEra days)
      (yearOf (yearOfEra (dayOfEra days) + eraOf days * 400) (marchMonth doy),
        monthOf (marchMonth doy), doy - (153 * marchMonth doy + 2) / 5 + 1) := by
  have hdoe : (days + 719468 - eraOf days * 146097).toNat = dayOfEra days := by
    unfold dayOfEra eraOf
    omega
  unfold civilFromDays
  simp only [tdiv_eraOf, hdoe]
  rfl

/-- Within one of the four centuries of an era the year is found, and the day of the year is left;
only a year before a leap day has 366 days. -/
theorem yearOfEra_of_century {c doe yoe : Nat} (hc : c < 4) (h0 : 36524 * c ≤ doe)
    (h1 : doe < 36524 * (c + 1)) (hy : yoe = (doe - doe / 1460 + c) / 365) :
    yoe / 100 = c ∧ 365 * yoe + yoe / 4 ≤ doe + c ∧ doe + c ≤ 365 * yoe + yoe / 4 + 365 ∧
      (doe + c = 365 * yoe + yoe / 4 + 365 → yoe % 4 = 3 ∧ yoe % 100 ≠ 99) :=
  ⟨by omega, by omega, by omega, by omega⟩

theorem yearOfEra_spec {doe : Nat} (h : doe < 146097) :
    yearOfEra doe < 400 ∧
    365 * yearOfEra doe + yearOfEra doe / 4 ≤ doe + yearOfEra doe / 100 ∧
    doe + yearOfEra doe / 100 ≤ 365 * yearOfEra doe + yearOfEra doe / 4 + 365 ∧
    (doe + yearOfEra doe / 100 = 365 * yearOfEra doe + yearOfEra doe / 4 + 365 →
      IsLeap (yearOfEra doe + 1 : Nat)) := by
  by_cases hlast : doe = 146096
  · -- the leap day of the last year of the era, the only day the fourth term is for
    subst hlast
    have h399 : yearOfEra 146096 = 399 := by decide
    rw [h399]
    decide
  have hy : yearOfEra doe = (doe - doe / 1460 + doe / 36524) / 365 := by
    rw [yearOfEra, Nat.div_eq_of_lt (show doe < 146096 by omega), Nat.sub_zero]
  obtain ⟨hcentury, hle, hge, hleap⟩ :=
    yearOfEra_of_century (c := doe / 36524) (by omega) (by omega) (by omega) hy
  rw [hcentury]
  refine ⟨by omega, hle, hge, fun h => ?_⟩
  obtain ⟨h4, h100⟩ := hleap h
  unfold IsLeap
  omega

/-- The day of the year, with nothing cut off. -/
theorem dayOfYear_spec {doe : Nat} (h : doe < 146097) :
    doe + yearOfEra doe / 100 =
      365 * yearOfEra doe + yearOfEra doe / 4 + dayOfYear doe ∧ dayOfYear doe ≤ 365 ∧
    (dayOfYear doe = 365 → IsLeap (yearOfEra doe + 1 : Nat)) := by
  obtain ⟨-, hle, hge, hleap⟩ := yearOfEra_spec h
  have hsum : doe + yearOfEra doe / 100 =
      365 * yearOfEra doe + yearOfEra doe / 4 + dayOfYear doe := by
    rw [dayOfYear]
    omega
  exact ⟨hsum, by omega, fun h => hleap (by omega)⟩

/-! ## Months counted from March -/

theorem marchMonth_le {doy : Nat} (h : doy ≤ 365) : marchMonth doy ≤ 11 := by
  rw [marchMonth]
  omega

/-- A month begins on a day of the year not after the given one. -/
theorem marchMonth_start_le (doy : Nat) : (153 * marchMonth doy + 2) / 5 ≤ doy := by
  rw [marchMonth]
  omega

/-- And ends after it. -/
theorem lt_marchMonth_end (doy : Nat) : doy < (153 * (marchMonth doy + 1) + 2) / 5 := by
  rw [marchMonth]
  omega

theorem monthOf_mem {mp : Nat} (h : mp ≤ 11) : 1 ≤ monthOf mp ∧ monthOf mp ≤ 12 := by
  rw [monthOf]
  split <;> omega

/-- The months from March on begin 306 days before the next January, less the year's length. -/
theorem monthStart_monthOf (y : Int) {mp : Nat} (h : mp ≤ 11) :
    yearStart (yearOf y mp) + monthStart (yearOf y mp) (monthOf mp) =
      yearStart (y + 1) - 306 + (153 * mp + 2) / 5 := by
  have hyear := yearStart_succ y
  by_cases hleap : IsLeap y <;> simp only [yearLength, hleap, if_true, if_false] at hyear <;>
    interval_cases mp <;>
    simp [yearOf, monthOf, monthStart, monthLength, hleap] <;> omega

/-- A month from March on is as long as the steps of 153 days in five months say; February is what
is left of the year. -/
theorem monthLength_monthOf (y : Int) {mp : Nat} (h : mp ≤ 10) :
    (153 * mp + 2) / 5 + monthLength (yearOf y mp) (monthOf mp) = (153 * (mp + 1) + 2) / 5 := by
  interval_cases mp <;> simp [monthOf, monthLength]

/-- The first of March of a year of an era. -/
theorem marchStart (era : Int) {yoe : Nat} (h : yoe < 400) :
    yearStart (yoe + era * 400 + 1) - 306 =
      era * 146097 + 365 * yoe + (yoe / 4 : Nat) - (yoe / 100 : Nat) - 719468 := by
  have h1970 : leapsBefore 1970 = 477 := by decide
  rw [yearStart, h1970, leapsBefore, Int.add_sub_cancel]
  omega

/-! ## The date of a day -/

/-- Adding whole eras to a year changes nothing about its leap day. -/
theorem isLeap_add_eras (y era : Int) : IsLeap (y + era * 400) ↔ IsLeap y := by
  unfold IsLeap
  omega

theorem day_le_monthLength (days : Int) :
    let doy := dayOfYear (dayOfEra days)
    doy - (153 * marchMonth doy + 2) / 5 + 1 ≤
      monthLength (yearOf (yearOfEra (dayOfEra days) + eraOf days * 400) (marchMonth doy))
        (monthOf (marchMonth doy)) := by
  intro doy
  obtain ⟨-, hdoy, hleap⟩ := dayOfYear_spec (dayOfEra_lt days)
  have hstart := marchMonth_start_le doy
  have hend := lt_marchMonth_end doy
  have hmp : marchMonth doy ≤ 11 := marchMonth_le hdoy
  by_cases hfeb : marchMonth doy = 11
  · -- February: the 366th day is there in leap years only
    have hlong : 28 ≤ monthLength (yearOf (yearOfEra (dayOfEra days) + eraOf days * 400) 11)
        (monthOf 11) := by
      show 28 ≤ if IsLeap _ then 29 else 28
      split <;> omega
    rw [hfeb] at hstart ⊢
    rcases Nat.lt_or_ge doy 365 with hlt | hge
    · omega
    · have h365 : doy = 365 := by omega
      have hyear : IsLeap (yearOf (yearOfEra (dayOfEra days) + eraOf days * 400) 11) := by
        show IsLeap (yearOfEra (dayOfEra days) + eraOf days * 400 + 1)
        rw [Int.add_right_comm, isLeap_add_eras]
        exact_mod_cast hleap h365
      have h29 : monthLength (yearOf (yearOfEra (dayOfEra days) + eraOf days * 400) 11)
          (monthOf 11) = 29 := by
        simp [monthOf, monthLength, hyear]
      omega
  · have := monthLength_monthOf (yearOfEra (dayOfEra days) + eraOf days * 400)
      (show marchMonth doy ≤ 10 by omega)
    omega

/-- The date `civil_from_days` returns. -/
def civilDate (days : Int) : Date where
  year := (civilFromDays days).1
  month := (civilFromDays days).2.1
  day := (civilFromDays days).2.2
  month_pos := by
    rw [civilFromDays_eq]
    exact (monthOf_mem (marchMonth_le (dayOfYear_spec (dayOfEra_lt days)).2.1)).1
  month_le := by
    rw [civilFromDays_eq]
    exact (monthOf_mem (marchMonth_le (dayOfYear_spec (dayOfEra_lt days)).2.1)).2
  day_pos := by
    rw [civilFromDays_eq]
    exact Nat.le_add_left 1 _
  day_le := by
    rw [civilFromDays_eq]
    exact day_le_monthLength days

/-- The count of days undoes `civil_from_days`. -/
theorem dayNumber_civilDate (days : Int) : (civilDate days).dayNumber = days := by
  have hlt := dayOfEra_lt days
  obtain ⟨hyoe, -, -, -⟩ := yearOfEra_spec hlt
  obtain ⟨hsum, hdoy, -⟩ := dayOfYear_spec hlt
  have hmonth := monthStart_monthOf (yearOfEra (dayOfEra days) + eraOf days * 400)
    (marchMonth_le hdoy)
  have hstart := marchMonth_start_le (dayOfYear (dayOfEra days))
  have hmarch := marchStart (eraOf days) hyoe
  have hera : eraOf days * 146097 + dayOfEra days = days + 719468 := by
    unfold eraOf dayOfEra
    omega
  simp only [Date.dayNumber, civilDate, civilFromDays_eq]
  omega

theorem civilDate_inj {a b : Int} : civilDate a = civilDate b ↔ a = b := by
  rw [← Date.dayNumber_inj, dayNumber_civilDate, dayNumber_civilDate]

theorem civilDate_lt_iff {a b : Int} : civilDate a < civilDate b ↔ a < b := by
  rw [← Date.dayNumber_lt_iff, dayNumber_civilDate, dayNumber_civilDate]

/-! ## The same steps in machine words -/

/-- A value that has to fit an `i64`. -/
def i64 (x : Int) : Option Int := if -2 ^ 63 ≤ x ∧ x < 2 ^ 63 then some x else none

/-- A value that has to fit a `u32`. -/
def u32 (x : Nat) : Option Nat := if x < 2 ^ 32 then some x else none

/-- A difference that has to fit a `u32`. -/
def u32Sub (a b : Nat) : Option Nat := if b ≤ a then some (a - b) else none

theorem i64_eq {x : Int} (h : -2 ^ 63 ≤ x ∧ x < 2 ^ 63) : i64 x = some x := if_pos h

theorem u32_eq {x : Nat} (h : x < 2 ^ 32) : u32 x = some x := if_pos h

theorem u32Sub_eq {a b : Nat} (h : b ≤ a) : u32Sub a b = some (a - b) := if_pos h

/-- The second half of `civil_from_days`, on `u32`, with every operation checked. -/
def civilFromDayOfEra (era : Int) (doe : Nat) : Option (Int × Nat × Nat) := do
  let yoe := (← u32Sub (← u32 ((← u32Sub doe (doe / 1460)) + doe / 36524)) (doe / 146096)) / 365
  let y ← i64 (yoe + (← i64 (era * 400)))
  let yearStart ← u32Sub (← u32 ((← u32 (365 * yoe)) + yoe / 4)) (yoe / 100)
  let doy ← u32Sub doe yearStart
  let mp := (← u32 ((← u32 (5 * doy)) + 2)) / 153
  let monthStart := (← u32 ((← u32 (153 * mp)) + 2)) / 5
  let d ← u32 ((← u32Sub doy monthStart) + 1)
  let m ← (if mp < 10 then u32 (mp + 3) else u32Sub mp 9)
  let y ← (if m ≤ 2 then i64 (y + 1) else some y)
  return (y, m, d)

/-- `civil_from_days` with every operation checked: `none` where one leaves its type. -/
def civilFromDaysChecked (days : Int64) : Option (Int × Nat × Nat) := do
  let z ← i64 (days.toInt + 719468)
  let shifted ← (if 0 ≤ z then some z else i64 (z - 146096))
  let era := Int.tdiv shifted 146097
  let eraStart ← i64 (era * 146097)
  -- `as u32` keeps the low 32 bits
  let doe := ((← i64 (z - eraStart)) % 2 ^ 32).toNat
  civilFromDayOfEra era doe

/-- The two operations on the argument stay inside `i64`. -/
def DayInRange (days : Int64) : Prop :=
  days.toInt + 719468 < 2 ^ 63 ∧ (days.toInt + 719468 < 0 → -2 ^ 63 ≤ days.toInt + 719468 - 146096)

instance (days : Int64) : Decidable (DayInRange days) := inferInstanceAs (Decidable (_ ∧ _))

/-- From the day of the era on no operation leaves its type. -/
theorem civilFromDayOfEra_eq {era : Int} {doe : Nat} (hdoe : doe < 146097)
    (hlo : -2 ^ 62 ≤ era * 400) (hhi : era * 400 < 2 ^ 62) :
    civilFromDayOfEra era doe =
      some (yearOf (yearOfEra doe + era * 400) (marchMonth (dayOfYear doe)),
        monthOf (marchMonth (dayOfYear doe)),
        dayOfYear doe - (153 * marchMonth (dayOfYear doe) + 2) / 5 + 1) := by
  obtain ⟨hyoe, hle, -, -⟩ := yearOfEra_spec hdoe
  obtain ⟨hsum, hdoy, -⟩ := dayOfYear_spec hdoe
  have hmp := marchMonth_le hdoy
  have hstart := marchMonth_start_le (dayOfYear doe)
  have hmonth : (if marchMonth (dayOfYear doe) < 10 then u32 (marchMonth (dayOfYear doe) + 3)
      else u32Sub (marchMonth (dayOfYear doe)) 9) = some (monthOf (marchMonth (dayOfYear doe))) := by
    unfold monthOf
    split
    · exact u32_eq (by omega)
    · exact u32Sub_eq (by omega)
  have hyear : (if monthOf (marchMonth (dayOfYear doe)) ≤ 2 then i64 (yearOfEra doe + era * 400 + 1)
      else some (yearOfEra doe + era * 400)) =
      some (yearOf (yearOfEra doe + era * 400) (marchMonth (dayOfYear doe))) := by
    unfold yearOf
    split
    · exact i64_eq (by omega)
    · rfl
  unfold civilFromDayOfEra
  -- the year of the era
  rw [u32Sub_eq (by omega), Option.bind_eq_bind, Option.bind_some, u32_eq (by omega),
    Option.bind_some, u32Sub_eq (by omega), Option.bind_some, ← yearOfEra]
  simp only [Option.bind_eq_bind]
  rw [i64_eq (by omega), Option.bind_some, i64_eq (by omega), Option.bind_some]
  -- the day of that year
  rw [u32_eq (by omega), Option.bind_some, u32_eq (by omega), Option.bind_some,
    u32Sub_eq (by omega), Option.bind_some, u32Sub_eq (by omega), Option.bind_some, ← dayOfYear]
  -- the month and the day of the month
  rw [u32_eq (by omega), Option.bind_some, u32_eq (by omega), Option.bind_some, ← marchMonth,
    u32_eq (by omega), Option.bind_some, u32_eq (by omega), Option.bind_some, u32Sub_eq hstart,
    Option.bind_some, u32_eq (by omega), Option.bind_some, hmonth, Option.bind_some, hyear]
  rfl

theorem civilFromDaysChecked_eq {days : Int64} (h : DayInRange days) :
    civilFromDaysChecked days = some (civilFromDays days.toInt) := by
  have hbound := days.le_toInt
  have hlt := dayOfEra_lt days.toInt
  have hera : eraOf days.toInt * 146097 + dayOfEra days.toInt = days.toInt + 719468 := by
    unfold eraOf dayOfEra
    omega
  have hshift : (if 0 ≤ days.toInt + 719468 then some (days.toInt + 719468)
      else i64 (days.toInt + 719468 - 146096)) =
      some (if 0 ≤ days.toInt + 719468 then days.toInt + 719468
        else days.toInt + 719468 - 146096) := by
    split
    · rfl
    · exact i64_eq (by unfold DayInRange at h; omega)
  have hdoe : ((days.toInt + 719468 - eraOf days.toInt * 146097) % 2 ^ 32).toNat =
      dayOfEra days.toInt := by
    omega
  obtain ⟨hhi, hlo⟩ := h
  unfold civilFromDaysChecked
  simp only [Option.bind_eq_bind]
  rw [i64_eq (by omega), Option.bind_some, hshift, Option.bind_some, tdiv_eraOf, i64_eq (by omega),
    Option.bind_some, i64_eq (by omega), Option.bind_some, hdoe,
    civilFromDayOfEra_eq hlt (by omega) (by omega), civilFromDays_eq]

/-! ## The day of a timestamp -/

/-- The nanoseconds of a day. -/
def nsPerDay : Int := 86400 * 1000000000

/-- The day number `ts_ns_to_day` computes: two divisions towards zero. -/
def unixDay (ns : Int) : Int := Int.tdiv (Int.tdiv ns 1000000000) 86400

theorem unixDay_of_nonneg {ns : Int} (h : 0 ≤ ns) : unixDay ns = ns / nsPerDay := by
  have hsecs : 0 ≤ ns / 1000000000 := by omega
  rw [unixDay, Int.tdiv_eq_ediv_of_nonneg h, Int.tdiv_eq_ediv_of_nonneg hsecs, nsPerDay]
  omega

/-- The day number is odd in the timestamp: that is what rounding towards zero means. -/
theorem unixDay_neg (ns : Int) : unixDay (-ns) = -unixDay ns := by
  rw [unixDay, unixDay, Int.neg_tdiv, Int.neg_tdiv]

theorem unixDay_of_neg {ns : Int} (h : ns < 0) : unixDay ns = -(-ns / nsPerDay) := by
  rw [← unixDay_of_nonneg (by omega), unixDay_neg, Int.neg_neg]

/-- The day number in machine words: no division overflows. -/
theorem toInt_unixDay (ns : Int64) : (ns / 1000000000 / 86400).toInt = unixDay ns.toInt := by
  rw [Int64.toInt_div_of_ne_right _ _ (by decide), Int64.toInt_div_of_ne_right _ _ (by decide)]
  rfl

theorem unixDay_bounds (ns : Int64) :
    -106752 ≤ unixDay ns.toInt ∧ unixDay ns.toInt ≤ 106751 := by
  have hlt := ns.toInt_lt
  have hle := ns.le_toInt
  rcases Int.lt_or_le ns.toInt 0 with h | h
  · rw [unixDay_of_neg h, nsPerDay]
    omega
  · rw [unixDay_of_nonneg h, nsPerDay]
    omega

/-- Every day number `ts_ns_to_day` asks for is in range. -/
theorem dayInRange_of_ns (ns : Int64) : DayInRange (ns / 1000000000 / 86400) := by
  have := unixDay_bounds ns
  rw [DayInRange, toInt_unixDay]
  omega

/-! ## The text of a date -/

/-- A date as `ts_ns_to_day` writes it. -/
def dayText (a : Date) : String :=
  padded 4 a.year ++ "-" ++ padded 2 a.month ++ "-" ++ padded 2 a.day

theorem tsNsToDay_eq (ns : Int64) : tsNsToDay ns = dayText (civilDate (unixDay ns.toInt)) := rfl

theorem toList_padded {w n : Nat} (hw : 0 < w) (h : n < 10 ^ w) :
    (padded w n).toList = numeral 10 w n := by
  have hneg : ¬ (n : Int) < 0 := by omega
  rw [← (replicate_append_toDigits (b := 10) (by omega) hw h).2, padded, String.toList_ofList]
  simp [hneg]

/-- The years whose text has four digits. -/
def FourDigits (a : Date) : Prop := 0 ≤ a.year ∧ a.year < 10000

theorem month_lt (a : Date) : a.month < 10 ^ 2 := by
  have := a.month_le
  omega

theorem day_lt (a : Date) : a.day < 10 ^ 2 := by
  have h : monthLength a.year a.month ≤ 31 := by
    unfold monthLength
    split_ifs <;> omega
  have := a.day_le
  omega

theorem toList_dayText {a : Date} (h : FourDigits a) :
    (dayText a).toList = numeral 10 4 a.year.toNat ++
      ('-' :: numeral 10 2 a.month ++ ('-' :: numeral 10 2 a.day)) := by
  have hyear : (padded 4 a.year).toList = numeral 10 4 a.year.toNat := by
    obtain ⟨n, hn⟩ := Int.eq_ofNat_of_zero_le h.1
    have hlt := h.2
    rw [hn] at hlt ⊢
    exact toList_padded (by omega) (by omega)
  simp [dayText, hyear, toList_padded (by omega) (month_lt a), toList_padded (by omega) (day_lt a)]

/-- The order of the texts is the order of the dates. -/
theorem dayText_lt_iff {a b : Date} (ha : FourDigits a) (hb : FourDigits b) :
    dayText a < dayText b ↔ a < b := by
  have hyear : a.year.toNat < 10 ^ 4 ∧ b.year.toNat < 10 ^ 4 := by
    unfold FourDigits at ha hb
    omega
  have hten : 0 < 10 ∧ 10 ≤ 16 := by omega
  rw [String.lt_iff, toList_dayText ha, toList_dayText hb,
    append_lt_append_iff (by simp [length_numeral]),
    append_lt_append_iff (by simp [length_numeral]),
    List.cons_lt_cons_iff, List.cons_lt_cons_iff, List.cons.injEq,
    numeral_lt_iff hten.1 hten.2 hyear.1 hyear.2, numeral_inj hten.1 hten.2 hyear.1 hyear.2,
    numeral_lt_iff hten.1 hten.2 (month_lt a) (month_lt b),
    numeral_inj hten.1 hten.2 (month_lt a) (month_lt b),
    numeral_lt_iff hten.1 hten.2 (day_lt a) (day_lt b), Date.lt_def]
  have hlt : a.year.toNat < b.year.toNat ↔ a.year < b.year := by
    unfold FourDigits at ha hb
    omega
  have heq : a.year.toNat = b.year.toNat ↔ a.year = b.year := by
    unfold FourDigits at ha hb
    omega
  rw [hlt, heq]
  simp

theorem dayText_inj {a b : Date} (ha : FourDigits a) (hb : FourDigits b) :
    dayText a = dayText b ↔ a = b := by
  refine ⟨fun h => ?_, fun h => h ▸ rfl⟩
  have hirr : ¬ dayText b < dayText b := by
    rw [dayText_lt_iff hb hb, Date.lt_def]
    omega
  rcases Date.lt_trichotomy a b with hlt | heq | hlt
  · rw [← dayText_lt_iff ha hb, h] at hlt
    exact absurd hlt hirr
  · exact heq
  · rw [← dayText_lt_iff hb ha, h] at hlt
    exact absurd hlt hirr

/-- Every day that nanoseconds in `i64` reach lies in the eras of 1600 and 2000. -/
theorem fourDigits_civilDate {days : Int} (hlo : -106752 ≤ days) (hhi : days ≤ 106751) :
    FourDigits (civilDate days) := by
  obtain ⟨hyoe, -⟩ := yearOfEra_spec (dayOfEra_lt days)
  have hera : 4 ≤ eraOf days ∧ eraOf days ≤ 5 := by
    unfold eraOf
    omega
  simp only [FourDigits, civilDate, civilFromDays_eq, yearOf]
  split <;> omega

theorem fourDigits_of_ns (ns : Int64) : FourDigits (civilDate (unixDay ns.toInt)) :=
  fourDigits_civilDate (unixDay_bounds ns).1 (unixDay_bounds ns).2

/-- Two timestamps have one text exactly when they have one day number. -/
theorem tsNsToDay_inj {a b : Int64} : tsNsToDay a = tsNsToDay b ↔ unixDay a.toInt = unixDay b.toInt := by
  rw [tsNsToDay_eq, tsNsToDay_eq, dayText_inj (fourDigits_of_ns a) (fourDigits_of_ns b),
    civilDate_inj]

theorem tsNsToDay_lt_iff {a b : Int64} :
    tsNsToDay a < tsNsToDay b ↔ unixDay a.toInt < unixDay b.toInt := by
  rw [tsNsToDay_eq, tsNsToDay_eq, dayText_lt_iff (fourDigits_of_ns a) (fourDigits_of_ns b),
    civilDate_lt_iff]

/-! ## The calendar's inverse -/

/-- For every day number that `i64` leaves room for, `civil_from_days` stays inside its types and
returns the one valid date that the calendar counts as that day. -/
theorem civilFromDays_inverts_calendar :
    (∀ z : Int64, DayInRange z → ∃ (y : Int) (m d : Nat), civilFromDaysChecked z = some (y, m, d) ∧
      civilFromDays z.toInt = (y, m, d) ∧ (1 ≤ m ∧ m ≤ 12) ∧ (1 ≤ d ∧ d ≤ monthLength y m) ∧
      yearStart y + (monthStart y m + (d - 1) : Nat) = z.toInt) ∧
    ∀ ns : Int64, DayInRange (ns / 1000000000 / 86400) := by
  refine ⟨fun z hz => ?_, dayInRange_of_ns⟩
  exact ⟨_, _, _, civilFromDaysChecked_eq hz, rfl, ⟨(civilDate z.toInt).month_pos,
    (civilDate z.toInt).month_le⟩, ⟨(civilDate z.toInt).day_pos, (civilDate z.toInt).day_le⟩,
    dayNumber_civilDate z.toInt⟩

/-- The leap day of 2000: day 11016, and the date counts back to it. -/
theorem civilFromDays_leap_day :
    DayInRange 11016 ∧ civilFromDaysChecked 11016 = some (2000, 2, 29) ∧
    yearStart 2000 + (monthStart 2000 2 + (29 - 1) : Nat) = (11016 : Int64).toInt := by
  have hin : DayInRange 11016 := by decide
  have hdate : civilFromDaysChecked 11016 = some (2000, 2, 29) := by decide +kernel
  obtain ⟨y, m, d, hchecked, -, -, -, hcount⟩ := civilFromDays_inverts_calendar.1 11016 hin
  rw [hdate] at hchecked
  cases hchecked
  exact ⟨hin, hdate, hcount⟩

end Keplor.Store
