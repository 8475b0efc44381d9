import Mathlib.Order.Lattice
import Mathlib.Tactic.Common

/-!
# The proleptic Gregorian calendar

Leap years, month lengths, and the count of days from 1970-01-01. The count is given by a closed form
for the first of January and a sum over the months; `yearStart_succ` and `monthStart_succ` are the
recurrences that make it the calendar's count, and `Date.dayNumber_lt` says that a later date has a
larger number, so a date is determined by it.

A `Date` carries its own validity: there is no thirtieth of February.
-/

set_option autoImplicit false

namespace Keplor.Lib

/-! ## Years -/

/-- A leap year of the Gregorian rule, in every year of the axis. -/
def IsLeap (y : Int) : Prop := y % 4 = 0 ∧ (y % 100 ≠ 0 ∨ y % 400 = 0)

instance (y : Int) : Decidable (IsLeap y) := inferInstanceAs (Decidable (_ ∧ _))

/-- The days of a year. -/
def yearLength (y : Int) : Nat := if IsLeap y then 366 else 365

/-- The leap years before a year, counted from the year 1. -/
def leapsBefore (y : Int) : Int := (y - 1) / 4 - (y - 1) / 100 + (y - 1) / 400

/-- The first of January, in days from 1970-01-01. -/
def yearStart (y : Int) : Int := 365 * (y - 1970) + (leapsBefore y - leapsBefore 1970)

theorem leapsBefore_succ (y : Int) :
    leapsBefore (y + 1) = leapsBefore y + if IsLeap y then 1 else 0 := by
  have hleap : IsLeap y ↔ y % 4 = 0 ∧ (y % 100 ≠ 0 ∨ y % 400 = 0) := Iff.rfl
  -- each quotient grows by one at the multiples of its divisor
  have h4 : y / 4 = (y - 1) / 4 + if y % 4 = 0 then 1 else 0 := by split <;> omega
  have h100 : y / 100 = (y - 1) / 100 + if y % 100 = 0 then 1 else 0 := by split <;> omega
  have h400 : y / 400 = (y - 1) / 400 + if y % 400 = 0 then 1 else 0 := by split <;> omega
  have hdvd : (y % 400 = 0 → y % 100 = 0) ∧ (y % 100 = 0 → y % 4 = 0) := by omega
  unfold leapsBefore
  rw [Int.add_sub_cancel, h4, h100, h400]
  simp only [hleap]
  split_ifs <;> omega

/-- A year begins where the one before it ends. -/
theorem yearStart_succ (y : Int) : yearStart (y + 1) = yearStart y + yearLength y := by
  unfold yearStart yearLength
  rw [leapsBefore_succ]
  split <;> omega

theorem yearStart_mono {y z : Int} (h : y ≤ z) : yearStart y ≤ yearStart z := by
  obtain ⟨n, rfl⟩ := Int.le.dest h
  induction n with
  | zero => simp
  | succ n ih =>
    have hstep := yearStart_succ (y + n)
    have := ih (by omega)
    rw [Int.natCast_succ, ← Int.add_assoc]
    omega

/-! ## Months -/

/-- The days of a month. -/
def monthLength (y : Int) (m : Nat) : Nat :=
  if m = 2 then if IsLeap y then 29 else 28
  else if m = 4 ∨ m = 6 ∨ m = 9 ∨ m = 11 then 30
  else 31

/-- The days of a year before its `m`-th month. -/
def monthStart (y : Int) : Nat → Nat
  | 0 => 0
  | 1 => 0
  | m + 2 => monthStart y (m + 1) + monthLength y (m + 1)

/-- A month begins where the one before it ends. -/
theorem monthStart_succ (y : Int) {m : Nat} (h : 1 ≤ m) :
    monthStart y (m + 1) = monthStart y m + monthLength y m := by
  obtain ⟨m, rfl⟩ := Nat.exists_eq_add_of_le' h
  rfl

/-- The twelve months make up the year. -/
theorem monthStart_thirteen (y : Int) : monthStart y 13 = yearLength y := by
  by_cases h : IsLeap y <;> simp [monthStart, monthLength, yearLength, h]

theorem monthStart_mono (y : Int) {m n : Nat} (h : m ≤ n) : monthStart y m ≤ monthStart y n := by
  induction h with
  | refl => exact Nat.le_refl _
  | @step n _ ih =>
    refine ih.trans ?_
    cases n with
    | zero => exact Nat.le_refl _
    | succ n => exact Nat.le_add_right _ _

/-! ## Dates -/

/-- A day of the calendar. -/
@[ext]
structure Date where
  year : Int
  month : Nat
  day : Nat
  month_pos : 1 ≤ month
  month_le : month ≤ 12
  day_pos : 1 ≤ day
  day_le : day ≤ monthLength year month

namespace Date

variable {a b : Date}

/-- The days from 1970-01-01 to a date. -/
def dayNumber (a : Date) : Int := yearStart a.year + (monthStart a.year a.month + (a.day - 1) : Nat)

/-- Dates in the order of time: by year, then by month, then by day. -/
instance : LT Date := ⟨fun a b =>
  a.year < b.year ∨ (a.year = b.year ∧
    (a.month < b.month ∨ (a.month = b.month ∧ a.day < b.day)))⟩

theorem lt_def : a < b ↔ a.year < b.year ∨ (a.year = b.year ∧
    (a.month < b.month ∨ (a.month = b.month ∧ a.day < b.day))) := Iff.rfl

theorem lt_trichotomy (a b : Date) : a < b ∨ a = b ∨ b < a := by
  rw [Date.ext_iff, lt_def, lt_def]
  omega

/-- A date lies before the end of its month. -/
theorem dayNumber_lt_monthStart (a : Date) :
    a.dayNumber < yearStart a.year + monthStart a.year (a.month + 1) := by
  rw [dayNumber, monthStart_succ _ a.month_pos]
  have := a.day_pos
  have := a.day_le
  omega

/-- A date lies before the end of its year. -/
theorem dayNumber_lt_yearStart (a : Date) : a.dayNumber < yearStart (a.year + 1) := by
  have hmonth : monthStart a.year (a.month + 1) ≤ monthStart a.year 13 :=
    monthStart_mono a.year (Nat.succ_le_succ a.month_le)
  have := a.dayNumber_lt_monthStart
  rw [monthStart_thirteen] at hmonth
  rw [yearStart_succ]
  omega

/-- The number of a later date is larger. -/
theorem dayNumber_lt (h : a < b) : a.dayNumber < b.dayNumber := by
  rcases lt_def.mp h with hy | ⟨hy, hm | ⟨hm, hd⟩⟩
  · calc a.dayNumber < yearStart (a.year + 1) := a.dayNumber_lt_yearStart
      _ ≤ yearStart b.year := yearStart_mono hy
      _ ≤ b.dayNumber := Int.le_add_of_nonneg_right (Int.natCast_nonneg _)
  · have hmonth : monthStart a.year (a.month + 1) ≤ monthStart a.year b.month :=
      monthStart_mono a.year hm
    have := a.dayNumber_lt_monthStart
    have hb : b.dayNumber = yearStart a.year + (monthStart a.year b.month + (b.day - 1) : Nat) := by
      rw [dayNumber, hy]
    omega
  · have := a.day_pos
    rw [dayNumber, dayNumber, ← hy, ← hm]
    omega

theorem dayNumber_lt_iff : a.dayNumber < b.dayNumber ↔ a < b := by
  refine ⟨fun h => ?_, dayNumber_lt⟩
  rcases lt_trichotomy a b with hlt | rfl | hlt
  · exact hlt
  · exact absurd h (Int.lt_irrefl _)
  · exact absurd h (Int.not_lt.mpr (Int.le_of_lt (dayNumber_lt hlt)))

/-- A date is determined by its number. -/
theorem dayNumber_inj : a.dayNumber = b.dayNumber ↔ a = b := by
  refine ⟨fun h => ?_, fun h => h ▸ rfl⟩
  rcases lt_trichotomy a b with hlt | heq | hlt
  · exact absurd h (Int.ne_of_lt (dayNumber_lt hlt))
  · exact heq
  · exact absurd h.symm (Int.ne_of_lt (dayNumber_lt hlt))

end Date

end Keplor.Lib
