import CaptureHPC.Spec.Java
import Mathlib.Tactic.IntervalCases

/-!
# Dates and their day numbers

`civilOfDays` undoes `daysOfCivil` for the dates of the calendar. Both count in years that begin in March,
`yearOf` within an era of 400 years.

* `daysOfCivil_eq`, `civilOfDays_eq`: the two counts in terms of era, year, month of the year and day.
* `civilOfDays_daysOfCivil`: a date is found again from its day number.
-/

namespace CaptureHPC

/-! ## Years in an era -/

/-- The year in which a day of an era falls. -/
def yearOf (doe : ℕ) : ℕ := (doe - doe / 1460 + doe / 36524 - doe / 146096) / 365

/-- The first day of a year. -/
def firstDay (yoe : ℕ) : ℕ := 365 * yoe + yoe / 4 - yoe / 100

/-- The leap day is the last day of a year. -/
def yearLength (yoe : ℕ) : ℕ := if (yoe + 1) % 4 = 0 ∧ ((yoe + 1) % 100 ≠ 0 ∨ (yoe + 1) % 400 = 0) then 366 else 365

theorem yearOf_mono : Monotone yearOf := by
  refine monotone_nat_of_le_succ fun doe => Nat.div_le_div_right ?_
  omega

theorem yearOf_bounds : ∀ yoe < 400, yearOf (firstDay yoe) = yoe ∧ yearOf (firstDay yoe + yearLength yoe - 1) = yoe := by
  decide +kernel

theorem firstDay_lt : ∀ yoe < 400, firstDay yoe + yearLength yoe ≤ 146097 := by decide +kernel

theorem yearOf_day {yoe doy : ℕ} (hyoe : yoe < 400) (hdoy : doy < yearLength yoe) : yearOf (firstDay yoe + doy) = yoe := by
  obtain ⟨hfirst, hlast⟩ := yearOf_bounds yoe hyoe
  have hle : firstDay yoe + doy ≤ firstDay yoe + yearLength yoe - 1 := by omega
  apply Nat.le_antisymm
  · exact (yearOf_mono hle).trans hlast.le
  · exact hfirst.ge.trans (yearOf_mono (Nat.le_add_right _ _))

/-! ## Months in a year -/

/-- The number of a month, from March on. -/
def monthIndex (m : ℕ) : ℕ := if 2 < m then m - 3 else m + 9

/-- The days of a month. -/
def monthLength (y : ℤ) (m : ℕ) : ℕ :=
  if m = 2 then if y % 4 = 0 ∧ (y % 100 ≠ 0 ∨ y % 400 = 0) then 29 else 28
  else if m = 4 ∨ m = 6 ∨ m = 9 ∨ m = 11 then 30 else 31

/-- The day of a year. -/
def dayOfYear (m d : ℕ) : ℕ := (153 * monthIndex m + 2) / 5 + d - 1

theorem monthLength_le (y : ℤ) (m : ℕ) :
    monthLength y m ≤ if m = 2 then 29 else if m = 4 ∨ m = 6 ∨ m = 9 ∨ m = 11 then 30 else 31 := by
  unfold monthLength
  split_ifs <;> omega

/-- The month of a day, and the day in it. -/
theorem dayOfYear_month {y : ℤ} {m d : ℕ} (hm : 1 ≤ m ∧ m ≤ 12) (hd : 1 ≤ d ∧ d ≤ monthLength y m) :
    (5 * dayOfYear m d + 2) / 153 = monthIndex m ∧ dayOfYear m d - (153 * monthIndex m + 2) / 5 + 1 = d := by
  obtain ⟨hm1, hm2⟩ := hm
  have hlen := hd.2.trans (monthLength_le y m)
  have hpos := hd.1
  unfold dayOfYear monthIndex
  interval_cases m <;> simp at hlen ⊢ <;> omega

/-- The year that begins in the March before a month. -/
def marchYear (y : ℤ) (m : ℕ) : ℤ := if m ≤ 2 then y - 1 else y

theorem le_yearLength (yoe : ℕ) : 365 ≤ yearLength yoe := by
  unfold yearLength
  split_ifs <;> omega

theorem dayOfYear_lt {y : ℤ} {m d : ℕ} (hm : 1 ≤ m ∧ m ≤ 12) (hd : 1 ≤ d ∧ d ≤ monthLength y m) :
    dayOfYear m d < yearLength (marchYear y m % 400).toNat := by
  obtain ⟨hm1, hm2⟩ := hm
  by_cases hfebruary : m = 2
  · -- only the leap day is behind the 365th
    subst hfebruary
    have hlen := hd.2
    unfold monthLength at hlen
    unfold dayOfYear monthIndex yearLength marchYear
    simp only [if_true] at hlen
    split_ifs at hlen ⊢ <;> omega
  · refine Nat.lt_of_lt_of_le ?_ (le_yearLength _)
    have hlen := hd.2.trans (monthLength_le y m)
    have hpos := hd.1
    unfold dayOfYear monthIndex
    rw [if_neg hfebruary] at hlen
    split_ifs at hlen ⊢ <;> omega

/-! ## Days and dates -/

theorem daysOfCivil_eq (y : ℤ) (m d : ℕ) : daysOfCivil y m d = marchYear y m / 400 * 146097 +
    (firstDay (marchYear y m % 400).toNat + dayOfYear m d : ℕ) - 719468 := by
  unfold daysOfCivil firstDay dayOfYear monthIndex marchYear
  simp only [Nat.mul_comm 365]

theorem civilOfDays_eq {era : ℤ} {yoe doy mp : ℕ} (hyoe : yoe < 400) (hdoy : doy < yearLength yoe)
    (hmp : (5 * doy + 2) / 153 = mp) :
    civilOfDays (era * 146097 + (firstDay yoe + doy : ℕ) - 719468) =
      (yoe + era * 400 + (if (if mp < 10 then mp + 3 else mp - 9) ≤ 2 then 1 else 0),
        if mp < 10 then mp + 3 else mp - 9, doy - (153 * mp + 2) / 5 + 1) := by
  have hlt := firstDay_lt yoe hyoe
  have hyear := yearOf_day hyoe hdoy
  have hera : (era * 146097 + (firstDay yoe + doy : ℕ) - 719468 + 719468) / 146097 = era := by omega
  have hdoe : ((era * 146097 + (firstDay yoe + doy : ℕ) - 719468 + 719468) % 146097).toNat = firstDay yoe + doy := by omega
  unfold civilOfDays
  simp only [hera, hdoe]
  rw [← yearOf, hyear]
  have hrest : firstDay yoe + doy - (365 * yoe + yoe / 4 - yoe / 100) = doy := by
    unfold firstDay
    omega
  rw [hrest, hmp]

/-- **A date is found again from its day number.** -/
theorem civilOfDays_daysOfCivil {y : ℤ} {m d : ℕ} (hm : 1 ≤ m ∧ m ≤ 12) (hd : 1 ≤ d ∧ d ≤ monthLength y m) :
    civilOfDays (daysOfCivil y m d) = (y, m, d) := by
  obtain ⟨hmonth, hday⟩ := dayOfYear_month hm hd
  have hyoe : (marchYear y m % 400).toNat < 400 := by omega
  rw [daysOfCivil_eq, civilOfDays_eq hyoe (dayOfYear_lt hm hd) hmonth, hday]
  have hm' : (if monthIndex m < 10 then monthIndex m + 3 else monthIndex m - 9) = m := by
    unfold monthIndex
    split_ifs <;> omega
  rw [hm']
  have hy : ((marchYear y m % 400).toNat : ℤ) + marchYear y m / 400 * 400 + (if m ≤ 2 then 1 else 0) = y := by
    unfold marchYear
    split_ifs <;> omega
  rw [hy]

end CaptureHPC
