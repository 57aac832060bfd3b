import Mathlib.Logic.Function.Iterate
import Mathlib.Tactic.IntervalCases

/-!
# The Gregorian Calendar

Dates of the proleptic Gregorian calendar from the year 0 on. A `Date` carries the proof that its
month has such a day, so there are no others. `Date.next` is the day after, and the date `n` days
after the first of January 1970 is found by counting, one day at a time: this is the meaning of a
day number, and arithmetic that computes dates is to be measured by it.

## Main results

* `Date.dayNumber_next`: the number of days since the first day of the year 0 counts days.
* `Date.dayNumber_lt`, `Date.dayNumber_injective`: it grows with the date, and determines it.
* `eq_dateOn`: a date is the `n`-th after the epoch if its day number is `n` more.
* `dateOn_before`: later days have later dates.
-/

namespace Gregorian

/-- Every fourth year is a leap year, of the full centuries only every fourth. -/
def IsLeap (y : ℕ) : Prop := y % 4 = 0 ∧ (y % 100 ≠ 0 ∨ y % 400 = 0)

/-- Arithmetic decides it. -/
instance (y : ℕ) : Decidable (IsLeap y) := inferInstanceAs (Decidable (_ ∧ _))

/-- The number of days of a month. -/
def monthLength (y m : ℕ) : ℕ :=
  if m = 2 then if IsLeap y then 29 else 28
  else if m = 4 ∨ m = 6 ∨ m = 9 ∨ m = 11 then 30
  else 31

/-- The number of days of a year. -/
def yearLength (y : ℕ) : ℕ := if IsLeap y then 366 else 365

/-- A day of the calendar. -/
@[ext] structure Date where
  year : ℕ
  month : ℕ
  day : ℕ
  month_pos : 1 ≤ month
  month_le : month ≤ 12
  day_pos : 1 ≤ day
  day_le : day ≤ monthLength year month

/-- No month is empty. -/
theorem monthLength_pos (y m : ℕ) : 1 ≤ monthLength y m := by
  rw [monthLength]
  split_ifs <;> omega

/-- The day after. -/
def Date.next (D : Date) : Date :=
  if hday : D.day < monthLength D.year D.month then
    ⟨D.year, D.month, D.day + 1, D.month_pos, D.month_le, by omega, hday⟩
  else if hmonth : D.month < 12 then
    ⟨D.year, D.month + 1, 1, by omega, hmonth, le_rfl, monthLength_pos _ _⟩
  else ⟨D.year + 1, 1, 1, le_rfl, by omega, le_rfl, monthLength_pos _ _⟩

/-- The first of January 1970. -/
def epoch : Date := ⟨1970, 1, 1, by decide, by decide, by decide, by decide⟩

/-- The date `n` days after the epoch. -/
def dateOn (n : ℕ) : Date := Date.next^[n] epoch

/-- One date is earlier than another. -/
def Date.Before (D E : Date) : Prop :=
  D.year < E.year ∨ D.year = E.year ∧
    (D.month < E.month ∨ D.month = E.month ∧ D.day < E.day)

/-- Of two different dates one is before the other. -/
theorem Date.before_or_eq_or_before (D E : Date) : D.Before E ∨ D = E ∨ E.Before D := by
  simp only [Date.Before, Date.ext_iff]
  omega

/-! ### Counting days -/

/-- The days of the years before `y`. -/
def daysBeforeYear : ℕ → ℕ
  | 0 => 0
  | y + 1 => daysBeforeYear y + yearLength y

/-- The days of the months before month `m` of the year `y`. -/
def daysBeforeMonth (y : ℕ) : ℕ → ℕ
  | 0 => 0
  | 1 => 0
  | m + 2 => daysBeforeMonth y (m + 1) + monthLength y (m + 1)

/-- The number of days since the first day of the year 0. -/
def Date.dayNumber (D : Date) : ℕ :=
  daysBeforeYear D.year + daysBeforeMonth D.year D.month + (D.day - 1)

/-- Rounded up, a quotient grows after each multiple. -/
theorem add_div_succ {k : ℕ} (hk : 0 < k) (y : ℕ) :
    (y + 1 + (k - 1)) / k = (y + (k - 1)) / k + if y % k = 0 then 1 else 0 := by
  obtain ⟨k, rfl⟩ := Nat.exists_eq_add_of_le' hk
  rw [show y + 1 + (k + 1 - 1) = y + (k + 1 - 1) + 1 by omega, Nat.succ_div]
  congr 2
  rw [Nat.dvd_iff_mod_eq_zero, show y + (k + 1 - 1) + 1 = y + (k + 1) by omega, Nat.add_mod_right]

/-- The years before `y`, with the leap days among them. -/
theorem daysBeforeYear_eq (y : ℕ) :
    daysBeforeYear y + (y + 99) / 100 = 365 * y + (y + 3) / 4 + (y + 399) / 400 := by
  induction y with
  | zero => rfl
  | succ y ih =>
      have h4 := add_div_succ (k := 4) (by decide) y
      have h100 := add_div_succ (k := 100) (by decide) y
      have h400 := add_div_succ (k := 400) (by decide) y
      simp only [Nat.reduceSub] at h4 h100 h400
      rw [daysBeforeYear, yearLength, h4, h100, h400]
      clear h4 h100 h400
      have hcentury : y % 100 = 0 → y % 4 = 0 := fun h => by omega
      have hcycle : y % 400 = 0 → y % 100 = 0 := fun h => by omega
      by_cases h4 : y % 4 = 0 <;> by_cases h100 : y % 100 = 0 <;> by_cases h400 : y % 400 = 0 <;>
        simp only [IsLeap, h4, h100, h400] at hcentury hcycle ⊢ <;> grind

/-- One month more. -/
theorem daysBeforeMonth_succ (y : ℕ) {m : ℕ} (hm : 1 ≤ m) :
    daysBeforeMonth y (m + 1) = daysBeforeMonth y m + monthLength y m := by
  obtain ⟨m, rfl⟩ := Nat.exists_eq_add_of_le' hm
  rfl

/-- The months make up the year. -/
theorem daysBeforeMonth_thirteen (y : ℕ) : daysBeforeMonth y 13 = yearLength y := by
  by_cases hleap : IsLeap y <;> simp [daysBeforeMonth, monthLength, yearLength, hleap]

/-- Whole years, in order. -/
theorem daysBeforeYear_le {y y' : ℕ} (h : y < y') :
    daysBeforeYear y + yearLength y ≤ daysBeforeYear y' := by
  induction y', h using Nat.le_induction with
  | base => exact le_rfl
  | succ y' _ ih =>
      rw [daysBeforeYear]
      omega

/-- Whole months, in order. -/
theorem daysBeforeMonth_le (y : ℕ) {m m' : ℕ} (hm : 1 ≤ m) (h : m < m') :
    daysBeforeMonth y m + monthLength y m ≤ daysBeforeMonth y m' := by
  induction m', h using Nat.le_induction with
  | base => exact (daysBeforeMonth_succ y hm).ge
  | succ m' hm' ih =>
      rw [daysBeforeMonth_succ y (by omega)]
      omega

/-- **The day after** has the next number. -/
theorem Date.dayNumber_next (D : Date) : D.next.dayNumber = D.dayNumber + 1 := by
  have hpos := D.day_pos
  have hle := D.day_le
  have hmonth := daysBeforeMonth_succ D.year D.month_pos
  rw [Date.next]
  split
  · simp only [Date.dayNumber]
    omega
  · rename_i hday
    split
    · simp only [Date.dayNumber]
      omega
    · rename_i hlast
      have hdec : D.month = 12 := le_antisymm D.month_le (not_lt.mp hlast)
      have hfirst : daysBeforeMonth (D.year + 1) 1 = 0 := rfl
      rw [hdec] at hday hle
      rw [hdec, daysBeforeMonth_thirteen] at hmonth
      simp only [Date.dayNumber, daysBeforeYear, hdec, hfirst]
      omega

/-- A day lies in its year. -/
theorem Date.lt_yearLength (D : Date) :
    daysBeforeMonth D.year D.month + (D.day - 1) < yearLength D.year := by
  have hpos := D.day_pos
  have hle := D.day_le
  have hmonths : D.month < 13 := Nat.lt_succ_of_le D.month_le
  have hmonth := daysBeforeMonth_le D.year D.month_pos hmonths
  rw [daysBeforeMonth_thirteen] at hmonth
  omega

/-- **Later dates** have larger numbers. -/
theorem Date.dayNumber_lt {D E : Date} (h : D.Before E) : D.dayNumber < E.dayNumber := by
  have hD := D.lt_yearLength
  simp only [Date.dayNumber]
  rcases h with hyear | ⟨hyear, hmonth | ⟨hmonth, hday⟩⟩
  · have hyears := daysBeforeYear_le hyear
    omega
  · have hpos := D.day_pos
    have hle := D.day_le
    have hmonths := daysBeforeMonth_le D.year D.month_pos hmonth
    rw [← hyear]
    omega
  · have hpos := D.day_pos
    rw [← hyear, ← hmonth]
    omega

/-- Different dates have different numbers. -/
theorem Date.dayNumber_injective : Function.Injective Date.dayNumber := by
  intro D E h
  rcases D.before_or_eq_or_before E with hlt | heq | hlt
  · exact absurd h (Date.dayNumber_lt hlt).ne
  · exact heq
  · exact absurd h (Date.dayNumber_lt hlt).ne'

/-- Smaller numbers have earlier dates. -/
theorem Date.before_of_dayNumber_lt {D E : Date} (h : D.dayNumber < E.dayNumber) : D.Before E := by
  rcases D.before_or_eq_or_before E with hlt | heq | hlt
  · exact hlt
  · exact absurd h (heq ▸ lt_irrefl _)
  · exact absurd h (Date.dayNumber_lt hlt).not_gt

/-! ### Days since the epoch -/

/-- The epoch is day 719528. -/
theorem dayNumber_epoch : epoch.dayNumber = 719528 := by
  have hyear := daysBeforeYear_eq 1970
  simp only [Date.dayNumber, epoch, daysBeforeMonth]
  omega

/-- The date on which a day falls has its number. -/
theorem dayNumber_dateOn (n : ℕ) : (dateOn n).dayNumber = 719528 + n := by
  induction n with
  | zero => exact dayNumber_epoch
  | succ n ih =>
      rw [dateOn, Function.iterate_succ_apply', ← dateOn, Date.dayNumber_next, ih]
      rfl

/-- **Recognising a date** by its number. -/
theorem eq_dateOn {D : Date} {n : ℕ} (h : D.dayNumber = 719528 + n) : D = dateOn n :=
  Date.dayNumber_injective (h.trans (dayNumber_dateOn n).symm)

/-- **Later days** have later dates. -/
theorem dateOn_before {n n' : ℕ} (h : n < n') : (dateOn n).Before (dateOn n') :=
  Date.before_of_dayNumber_lt (by rw [dayNumber_dateOn, dayNumber_dateOn]; omega)

/-- Days run ahead of years by a factor of 366 at most. -/
theorem lt_year_dateOn (n : ℕ) : n < 366 * ((dateOn n).year + 1) := by
  have hnumber := dayNumber_dateOn n
  have hyears := daysBeforeYear_eq (dateOn n).year
  have hyear := (dateOn n).lt_yearLength
  have hlength : yearLength (dateOn n).year ≤ 366 := by
    rw [yearLength]
    split_ifs <;> omega
  rw [Date.dayNumber] at hnumber
  omega

end Gregorian
