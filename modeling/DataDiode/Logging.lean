import DataDiode.Gregorian
import DataDiode.Machine
import DataDiode.Proto

/-!
# Log Timestamps

Every line of the log starts with `fmt_now`: the date and time of the clock, computed from the
seconds since 1970 by the arithmetic of 400-year eras whose years start in March. The unsigned
subtractions are partial here, and the conversions cut off as those of the source do.

## Main results

* `exists_marchDay`, `MarchDay.exists_date`: the year of a day of an era, and the date of a day of
  such a year.
* `civil_dateOn`: the arithmetic finds the Gregorian date of every day.
* `Stamp.Shows.fields_lt`, `Stamp.text_injective`: timestamps keep the order of instants, and their
  texts tell them apart.
* `fmtNow_calendar`: log timestamps are correct calendar dates.
-/

namespace DataDiode

/-- The bound of a 32-bit unsigned integer. -/
def u32Bound : ℕ := 2 ^ 32

/-- A time since the epoch. -/
structure Duration where
  secs : ℕ
  nanos : ℕ
  nanos_lt : nanos < 1000000000

/-- The milliseconds within the second. -/
def Duration.subsecMillis (dur : Duration) : ℕ := dur.nanos / 1000000

/-- What a timestamp shows. -/
structure Stamp where
  year : ℤ
  mo : ℕ
  d : ℕ
  h : ℕ
  m : ℕ
  s : ℕ
  ms : ℕ
  deriving DecidableEq

/-- Year, month and day of a number of days since the epoch; `none` if a subtraction underflows. -/
def civil (days : ℤ) : Option (ℤ × ℕ × ℕ) := do
  let z := days + 719468
  -- what is divided is the value of the whole `if`
  let era := Int.tdiv (if 0 ≤ z then z else z - 146096) 146097
  let doe := Machine.toUnsigned u64Bound (z - era * 146097)
  let early ← Machine.sub doe (doe / 1460)
  let late ← Machine.sub (early + doe / 36524) (doe / 146096)
  let yoe := late / 365
  let y := Machine.toSigned u64Bound yoe + era * 400
  let start ← Machine.sub (365 * yoe + yoe / 4) (yoe / 100)
  let doy ← Machine.sub doe start
  let mp := (5 * doy + 2) / 153
  let before ← Machine.sub doy ((153 * mp + 2) / 5)
  let d := Machine.toUnsigned u32Bound (before + 1 : ℕ)
  let month ← (if mp < 10 then some (mp + 3) else Machine.sub mp 9)
  let mo := Machine.toUnsigned u32Bound month
  let year := Machine.toSigned u32Bound (if mo ≤ 2 then y + 1 else y)
  some (year, mo, d)

/-- The numbers of a timestamp. Division of the signed seconds truncates, the remainders do not. -/
def stampOf (dur : Duration) : Option Stamp := do
  let secs := Machine.toSigned u64Bound dur.secs
  let ms := dur.subsecMillis
  let s := Machine.toUnsigned u32Bound (secs % 60)
  let m := Machine.toUnsigned u32Bound (Int.tdiv secs 60 % 60)
  let h := Machine.toUnsigned u32Bound (Int.tdiv secs 3600 % 24)
  let days := secs / 86400
  let (year, mo, d) ← civil days
  some ⟨year, mo, d, h, m, s, ms⟩

/-- A signed number, zero-padded to a width that counts the sign. -/
def padSigned (w : ℕ) (n : ℤ) : Bytes :=
  if n < 0 then 45 :: Decimal.zeroPadded (w - 1) n.natAbs else Decimal.zeroPadded w n.toNat

/-- The text of a timestamp: `year-mo-d h:m:s,ms`. -/
def Stamp.text (t : Stamp) : Bytes :=
  padSigned 4 t.year ++ 45 :: Decimal.zeroPadded 2 t.mo ++ 45 :: Decimal.zeroPadded 2 t.d ++
    32 :: Decimal.zeroPadded 2 t.h ++ 58 :: Decimal.zeroPadded 2 t.m ++
    58 :: Decimal.zeroPadded 2 t.s ++ 44 :: Decimal.zeroPadded 3 t.ms

/-- The timestamp of a log line. -/
def fmtNow (dur : Duration) : Option Bytes := (stampOf dur).map Stamp.text

open Gregorian

/-! ### Years that start in March -/

/-- A day of an era in centuries, quadrennia, years and days. -/
theorem exists_eraParts {doe : ℕ} (h : doe < 146097) : ∃ c q r doy, c ≤ 3 ∧ q ≤ 24 ∧ r ≤ 3 ∧
    doy ≤ 365 ∧ (doy = 365 → r = 3 ∧ (q = 24 → c = 3)) ∧
    doe = 36524 * c + 1461 * q + 365 * r + doy := by
  obtain ⟨c, hc, hcle, hclt⟩ : ∃ c ≤ 3, 36524 * c ≤ doe ∧ (doe < 36524 * c + 36524 ∨ c = 3) :=
    ⟨min (doe / 36524) 3, by omega, by omega⟩
  obtain ⟨rem, rfl⟩ := Nat.exists_eq_add_of_le hcle
  obtain ⟨r, hr, hrle, hrlt⟩ :
      ∃ r ≤ 3, 365 * r ≤ rem % 1461 ∧ (rem % 1461 < 365 * r + 365 ∨ r = 3) :=
    ⟨min (rem % 1461 / 365) 3, by omega, by omega⟩
  exact ⟨c, rem / 1461, r, rem % 1461 - 365 * r, hc, by omega, hr, by omega, by omega, by omega⟩

/-- The year of an era, from the parts of a day. -/
theorem yearOfEra_eq {c q r doy doe : ℕ} (hc : c ≤ 3) (hq : q ≤ 24) (hr : r ≤ 3)
    (hdoy : doy ≤ 365) (hlast : doy = 365 → r = 3 ∧ (q = 24 → c = 3))
    (h : doe = 36524 * c + 1461 * q + 365 * r + doy) :
    (doe - doe / 1460 + doe / 36524 - doe / 146096) / 365 = 100 * c + 4 * q + r := by
  by_cases hend : doe = 146096
  · subst hend
    norm_num
    omega
  · have hera : doe / 146096 = 0 := by omega
    have hcentury : doe / 36524 = c := by omega
    -- one leap day too many is taken off late in a quadrennium, where it does not matter
    have hleap : doe / 1460 = 25 * c + q ∨
        1460 ≤ 24 * c + q + 365 * r + doy ∧ doe / 1460 = 25 * c + q + 1 := by omega
    rw [hera, hcentury]
    rcases hleap with hleap | ⟨hlate, hleap⟩
    · rw [hleap]
      omega
    · rw [hleap]
      omega

/-- The days of the eras and years before the year that starts in the March of `y`, and the days
of that year so far, are `z`. -/
structure MarchDay (z y doy : ℕ) : Prop where
  doy_le : doy ≤ 365
  leap : doy = 365 → IsLeap (y + 1)
  eq : z + y / 100 = 365 * y + y / 4 + y / 400 + doy

/-- **The year of a day**: the subtractions are in range, and lead to the year and the day of it. -/
theorem exists_marchDay {doe : ℕ} (h : doe < 146097) : ∃ yoe doy,
    doe / 1460 ≤ doe ∧ doe / 146096 ≤ doe - doe / 1460 + doe / 36524 ∧
    (doe - doe / 1460 + doe / 36524 - doe / 146096) / 365 = yoe ∧
    yoe / 100 ≤ 365 * yoe + yoe / 4 ∧ 365 * yoe + yoe / 4 - yoe / 100 ≤ doe ∧
    doe - (365 * yoe + yoe / 4 - yoe / 100) = doy ∧ yoe < 400 ∧
    ∀ era, MarchDay (doe + era * 146097) (yoe + era * 400) doy := by
  obtain ⟨c, q, r, doy, hc, hq, hr, hdoy, hlast, hdoe⟩ := exists_eraParts h
  have hyoe := yearOfEra_eq hc hq hr hdoy hlast hdoe
  have hquarter : (100 * c + 4 * q + r) / 4 = 25 * c + q := by omega
  have hcentury : (100 * c + 4 * q + r) / 100 = c := by omega
  refine ⟨100 * c + 4 * q + r, doy, by omega, by omega, hyoe, by omega, by omega, by omega,
    by omega, fun era => ⟨hdoy, fun hend => ?_, ?_⟩⟩
  · obtain ⟨hr3, hq24⟩ := hlast hend
    rw [IsLeap]
    omega
  · have h4 : (100 * c + 4 * q + r + era * 400) / 4 = 25 * c + q + era * 100 := by omega
    have h100 : (100 * c + 4 * q + r + era * 400) / 100 = c + era * 4 := by omega
    have h400 : (100 * c + 4 * q + r + era * 400) / 400 = era := by omega
    rw [h4, h100, h400]
    omega

/-! ### Months that start in March -/

/-- The months from March to December begin where the formula says. -/
theorem daysBeforeMonth_march (y : ℕ) {mp : ℕ} (h : mp < 10) :
    daysBeforeMonth y (mp + 3) + 306 = yearLength y + (153 * mp + 2) / 5 := by
  by_cases hleap : IsLeap y <;> interval_cases mp <;>
    simp [daysBeforeMonth, monthLength, yearLength, hleap]

/-- The months from March to December are as long as the formula says. -/
theorem monthLength_march (y : ℕ) {mp : ℕ} (h : mp < 10) :
    (153 * mp + 2) / 5 + monthLength y (mp + 3) = (153 * (mp + 1) + 2) / 5 := by
  interval_cases mp <;> simp [monthLength]

/-- The year from January on. -/
theorem daysBeforeYear_march (y : ℕ) :
    daysBeforeYear y + yearLength y + y / 100 = 365 * y + y / 4 + y / 400 + 366 := by
  have hyear := daysBeforeYear_eq (y + 1)
  rw [daysBeforeYear] at hyear
  omega

/-- **The date of a day** of a year that starts in March. -/
theorem MarchDay.exists_date {z y doy : ℕ} (h : MarchDay z y doy) : ∃ D : Date,
    (153 * ((5 * doy + 2) / 153) + 2) / 5 ≤ doy ∧
    D.day = doy - (153 * ((5 * doy + 2) / 153) + 2) / 5 + 1 ∧
    ((5 * doy + 2) / 153 < 10 ∧ D.month = (5 * doy + 2) / 153 + 3 ∧ D.year = y ∨
      10 ≤ (5 * doy + 2) / 153 ∧ D.month = (5 * doy + 2) / 153 - 9 ∧ D.year = y + 1) ∧
    D.dayNumber = z + 60 := by
  obtain ⟨hdoy, hleap, hz⟩ := h
  have hyear := daysBeforeYear_march y
  obtain ⟨mp, hmp⟩ : ∃ mp, (5 * doy + 2) / 153 = mp := ⟨_, rfl⟩
  have hstart : (153 * mp + 2) / 5 ≤ doy := by omega
  have hend : doy < (153 * (mp + 1) + 2) / 5 := by omega
  rw [hmp]
  by_cases hmarch : mp < 10
  · have hmonth := daysBeforeMonth_march y hmarch
    have hlength := monthLength_march y hmarch
    refine ⟨⟨y, mp + 3, doy - (153 * mp + 2) / 5 + 1, by omega, by omega, by omega, by omega⟩,
      hstart, rfl, Or.inl ⟨hmarch, rfl, rfl⟩, ?_⟩
    simp only [Date.dayNumber]
    omega
  · obtain rfl | rfl : mp = 10 ∨ mp = 11 := by omega
    · -- January
      refine ⟨⟨y + 1, 1, doy - 306 + 1, le_rfl, by decide, by omega, ?_⟩, hstart, rfl,
        Or.inr ⟨le_rfl, rfl, rfl⟩, ?_⟩
      · rw [show monthLength (y + 1) 1 = 31 from rfl]
        omega
      · simp only [Date.dayNumber, daysBeforeYear, daysBeforeMonth]
        omega
    · -- February, which has the leap day of the year
      refine ⟨⟨y + 1, 2, doy - 337 + 1, by decide, by decide, by omega, ?_⟩, hstart, rfl,
        Or.inr ⟨by decide, rfl, rfl⟩, ?_⟩
      · by_cases hlast : IsLeap (y + 1)
        · rw [show monthLength (y + 1) 2 = 29 from if_pos hlast]
          omega
        · have hne : doy ≠ 365 := fun hend => hlast (hleap hend)
          rw [show monthLength (y + 1) 2 = 28 from if_neg hlast]
          omega
      · have hjanuary : daysBeforeMonth (y + 1) 2 = 31 := rfl
        simp only [Date.dayNumber, daysBeforeYear, hjanuary]
        omega

/-! ### The arithmetic finds the date -/

/-- The era of a day from the epoch on. -/
theorem era_eq (n : ℕ) :
    Int.tdiv (if 0 ≤ (n : ℤ) + 719468 then (n : ℤ) + 719468 else (n : ℤ) + 719468 - 146096) 146097 =
      ((n + 719468) / 146097 : ℕ) := by
  rw [if_pos (by omega), Int.tdiv_eq_ediv_of_nonneg (by omega)]
  omega

/-- The day of the era of a day from the epoch on. -/
theorem dayOfEra_eq (n : ℕ) :
    Machine.toUnsigned u64Bound
        ((n : ℤ) + 719468 - ((n + 719468) / 146097 : ℕ) * 146097) = (n + 719468) % 146097 := by
  have hcast : (n : ℤ) + 719468 - ((n + 719468) / 146097 : ℕ) * 146097 =
      ((n + 719468) % 146097 : ℕ) := by omega
  have hlt : (n + 719468) % 146097 < u64Bound :=
    lt_of_lt_of_le (Nat.mod_lt _ (by decide)) (by decide)
  rw [hcast, Machine.toUnsigned_eq hlt]

/-- **The date of every day**, as long as its year is a 32-bit signed integer. -/
theorem civil_dateOn {n : ℕ} (hyear : (dateOn n).year < 2 ^ 31) :
    civil n = some (((dateOn n).year : ℤ), (dateOn n).month, (dateOn n).day) := by
  have hlt : (n + 719468) % 146097 < 146097 := Nat.mod_lt _ (by decide)
  have hz : (n + 719468) % 146097 + (n + 719468) / 146097 * 146097 = n + 719468 :=
    Nat.mod_add_div' _ _
  simp only [civil, era_eq, dayOfEra_eq]
  generalize (n + 719468) % 146097 = doe at hlt hz ⊢
  generalize (n + 719468) / 146097 = era at hz ⊢
  obtain ⟨yoe, doy, hearly, hlate, hyoe, hcentury, hstart, hdoy, hyoelt, hmarch⟩ :=
    exists_marchDay hlt
  obtain ⟨D, hbefore, hDday, hDmonth, hDnumber⟩ := (hmarch era).exists_date
  have hdayle : doy ≤ 365 := (hmarch era).doy_le
  obtain rfl : D = dateOn n := eq_dateOn (by omega)
  have hy : Machine.toSigned u64Bound yoe = yoe := Machine.toSigned_eq (by rw [u64Bound]; omega)
  have hd : Machine.toUnsigned u32Bound
      ((doy - (153 * ((5 * doy + 2) / 153) + 2) / 5 + 1 : ℕ) : ℤ) = (dateOn n).day := by
    rw [Machine.toUnsigned_eq (by rw [u32Bound]; omega), hDday]
  have hmonth : (if (5 * doy + 2) / 153 < 10 then some ((5 * doy + 2) / 153 + 3)
      else Machine.sub ((5 * doy + 2) / 153) 9) = some (dateOn n).month := by
    rcases hDmonth with ⟨hlt, hmo, -⟩ | ⟨hge, hmo, -⟩
    · rw [if_pos hlt, hmo]
    · rw [if_neg (by omega), Machine.sub_eq (by omega), hmo]
  have hmo : Machine.toUnsigned u32Bound ((dateOn n).month : ℤ) = (dateOn n).month :=
    Machine.toUnsigned_eq (by have := (dateOn n).month_le; rw [u32Bound]; omega)
  have hyr : (if (dateOn n).month ≤ 2 then (yoe : ℤ) + era * 400 + 1 else (yoe : ℤ) + era * 400) =
      ((dateOn n).year : ℤ) := by
    rcases hDmonth with ⟨hlt, hmo, hyr⟩ | ⟨hge, hmo, hyr⟩
    · rw [if_neg (by omega), hyr]
      push_cast
      rfl
    · rw [if_pos (by omega), hyr]
      push_cast
      rfl
  have hfit : Machine.toSigned u32Bound ((dateOn n).year : ℤ) = (dateOn n).year :=
    Machine.toSigned_eq (by rw [u32Bound]; omega)
  -- by definitional equality the kernel would count down the large literals
  simp -implicitDefEqProofs only [Machine.sub_eq hearly, Machine.sub_eq hlate, hyoe,
    Machine.sub_eq hcentury, Machine.sub_eq hstart, hdoy, Machine.sub_eq hbefore, hd, hy, hmonth,
    hmo, hyr, hfit, Option.bind_eq_bind, Option.bind_some]

/-! ### Timestamps -/

/-- The day of an instant. -/
def Duration.date (dur : Duration) : Date := dateOn (dur.secs / 86400)

/-- The year of the instant fits a 32-bit signed integer. -/
def Duration.InRange (dur : Duration) : Prop := dur.date.year < 2 ^ 31

/-- One instant is earlier than another, in milliseconds. -/
def Duration.Before (dur dur' : Duration) : Prop :=
  dur.secs < dur'.secs ∨ dur.secs = dur'.secs ∧ dur.subsecMillis < dur'.subsecMillis

/-- A timestamp shows the date and the time of an instant. -/
structure Stamp.Shows (t : Stamp) (dur : Duration) : Prop where
  year : t.year = dur.date.year
  mo : t.mo = dur.date.month
  d : t.d = dur.date.day
  h_lt : t.h < 24
  m_lt : t.m < 60
  s_lt : t.s < 60
  time : 3600 * t.h + 60 * t.m + t.s = dur.secs % 86400
  ms : t.ms = dur.subsecMillis

/-- The numbers of a timestamp, in order. -/
def Stamp.fields (t : Stamp) : List ℤ := [t.year, t.mo, t.d, t.h, t.m, t.s, t.ms]

/-- A second has fewer than a thousand milliseconds left. -/
theorem Duration.subsecMillis_lt (dur : Duration) : dur.subsecMillis < 1000 := by
  have hnanos := dur.nanos_lt
  rw [Duration.subsecMillis]
  omega

/-- Seconds in range fit a signed integer. -/
theorem Duration.InRange.toSigned_secs {dur : Duration} (h : dur.InRange) :
    Machine.toSigned u64Bound dur.secs = dur.secs := by
  have hdays := lt_year_dateOn (dur.secs / 86400)
  rw [Duration.InRange, Duration.date] at h
  exact Machine.toSigned_eq (by rw [u64Bound]; omega)

/-- A remainder of the seconds. -/
theorem toUnsigned_secs {n : ℕ} {x : ℤ} (hx : x = n) (hn : n < 60) :
    Machine.toUnsigned u32Bound x = n := by
  rw [hx, Machine.toUnsigned_eq (by rw [u32Bound]; omega)]

/-- **The timestamp of an instant** shows its date and time. -/
theorem exists_stampOf {dur : Duration} (h : dur.InRange) :
    ∃ t, stampOf dur = some t ∧ t.Shows dur := by
  have hdays : (dur.secs : ℤ) / 86400 = (dur.secs / 86400 : ℕ) := by omega
  have hs : Machine.toUnsigned u32Bound ((dur.secs : ℤ) % 60) = dur.secs % 60 :=
    toUnsigned_secs (by omega) (by omega)
  have hm : Machine.toUnsigned u32Bound (Int.tdiv dur.secs 60 % 60) = dur.secs / 60 % 60 := by
    rw [Int.tdiv_eq_ediv_of_nonneg (Int.natCast_nonneg _)]
    exact toUnsigned_secs (by omega) (by omega)
  have hh : Machine.toUnsigned u32Bound (Int.tdiv dur.secs 3600 % 24) =
      dur.secs / 3600 % 24 := by
    rw [Int.tdiv_eq_ediv_of_nonneg (Int.natCast_nonneg _)]
    exact toUnsigned_secs (by omega) (by omega)
  have hstamp : stampOf dur = some ⟨dur.date.year, dur.date.month, dur.date.day,
      dur.secs / 3600 % 24, dur.secs / 60 % 60, dur.secs % 60, dur.subsecMillis⟩ := by
    rw [stampOf, h.toSigned_secs, hs, hm, hh, hdays, civil_dateOn h]
    rfl
  refine ⟨_, hstamp, rfl, rfl, rfl, ?_, ?_, ?_, ?_, rfl⟩
  · exact Nat.mod_lt _ (by decide)
  · exact Nat.mod_lt _ (by decide)
  · exact Nat.mod_lt _ (by decide)
  · simp only
    omega

/-- **Later instants** have later timestamps. -/
theorem Stamp.Shows.fields_lt {t t' : Stamp} {dur dur' : Duration} (h : t.Shows dur)
    (h' : t'.Shows dur') (hlt : dur.Before dur') : t.fields < t'.fields := by
  have hdays : dur.date.Before dur'.date ∨
      dur.date = dur'.date ∧ dur.secs / 86400 = dur'.secs / 86400 := by
    rcases Nat.lt_trichotomy (dur.secs / 86400) (dur'.secs / 86400) with hday | hday | hday
    · exact Or.inl (dateOn_before hday)
    · exact Or.inr ⟨congrArg dateOn hday, hday⟩
    · rw [Duration.Before] at hlt
      omega
  obtain ⟨hy, hmo, hd, hh, hm, hs, htime, hms⟩ := h
  obtain ⟨hy', hmo', hd', hh', hm', hs', htime', hms'⟩ := h'
  simp only [Stamp.fields, List.cons_lt_cons_iff, List.lt_irrefl, hy, hy', hmo, hmo', hd, hd', hms,
    hms', and_false, or_false]
  rcases hdays with hbefore | ⟨hdate, hday⟩
  · rw [Date.Before] at hbefore
    omega
  · rw [hdate]
    rw [Duration.Before] at hlt
    omega

/-- Noon on a leap day, and a bit. -/
example : stampOf ⟨1709210096, 789000000, by decide⟩ = some ⟨2024, 2, 29, 12, 34, 56, 789⟩ := by
  decide

/-! ### The text -/

/-- **The text tells** timestamps of the common era apart. -/
theorem Stamp.text_injective {t t' : Stamp} (hy : 0 ≤ t.year) (hy' : 0 ≤ t'.year)
    (h : t.text = t'.text) : t = t' := by
  have hdigits := Decimal.all_isDigit_zeroPadded
  have hinj := fun w => @Decimal.zeroPadded_injective w
  simp only [Stamp.text, padSigned, if_neg hy.not_gt, if_neg hy'.not_gt, List.append_assoc,
    List.cons_append] at h
  obtain ⟨hyear, h⟩ := Decimal.append_cons_inj (hdigits _ _) (hdigits _ _) rfl h
  obtain ⟨hmo, h⟩ := Decimal.append_cons_inj (hdigits _ _) (hdigits _ _) rfl h
  obtain ⟨hd, h⟩ := Decimal.append_cons_inj (hdigits _ _) (hdigits _ _) rfl h
  obtain ⟨hh, h⟩ := Decimal.append_cons_inj (hdigits _ _) (hdigits _ _) rfl h
  obtain ⟨hm, h⟩ := Decimal.append_cons_inj (hdigits _ _) (hdigits _ _) rfl h
  obtain ⟨hs, hms⟩ := Decimal.append_cons_inj (hdigits _ _) (hdigits _ _) rfl h
  have hyear' : t.year = t'.year := by
    have hnat := hinj 4 hyear
    omega
  cases t
  cases t'
  simp only [Stamp.mk.injEq]
  exact ⟨hyear', hinj 2 hmo, hinj 2 hd, hinj 2 hh, hinj 2 hm, hinj 2 hs, hinj 3 hms⟩

/-- **Log timestamps are correct calendar dates.** Of every instant whose year is a 32-bit integer
the arithmetic computes, without an underflow, the Gregorian date and the time; later instants have
later timestamps, and instants that differ in milliseconds have different texts. -/
theorem fmtNow_calendar :
    (∀ dur : Duration, dur.InRange → ∃ t, stampOf dur = some t ∧ t.Shows dur) ∧
    (∀ dur dur' : Duration, dur.InRange → dur'.InRange → dur.Before dur' →
      ∃ t t', stampOf dur = some t ∧ stampOf dur' = some t' ∧ t.fields < t'.fields) ∧
    (∀ dur dur' : Duration, dur.InRange → dur'.InRange → fmtNow dur = fmtNow dur' →
      dur.secs = dur'.secs ∧ dur.subsecMillis = dur'.subsecMillis) := by
  refine ⟨fun dur h => exists_stampOf h, fun dur dur' h h' hlt => ?_, fun dur dur' h h' heq => ?_⟩
  · obtain ⟨t, ht, hshows⟩ := exists_stampOf h
    obtain ⟨t', ht', hshows'⟩ := exists_stampOf h'
    exact ⟨t, t', ht, ht', hshows.fields_lt hshows' hlt⟩
  · obtain ⟨t, ht, hshows⟩ := exists_stampOf h
    obtain ⟨t', ht', hshows'⟩ := exists_stampOf h'
    rw [fmtNow, fmtNow, ht, ht', Option.map_some, Option.map_some, Option.some.injEq] at heq
    have hyear : 0 ≤ t.year := hshows.year ▸ Int.natCast_nonneg _
    have hyear' : 0 ≤ t'.year := hshows'.year ▸ Int.natCast_nonneg _
    obtain rfl : t = t' := Stamp.text_injective hyear hyear' heq
    have hnot : ¬dur.Before dur' := fun hlt => List.lt_irrefl _ (hshows.fields_lt hshows' hlt)
    have hnot' : ¬dur'.Before dur := fun hlt => List.lt_irrefl _ (hshows'.fields_lt hshows hlt)
    rw [Duration.Before] at hnot hnot'
    omega

end DataDiode
