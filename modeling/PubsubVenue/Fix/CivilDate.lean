import Mathlib.Data.Option.Basic
import Mathlib.Tactic.IntervalCases

/-! # Days and calendar dates

The sequencer finds the trading date of a wall time (`trading_date_of`), and the FIX codec the
number of a day from its date (`days_from_civil`). Both count in eras of 400 years that start on 1
March.

* **`CivilDate.calendars_agree`**: of the trading date of a wall time `days_from_civil` gives the
  day that the time falls on, and of the date after a date it gives one day more. -/

namespace PubsubVenue

/-! ## The two computations -/

/-- What signed arithmetic gives as an `int`: it is not defined where that does not fit. -/
def asInt (value : Int) : Option Int :=
  if -2147483648 ≤ value ∧ value ≤ 2147483647 then some value else none

/-- What arithmetic gives as an `unsigned`. -/
def asUnsigned (value : Int) : Int := value % 4294967296

/-- What a cast to `int` of 32 bits gives. -/
def castInt (value : Int) : Int := value.bmod 4294967296

/-- The civil date of a count of days since 1 March of the year 0, in `trading_date_of`. -/
def civilFromDays (days : Int) : Int × Int × Int :=
  let era := (if 0 ≤ days then days else days - 146096).tdiv 146097
  let dayOfEra := days - era * 146097
  let yearOfEra :=
    (dayOfEra - dayOfEra.tdiv 1460 + dayOfEra.tdiv 36524 - dayOfEra.tdiv 146096).tdiv 365
  let dayOfYear := dayOfEra - (365 * yearOfEra + yearOfEra.tdiv 4 - yearOfEra.tdiv 100)
  let monthFromMarch := (5 * dayOfYear + 2).tdiv 153
  let day := dayOfYear - (153 * monthFromMarch + 2).tdiv 5 + 1
  let month := if monthFromMarch < 10 then monthFromMarch + 3 else monthFromMarch - 9
  (yearOfEra + era * 400 + if month ≤ 2 then 1 else 0, month, day)

/-- `trading_date_of`, as the number yyyymmdd. -/
def tradingDateOf (wallTimeNs : Int) : Int :=
  let quotient := wallTimeNs.tdiv 86400000000000
  let days := if wallTimeNs.tmod 86400000000000 < 0 then quotient - 1 else quotient
  let (year, month, day) := civilFromDays (days + 719468)
  castInt (year * 10000 + month * 100 + day)

/-- `days_from_civil`, of a month and a day that are `unsigned`. -/
def daysFromCivil (year month day : Int) : Option Int := do
  let year ← asInt (year - if month ≤ 2 then 1 else 0)
  let era := (← asInt (if 0 ≤ year then year else year - 399)).tdiv 400
  let yearOfEra := asUnsigned (year - era * 400)
  let dayOfYear :=
    asUnsigned (asUnsigned (153 * asUnsigned (month + if 2 < month then -3 else 9) + 2) / 5 +
      day - 1)
  let dayOfEra := asUnsigned (yearOfEra * 365 + yearOfEra / 4 - yearOfEra / 100 + dayOfYear)
  return era * 146097 + castInt dayOfEra - 719468

/-- `days_from_civil` of the year, the month and the day in a trading date, which
`trading_date_text` writes. -/
def daysFromTradingDate (date : Int) : Option Int :=
  daysFromCivil (date.tdiv 10000) ((date.tdiv 100).tmod 100) (date.tmod 100)

/-! ## The calendar -/

/-- Whether a year has a leap day. -/
def isLeap (year : Int) : Bool := year % 4 = 0 && (year % 100 ≠ 0 || year % 400 = 0)

/-- The days in a month. -/
def daysInMonth (year month : Int) : Int :=
  if month = 2 then if isLeap year then 29 else 28
  else if month = 4 ∨ month = 6 ∨ month = 9 ∨ month = 11 then 30
  else 31

/-- **A date of the proleptic Gregorian calendar.** -/
structure CivilDate where
  year : Int
  month : Int
  day : Int
  month_mem : 1 ≤ month ∧ month ≤ 12
  day_mem : 1 ≤ day ∧ day ≤ daysInMonth year month

namespace CivilDate

theorem daysInMonth_mem (year month : Int) : 28 ≤ daysInMonth year month ∧ daysInMonth year month ≤ 31 := by
  unfold daysInMonth
  split
  · split <;> decide
  · split <;> decide

variable {date : CivilDate} {year month day era : Int}

/-- The date after a date. -/
def next (date : CivilDate) : CivilDate :=
  if hday : date.day < daysInMonth date.year date.month then
    { date with day := date.day + 1, day_mem := ⟨by have := date.day_mem; omega, hday⟩ }
  else if hmonth : date.month < 12 then
    { year := date.year, month := date.month + 1, day := 1
      month_mem := by have := date.month_mem; omega
      day_mem := by have := daysInMonth_mem date.year (date.month + 1); omega }
  else ⟨date.year + 1, 1, 1, by decide, by simp [daysInMonth]⟩

/-- The year as one that begins on 1 March. -/
def marchYear (year month : Int) : Int := year - if month ≤ 2 then 1 else 0

/-- **The year fits**: it is an `int`, and so is all that `days_from_civil` computes from it. -/
def YearFits (date : CivilDate) : Prop :=
    -2147483249 ≤ marchYear date.year date.month ∧ date.year ≤ 2147483647

/-- `days_from_civil` of a date. -/
def days (date : CivilDate) : Option Int := daysFromCivil date.year date.month date.day

/-- The days of the years before one. -/
def yearDays (year : Int) : Int := 365 * year + year / 4 - year / 100 + year / 400

/-- The number of a day: the days of the years, of the months since March, and of the month. -/
def dayNumber (year month day : Int) : Int :=
  yearDays (marchYear year month) + (153 * (month + if 2 < month then -3 else 9) + 2) / 5 + day - 719469

/-! ## Both count the same days -/

theorem asUnsigned_of_fits (hlow : 0 ≤ day) (hhigh : day < 4294967296) : asUnsigned day = day :=
  Int.emod_eq_of_lt hlow hhigh

theorem castInt_of_fits (hlow : 0 ≤ day) (hhigh : day < 2147483648) : castInt day = day := by
  rw [castInt, Int.bmod_def]
  omega

/-- The era of a year, by truncating division. -/
theorem tdiv_era : (if 0 ≤ year then year else year - 399).tdiv 400 = year / 400 := by
  split
  · exact Int.tdiv_eq_ediv_of_nonneg ‹_›
  · rw [Int.tdiv_eq_ediv, show Int.sign 400 = 1 from rfl]
    split <;> omega

/-- The days of the years of whole eras, and of a year of the next. -/
theorem yearDays_era (hlow : 0 ≤ year) (hhigh : year ≤ 399) :
    yearDays (year + era * 400) = era * 146097 + (365 * year + year / 4 - year / 100) := by
  unfold yearDays
  omega

/-- **`days_from_civil` gives the number of the day.** -/
theorem daysFromCivil_eq (hmonth : 1 ≤ month ∧ month ≤ 12) (hday : 1 ≤ day ∧ day ≤ 31)
    (hlow : -2147483249 ≤ marchYear year month) (hhigh : year ≤ 2147483647) :
    daysFromCivil year month day = some (dayNumber year month day) := by
  have hle : marchYear year month ≤ year := by
    unfold marchYear
    omega
  unfold daysFromCivil dayNumber
  rw [show year - (if month ≤ 2 then 1 else 0) = marchYear year month from rfl]
  generalize marchYear year month = march at *
  have hyear : asInt march = some march := if_pos ⟨by omega, by omega⟩
  have hdividend : asInt (if 0 ≤ march then march else march - 399) =
      some (if 0 ≤ march then march else march - 399) := if_pos (by omega)
  simp only [hyear, hdividend, Option.bind_eq_bind, Option.bind_some, tdiv_era, Option.pure_def,
    Option.some.injEq, yearDays]
  -- in range every operation is exact: the month wraps around to the months since March
  simp (disch := omega) only [asUnsigned_of_fits, castInt_of_fits]
  omega

theorem days_eq (h : date.YearFits) : date.days = some (dayNumber date.year date.month date.day) := by
  have hday := date.day_mem
  have hmem := daysInMonth_mem date.year date.month
  exact daysFromCivil_eq date.month_mem (by omega) h.1 h.2

/-- **The date after a date is one day later.** -/
theorem dayNumber_next : dayNumber date.next.year date.next.month date.next.day =
    dayNumber date.year date.month date.day + 1 := by
  obtain ⟨year, month, day, hmonth, hday⟩ := date
  unfold next
  simp only
  split
  · simp only [dayNumber]
    omega
  · obtain rfl : day = daysInMonth year month := by omega
    obtain ⟨hlow, hhigh⟩ := hmonth
    split
    · interval_cases month
      all_goals
        simp [dayNumber, yearDays, marchYear, daysInMonth, isLeap]
        omega
    · obtain rfl : month = 12 := by omega
      simp [dayNumber, yearDays, marchYear, daysInMonth]
      omega

/-- A day of an era is a day of its year. -/
theorem dayOfYear_mem (hlow : 0 ≤ day) (hhigh : day ≤ 146096)
    (hyear : year = (day - day / 1460 + day / 36524 - day / 146096) / 365) :
    0 ≤ day - (365 * year + year / 4 - year / 100) ∧ day - (365 * year + year / 4 - year / 100) ≤ 365 := by
  -- the centuries of the era one by one; its last day is a leap day, behind the fourth
  obtain hcentury | hcentury | hcentury | hcentury | hcentury : day / 36524 = 0 ∨ day / 36524 = 1 ∨
      day / 36524 = 2 ∨ day / 36524 = 3 ∨ day / 36524 = 4 := by omega
  all_goals
    have hyears : year / 100 = 0 ∨ year / 100 = 1 ∨ year / 100 = 2 ∨ year / 100 = 3 := by omega
    omega

/-- A day of a year that begins on 1 March is a day of its month. -/
theorem month_mem_of {march : Int} (hlow : 0 ≤ day) (hhigh : day ≤ 365) (hmarch : march = (5 * day + 2) / 153)
    (hmonth : month = if march < 10 then march + 3 else march - 9) : (1 ≤ month ∧ month ≤ 12) ∧
      (1 ≤ day - (153 * march + 2) / 5 + 1 ∧ day - (153 * march + 2) / 5 + 1 ≤ 31) ∧
        (month + if 2 < month then -3 else 9) = march := by
  omega

/-- **The date of a day**, among those that wall times reach. -/
theorem civilFromDays_spec {days : Int} (hlow : 0 ≤ days) (hhigh : days < 1000000) :
    ∃ year month day, civilFromDays days = (year, month, day) ∧ (1 ≤ month ∧ month ≤ 12) ∧
      (1 ≤ day ∧ day ≤ 31) ∧ dayNumber year month day = days - 719468 ∧ 0 ≤ year ∧ year ≤ 3000 := by
  obtain ⟨era, hera⟩ : ∃ era, era = days / 146097 := ⟨_, rfl⟩
  have heras : 0 ≤ era ∧ era ≤ 6 := by omega
  obtain ⟨dayOfEra, hday⟩ : ∃ dayOfEra, dayOfEra = days - era * 146097 := ⟨_, rfl⟩
  obtain ⟨yearOfEra, hyear⟩ : ∃ yearOfEra,
    yearOfEra = (dayOfEra - dayOfEra / 1460 + dayOfEra / 36524 - dayOfEra / 146096) / 365 := ⟨_, rfl⟩
  have hmem := dayOfYear_mem (by omega) (by omega) hyear
  have hyears : 0 ≤ yearOfEra ∧ yearOfEra ≤ 399 := by omega
  obtain ⟨dayOfYear, hdays⟩ : ∃ dayOfYear,
    dayOfYear = dayOfEra - (365 * yearOfEra + yearOfEra / 4 - yearOfEra / 100) := ⟨_, rfl⟩
  rw [← hdays] at hmem
  obtain ⟨march, hmarch⟩ : ∃ march, march = (5 * dayOfYear + 2) / 153 := ⟨_, rfl⟩
  obtain ⟨month, hmonth⟩ : ∃ month, month = if march < 10 then march + 3 else march - 9 := ⟨_, rfl⟩
  obtain ⟨hmonths, hdayOfMonth, hsince⟩ := month_mem_of hmem.1 hmem.2 hmarch hmonth
  refine ⟨yearOfEra + era * 400 + if month ≤ 2 then 1
    else 0, month, dayOfYear - (153 * march + 2) / 5 + 1, ?_,
    hmonths, hdayOfMonth, ?_, ?_⟩
  · unfold civilFromDays
    simp (disch := omega) only [if_pos, Int.tdiv_eq_ediv_of_nonneg, ← hera, ← hday, ← hyear,
      ← hdays, ← hmarch, ← hmonth]
  · have hstart : marchYear (yearOfEra + era * 400 + if month ≤ 2 then 1 else 0) month =
      yearOfEra + era * 400 :=
      Int.add_sub_cancel ..
    rw [dayNumber, hstart, hsince, yearDays_era hyears.1 hyears.2]
    rw [hday] at hdays
    omega
  · clear hday hyear hdays hmarch hmonth hsince
    omega

/-- **The two calendar computations are inverse**: for every wall time of 64 bits; and the date
after a date, whose years fit, is one day later. -/
theorem calendars_agree :
    (∀ wallTimeNs : Int, -9223372036854775808 ≤ wallTimeNs → wallTimeNs ≤ 9223372036854775807 →
      daysFromTradingDate (tradingDateOf wallTimeNs) = some (wallTimeNs / 86400000000000)) ∧
    ∀ date : CivilDate, date.YearFits → date.next.YearFits →
      ∃ n, date.days = some n ∧ date.next.days = some (n + 1) := by
  constructor
  · intro wallTimeNs hlow hhigh
    have hfloor : (if wallTimeNs.tmod 86400000000000 < 0 then wallTimeNs.tdiv 86400000000000 - 1
        else wallTimeNs.tdiv 86400000000000) = wallTimeNs / 86400000000000 := by
      rw [Int.tmod_def, Int.tdiv_eq_ediv, show Int.sign 86400000000000 = 1 from rfl]
      omega
    obtain ⟨year, month, day, hcivil, hmonth, hday, hnumber, hyear⟩ :=
      @civilFromDays_spec (wallTimeNs / 86400000000000 + 719468) (by omega) (by omega)
    have hmarch : -2147483249 ≤ marchYear year month := by
      unfold marchYear
      omega
    have hdays := daysFromCivil_eq hmonth hday hmarch (by omega)
    rw [hnumber, Int.add_sub_cancel] at hdays
    unfold tradingDateOf daysFromTradingDate
    simp (disch := omega) only [hfloor, hcivil, castInt_of_fits, Int.tdiv_eq_ediv_of_nonneg,
      Int.tmod_eq_emod_of_nonneg]
    have hyearIn : (year * 10000 + month * 100 + day) / 10000 = year := by omega
    have hmonthIn : (year * 10000 + month * 100 + day) / 100 % 100 = month := by omega
    have hdayIn : (year * 10000 + month * 100 + day) % 100 = day := by omega
    rw [hyearIn, hmonthIn, hdayIn, hdays]
  · intro date hfits hnext
    exact ⟨_, days_eq hfits, by rw [days_eq hnext, dayNumber_next]⟩

theorem calendars_agree_before_1970 :
    daysFromTradingDate (tradingDateOf (-1)) = some (-1) ∧ ∃ n, daysFromCivil 2024 2 28 = some n ∧
      daysFromCivil 2024 2 29 = some (n + 1) :=
  ⟨calendars_agree.1 (-1) (by decide) (by decide),
    calendars_agree.2 ⟨2024, 2, 28, by decide, by decide⟩ ⟨by decide, by decide⟩ ⟨by decide, by decide⟩⟩

end CivilDate

end PubsubVenue
