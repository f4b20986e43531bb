import Cuore.Framework.Calendar
import Cuore.Framework.Word
import Mathlib.Data.Nat.Digits.Defs
import Mathlib.Tactic.IntervalCases

/-!
# Seconds since the epoch (`time.c`)

`get_epoch_rtc` reads the real-time clock twice, until two readings agree, and turns the fields
into seconds since 1970-01-01.  Whole years are counted by three shifted divisions on 64-bit
words, months by a table for a common year, and the leap day of the current year is added from
March on.

`Framework/Calendar.lean` says what the count should be: the number of a date of the proleptic
Gregorian calendar.  `wholeYears_eq` matches the divisions with it, `daysBefore_eq` the table with
the leap-day correction, and `epochOfFields_eq` puts the two together.  `getEpochRtc_date` is the
statement about the function itself: however often the two readings disagree, the reading that is
taken gives `86400` times the number of the day, and the day after gives `86400` more.
-/

namespace Cuore

/-! ## The function -/

/-- `rtc_time_t`, the decoded fields of the clock.  The weekday is not read here. -/
structure RtcTime where
  second : ℕ
  minute : ℕ
  hour : ℕ
  day : ℕ
  month : ℕ
  year : ℕ
  deriving DecidableEq

/-- `days_before_month`. -/
def daysBeforeMonth : List ℕ := [0, 31, 59, 90, 120, 151, 181, 212, 243, 273, 304, 334]

/-- The sum over whole years in `get_epoch_rtc`. -/
def wholeYears (year : ℕ) : ℕ :=
  let totalDays := wmul (wsub year 1970) 365
  let totalDays := wadd totalDays (wsub year 1969 / 4)
  let totalDays := wsub totalDays (wsub year 1901 / 100)
  wadd totalDays (wsub year 1601 / 400)

/-- `total_days` in `get_epoch_rtc`, with the entry of the table for the month. -/
def totalDays (t1 : RtcTime) (before : ℕ) : ℕ :=
  let total := wadd (wholeYears t1.year) before
  let total :=
    if t1.month > 2 then
      if (t1.year % 4 = 0 ∧ t1.year % 100 ≠ 0) ∨ t1.year % 400 = 0 then wadd total 1 else total
    else total
  wadd total (wsub t1.day 1)

/-- `get_epoch_rtc` behind the loop, on the reading it takes.  A month outside the table gives no
result. -/
def epochOfFields (t1 : RtcTime) : Option ℕ :=
  daysBeforeMonth[wsub t1.month 1]?.map fun before =>
    wadd (wadd (wadd (wmul (totalDays t1 before) 86400) (t1.hour * 3600)) (t1.minute * 60))
      t1.second

/-- `get_epoch_rtc`, given the pairs of readings of the clock in their order.  It takes the first
pair that agrees, and has no result while there is none. -/
def getEpochRtc : List (RtcTime × RtcTime) → Option ℕ
  | [] => none
  | (t1, t2) :: readings => if t1 ≠ t2 then getEpochRtc readings else epochOfFields t1

/-- Readings that disagree are skipped. -/
lemma getEpochRtc_append {retries : List (RtcTime × RtcTime)} (h : ∀ p ∈ retries, p.1 ≠ p.2)
    (readings : List (RtcTime × RtcTime)) :
    getEpochRtc (retries ++ readings) = getEpochRtc readings := by
  induction retries with
  | nil => rfl
  | cons p retries ih =>
    obtain ⟨hp, htail⟩ := List.forall_mem_cons.1 h
    rw [List.cons_append, getEpochRtc, if_pos hp, ih htail]

/-! ## Years and months of the source -/

/-- The three divisions count the days of the years since 1970. -/
lemma wholeYears_eq {year : ℕ} (h : 1970 ≤ year) (hlt : year < 2 ^ 32) :
    wholeYears year = daysBeforeYear 1970 year := by
  have hsum := sum_daysInYear (by decide : 0 < 1970) h
  simp only [leapsBefore] at hsum
  have hyears : wmul (wsub year 1970) 365 = (year - 1970) * 365 := by
    rw [wsub_of_le h (by simp only [word]; omega), wmul_of_lt (by simp only [word]; omega)]
  simp only [wholeYears, hyears]
  rw [wsub_of_le (show 1969 ≤ year by omega) (by simp only [word]; omega),
    wsub_of_le (show 1901 ≤ year by omega) (by simp only [word]; omega),
    wsub_of_le (show 1601 ≤ year by omega) (by simp only [word]; omega)]
  have hfours : wadd ((year - 1970) * 365) ((year - 1969) / 4) =
      (year - 1970) * 365 + (year - 1969) / 4 := wadd_of_lt (by simp only [word]; omega)
  have hhundreds : wsub ((year - 1970) * 365 + (year - 1969) / 4) ((year - 1901) / 100) =
      (year - 1970) * 365 + (year - 1969) / 4 - (year - 1901) / 100 :=
    wsub_of_le (by omega) (by simp only [word]; omega)
  rw [hfours, hhundreds, wadd_of_lt (by simp only [word]; omega)]
  omega

/-- Days of whole years stay far below the word size. -/
lemma daysBeforeYear_le {year : ℕ} (h : 1970 ≤ year) :
    daysBeforeYear 1970 year ≤ (year - 1970) * 366 := by
  have hsum := sum_daysInYear (by decide : 0 < 1970) h
  simp only [leapsBefore] at hsum
  omega

/-- The source's test for a leap year. -/
lemma isLeap_iff (year : ℕ) :
    (year % 4 = 0 ∧ year % 100 ≠ 0) ∨ year % 400 = 0 ↔ IsLeap year := by
  simp only [IsLeap]
  omega

/-- The table gives the days before a month, up to the leap day. -/
lemma daysBefore_eq (year : ℕ) {month : ℕ} (h : 1 ≤ month) (h' : month ≤ 12) :
    ∃ before, daysBeforeMonth[wsub month 1]? = some before ∧ before ≤ 334 ∧
      daysBefore year month = before + if month > 2 ∧ IsLeap year then 1 else 0 := by
  have hindex : wsub month 1 = month - 1 := wsub_of_le h (by simp only [word]; omega)
  rw [hindex]
  by_cases hleap : IsLeap year <;> interval_cases month <;>
    simp [daysBeforeMonth, daysBefore, daysInMonth, hleap, Finset.sum_Ico_eq_sum_range,
      Finset.sum_range_succ]

/-! ## The epoch of a date -/

/-- The fields of a date and a time of day. -/
def fieldsAt (d : Date 1970) (hour minute second : ℕ) : RtcTime :=
  ⟨second, minute, hour, d.day, d.month, d.year⟩

/-- The table with the leap-day correction gives the number of the day. -/
lemma totalDays_eq (d : Date 1970) (hyear : d.year < 2 ^ 32) (hour minute second : ℕ) :
    ∃ before, daysBeforeMonth[wsub d.month 1]? = some before ∧
      totalDays (fieldsAt d hour minute second) before = d.dayNumber ∧
      d.dayNumber < 2 ^ 32 * 367 := by
  obtain ⟨before, hbefore, hle, hmonths⟩ := daysBefore_eq d.year d.month_pos d.month_le
  refine ⟨before, hbefore, ?_⟩
  have hyears := daysBeforeYear_le d.base_le
  have hbase := d.base_le
  have hdayle : d.day ≤ 31 := by
    apply d.day_le.trans
    rw [daysInMonth]
    split_ifs <;> decide
  have hday : wsub d.day 1 = d.day - 1 := wsub_of_le d.day_pos (by simp only [word]; omega)
  have hfirst : wadd (daysBeforeYear 1970 d.year) before =
      daysBeforeYear 1970 d.year + before := wadd_of_lt (by simp only [word]; omega)
  simp only [totalDays, fieldsAt, isLeap_iff, wholeYears_eq d.base_le hyear, hday,
    Date.dayNumber, hmonths]
  -- the correction for the current year is one more addition or none
  by_cases hm : d.month > 2
  · by_cases hl : IsLeap d.year
    · have hleap : wadd (daysBeforeYear 1970 d.year + before) 1 =
          daysBeforeYear 1970 d.year + before + 1 := wadd_of_lt (by simp only [word]; omega)
      rw [if_pos hm, if_pos hl, if_pos ⟨hm, hl⟩, hfirst, hleap,
        wadd_of_lt (by simp only [word]; omega)]
      omega
    · rw [if_pos hm, if_neg hl, if_neg (fun hboth => hl hboth.2), hfirst,
        wadd_of_lt (by simp only [word]; omega)]
      omega
  · rw [if_neg hm, if_neg (fun hboth => hm hboth.1), hfirst,
      wadd_of_lt (by simp only [word]; omega)]
    omega

/-- The fields of a date and a time of day give the seconds since 1970-01-01. -/
lemma epochOfFields_eq (d : Date 1970) (hyear : d.year < 2 ^ 32) {hour minute second : ℕ}
    (hh : hour < 24) (hm : minute < 60) (hs : second < 60) :
    epochOfFields (fieldsAt d hour minute second) =
      some (86400 * d.dayNumber + (3600 * hour + 60 * minute + second)) := by
  obtain ⟨before, hbefore, htotal, hlt⟩ := totalDays_eq d hyear hour minute second
  rw [epochOfFields, show (fieldsAt d hour minute second).month = d.month from rfl, hbefore,
    Option.map_some, htotal]
  simp only [fieldsAt]
  have hdays : wmul d.dayNumber 86400 = d.dayNumber * 86400 :=
    wmul_of_lt (by simp only [word]; omega)
  have hhours : wadd (d.dayNumber * 86400) (hour * 3600) = d.dayNumber * 86400 + hour * 3600 :=
    wadd_of_lt (by simp only [word]; omega)
  have hminutes : wadd (d.dayNumber * 86400 + hour * 3600) (minute * 60) =
      d.dayNumber * 86400 + hour * 3600 + minute * 60 := wadd_of_lt (by simp only [word]; omega)
  rw [hdays, hhours, hminutes, wadd_of_lt (by simp only [word]; omega)]
  exact Option.some_inj.2 (by omega)

/-- **Calendar arithmetic is exact.**  For every date from 1970-01-01 on whose year fits its
field and every time of day, `get_epoch_rtc` returns `86400` times the days since 1970-01-01 plus
the seconds of the day, however many readings disagree first.  The number of days is the number
of steps to the next day that lead from 1970-01-01 to the date, and the next day at the same time
of day gives `86400` more. -/
theorem getEpochRtc_date (d : Date 1970) (hyear : d.year < 2 ^ 32) (hour minute second : ℕ)
    (hh : hour < 24) (hm : minute < 60) (hs : second < 60)
    (retries later : List (RtcTime × RtcTime)) (hretries : ∀ p ∈ retries, p.1 ≠ p.2) :
    Date.next^[d.dayNumber] (Date.first 1970) = d ∧
    getEpochRtc (retries ++
        (fieldsAt d hour minute second, fieldsAt d hour minute second) :: later) =
      some (86400 * d.dayNumber + (3600 * hour + 60 * minute + second)) ∧
    (d.next.year < 2 ^ 32 →
      getEpochRtc (retries ++
          (fieldsAt d.next hour minute second, fieldsAt d.next hour minute second) :: later) =
        some (86400 * d.dayNumber + (3600 * hour + 60 * minute + second) + 86400)) := by
  have htaken : ∀ t : RtcTime, getEpochRtc (retries ++ (t, t) :: later) = epochOfFields t := by
    intro t
    rw [getEpochRtc_append hretries, getEpochRtc, if_neg (not_not_intro rfl)]
  refine ⟨d.iterate_next_dayNumber, ?_, ?_⟩
  · rw [htaken, epochOfFields_eq d hyear hh hm hs]
  · intro hnext
    rw [htaken, epochOfFields_eq d.next hnext hh hm hs, d.dayNumber_next]
    exact Option.some_inj.2 (by omega)

/-- The last second of the 28th of February 2100, read after one retry. -/
theorem getEpochRtc_date_2100 :
    let d : Date 1970 := ⟨2100, 2, 28, by decide, by decide, by decide, by decide, by decide⟩
    Date.next^[d.dayNumber] (Date.first 1970) = d ∧
      getEpochRtc [(fieldsAt d 23 59 58, fieldsAt d 23 59 59),
        (fieldsAt d 23 59 59, fieldsAt d 23 59 59)] = some (86400 * d.dayNumber + 86399) ∧
      d.next.month = 3 ∧
      getEpochRtc [(fieldsAt d 23 59 58, fieldsAt d 23 59 59),
        (fieldsAt d.next 23 59 59, fieldsAt d.next 23 59 59)] =
          some (86400 * d.dayNumber + 86399 + 86400) := by
  intro d
  obtain ⟨hday, hepoch, hnext⟩ := getEpochRtc_date d (by decide) 23 59 59 (by decide) (by decide)
    (by decide) [(fieldsAt d 23 59 58, fieldsAt d 23 59 59)] [] (by decide)
  exact ⟨hday, hepoch, by decide, hnext (by decide)⟩

end Cuore
