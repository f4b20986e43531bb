import Mathlib.Algebra.BigOperators.Intervals
import Mathlib.Logic.Function.Iterate

/-!
# The proleptic Gregorian calendar

A `Date` is a valid day from a first year `base` on: the month is one of twelve and the day is one
of its month, by the fields of the structure.  `Date.next` is the day after.

`Date.dayNumber` counts the days since the first of January of `base`, year by year and month by
month.  The two facts that make it the count of days are `dayNumber_next`, which says that it grows
by one from a day to the next, and `exists_iterate_next`, which says that every date is reached
from the first one.  `sum_daysInYear` is the closed form of the count of whole years.
-/

namespace Cuore

/-! ## Years and months -/

/-- A leap year. -/
def IsLeap (year : ℕ) : Prop := 4 ∣ year ∧ ¬100 ∣ year ∨ 400 ∣ year

instance (year : ℕ) : Decidable (IsLeap year) := inferInstanceAs (Decidable (_ ∨ _))

/-- The days of a year. -/
def daysInYear (year : ℕ) : ℕ := if IsLeap year then 366 else 365

/-- The days of a month, with the months counted from one. -/
def daysInMonth (year month : ℕ) : ℕ :=
  if month = 2 then if IsLeap year then 29 else 28
  else if month = 4 ∨ month = 6 ∨ month = 9 ∨ month = 11 then 30 else 31

lemma daysInMonth_pos (year month : ℕ) : 0 < daysInMonth year month := by
  rw [daysInMonth]
  split_ifs <;> decide

/-- The days of a year before a month. -/
def daysBefore (year month : ℕ) : ℕ := ∑ m ∈ Finset.Ico 1 month, daysInMonth year m

lemma daysBefore_succ {year month : ℕ} (hm : 1 ≤ month) :
    daysBefore year (month + 1) = daysBefore year month + daysInMonth year month :=
  Finset.sum_Ico_succ_top hm _

/-- The months of a year make up the year. -/
lemma daysBefore_year (year : ℕ) : daysBefore year 13 = daysInYear year := by
  by_cases h : IsLeap year <;>
    simp [daysBefore, daysInYear, daysInMonth, h, Finset.sum_Ico_eq_sum_range,
      Finset.sum_range_succ]

/-- The days of the years from `base` on, before `year`. -/
def daysBeforeYear (base year : ℕ) : ℕ := ∑ y ∈ Finset.Ico base year, daysInYear y

lemma daysBeforeYear_succ {base year : ℕ} (h : base ≤ year) :
    daysBeforeYear base (year + 1) = daysBeforeYear base year + daysInYear year :=
  Finset.sum_Ico_succ_top h _

/-- The leap years before a year, counted by the three divisions of the Gregorian rule. -/
def leapsBefore (year : ℕ) : ℕ := (year - 1) / 4 + (year - 1) / 400 - (year - 1) / 100

lemma leapsBefore_succ {year : ℕ} (h : 0 < year) :
    leapsBefore (year + 1) = leapsBefore year + if IsLeap year then 1 else 0 := by
  by_cases hleap : IsLeap year
  · rw [if_pos hleap]
    simp only [leapsBefore, IsLeap] at hleap ⊢
    omega
  · rw [if_neg hleap]
    simp only [leapsBefore, IsLeap] at hleap ⊢
    omega

/-- **The days of whole years**, in closed form. -/
lemma sum_daysInYear {base year : ℕ} (hbase : 0 < base) (h : base ≤ year) :
    daysBeforeYear base year + leapsBefore base = (year - base) * 365 + leapsBefore year := by
  induction year, h using Nat.le_induction with
  | base => simp [daysBeforeYear]
  | succ year hle ih =>
    rw [daysBeforeYear_succ hle, leapsBefore_succ (by omega), daysInYear]
    split_ifs <;> omega

/-! ## Dates -/

/-- A day of the calendar from the year `base` on. -/
structure Date (base : ℕ) where
  year : ℕ
  month : ℕ
  day : ℕ
  base_le : base ≤ year
  month_pos : 1 ≤ month
  month_le : month ≤ 12
  day_pos : 1 ≤ day
  day_le : day ≤ daysInMonth year month

namespace Date

variable {base : ℕ}

@[ext] lemma ext {d e : Date base} (hy : d.year = e.year) (hm : d.month = e.month)
    (hd : d.day = e.day) : d = e := by
  cases d
  cases e
  cases hy
  cases hm
  cases hd
  rfl

/-- The first of a month. -/
def firstOf (year month : ℕ) (hy : base ≤ year) (hm : 1 ≤ month) (hm' : month ≤ 12) : Date base :=
  ⟨year, month, 1, hy, hm, hm', le_rfl, daysInMonth_pos _ _⟩

/-- The first of January of the first year. -/
def first (base : ℕ) : Date base := firstOf base 1 le_rfl le_rfl (by decide)

/-- The day after. -/
def next (d : Date base) : Date base :=
  if hd : d.day + 1 ≤ daysInMonth d.year d.month then
    ⟨d.year, d.month, d.day + 1, d.base_le, d.month_pos, d.month_le, by omega, hd⟩
  else if hm : d.month + 1 ≤ 12 then
    firstOf d.year (d.month + 1) d.base_le (by omega) hm
  else
    firstOf (d.year + 1) 1 (d.base_le.trans (Nat.le_succ _)) le_rfl (by decide)

/-- The days since the first of January of the first year. -/
def dayNumber (d : Date base) : ℕ :=
  daysBeforeYear base d.year + daysBefore d.year d.month + (d.day - 1)

lemma dayNumber_first : (first base).dayNumber = 0 := by
  simp [dayNumber, first, firstOf, daysBeforeYear, daysBefore]

/-- **The day after has the next number**, within a month, at its end and at the end of a year. -/
lemma dayNumber_next (d : Date base) : d.next.dayNumber = d.dayNumber + 1 := by
  have hpos := d.day_pos
  have hle := d.day_le
  rw [next]
  split_ifs with hd hm
  · simp only [dayNumber]
    omega
  · have hlast : d.day = daysInMonth d.year d.month := by omega
    simp only [dayNumber, firstOf, daysBefore_succ d.month_pos]
    omega
  · have hmonth : d.month = 12 := by
      have := d.month_le
      omega
    have hlast : d.day = daysInMonth d.year 12 := by
      rw [hmonth] at hd hle
      omega
    have hyear := daysBefore_year d.year
    rw [daysBefore_succ (by decide)] at hyear
    have hfirst : daysBefore (d.year + 1) 1 = 0 := by simp [daysBefore]
    simp only [dayNumber, firstOf, daysBeforeYear_succ d.base_le, hmonth, hfirst]
    omega

lemma dayNumber_iterate (n : ℕ) : (next^[n] (first base)).dayNumber = n := by
  induction n with
  | zero => exact dayNumber_first
  | succ n ih => rw [Function.iterate_succ_apply', dayNumber_next, ih]

/-- The days of a month follow one another. -/
lemma iterate_next_day {year month day : ℕ} (hy : base ≤ year) (hm : 1 ≤ month) (hm' : month ≤ 12)
    (hd : 1 ≤ day) (hd' : day ≤ daysInMonth year month) :
    next^[day - 1] (firstOf year month hy hm hm') = ⟨year, month, day, hy, hm, hm', hd, hd'⟩ := by
  induction day, hd using Nat.le_induction with
  | base => rfl
  | succ day hle ih =>
    obtain ⟨k, rfl⟩ := Nat.exists_eq_add_of_le' hle
    have hprev := ih (by omega)
    rw [Nat.add_sub_cancel] at hprev ⊢
    rw [Function.iterate_succ_apply', hprev, next, dif_pos hd']

/-- The first of a month leads to the first of the next one. -/
lemma exists_iterate_month {year month : ℕ} (hy : base ≤ year) (hm : 1 ≤ month)
    (hm' : month + 1 ≤ 12) : ∃ n, next^[n] (firstOf year month hy hm (by omega)) =
      (firstOf year (month + 1) hy (by omega) hm' : Date base) := by
  have hlast := iterate_next_day hy hm (by omega) (daysInMonth_pos year month) le_rfl
  refine ⟨daysInMonth year month - 1 + 1, ?_⟩
  rw [Function.iterate_succ_apply', hlast, next, dif_neg (by simp), dif_pos hm']

/-- The first of January leads to the first of every month of the year. -/
lemma exists_iterate_firstOf {year month : ℕ} (hy : base ≤ year) (hm : 1 ≤ month)
    (hm' : month ≤ 12) : ∃ n, next^[n] (firstOf year 1 hy le_rfl (by decide)) =
      (firstOf year month hy hm hm' : Date base) := by
  induction month, hm using Nat.le_induction with
  | base => exact ⟨0, rfl⟩
  | succ month hle ih =>
    obtain ⟨n, hn⟩ := ih (by omega)
    obtain ⟨k, hk⟩ := exists_iterate_month hy hle hm'
    refine ⟨k + n, ?_⟩
    rw [Function.iterate_add_apply, hn, hk]

/-- The first of January of the first year leads to that of every year. -/
lemma exists_iterate_year {year : ℕ} (hy : base ≤ year) :
    ∃ n, next^[n] (first base) = (firstOf year 1 hy le_rfl (by decide) : Date base) := by
  induction year, hy using Nat.le_induction with
  | base => exact ⟨0, rfl⟩
  | succ year hle ih =>
    obtain ⟨n, hn⟩ := ih
    obtain ⟨k, hk⟩ := exists_iterate_firstOf hle (show 1 ≤ 12 by decide) le_rfl
    have hlast := iterate_next_day hle (show 1 ≤ 12 by decide) le_rfl
      (daysInMonth_pos year 12) le_rfl
    refine ⟨daysInMonth year 12 - 1 + 1 + (k + n), ?_⟩
    rw [Function.iterate_add_apply, Function.iterate_add_apply next k n, hn, hk,
      Function.iterate_succ_apply', hlast, next, dif_neg (by simp), dif_neg (by simp)]

/-- **Every date is reached** from the first one, in as many days as its number says. -/
lemma iterate_next_dayNumber (d : Date base) : next^[d.dayNumber] (first base) = d := by
  obtain ⟨n, hn⟩ : ∃ n, next^[n] (first base) = d := by
    obtain ⟨n, hn⟩ := exists_iterate_year d.base_le
    obtain ⟨k, hk⟩ := exists_iterate_firstOf d.base_le d.month_pos d.month_le
    have hday := iterate_next_day d.base_le d.month_pos d.month_le d.day_pos d.day_le
    refine ⟨d.day - 1 + (k + n), ?_⟩
    rw [Function.iterate_add_apply, Function.iterate_add_apply next k n, hn, hk, hday]
  rw [← hn, dayNumber_iterate]

end Date

end Cuore
