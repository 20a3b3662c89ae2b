import Mathlib.Data.Prod.Lex
import Mathlib.Order.Monotone.Basic
import Mathlib.Data.Int.ConditionallyCompleteOrder
import Mathlib.Tactic.IntervalCases

/-! The proleptic Gregorian calendar: the days are numbered by the integers. -/

namespace Muduo.Library

namespace Gregorian

def isLeap (year : ℤ) : Bool := year % 4 = 0 ∧ (year % 100 ≠ 0 ∨ year % 400 = 0)

def daysInMonth (year month : ℤ) : ℤ :=
  if month = 2 then if isLeap year then 29 else 28
  else if month = 4 ∨ month = 6 ∨ month = 9 ∨ month = 11 then 30
  else 31

def daysInYear (year : ℤ) : ℤ := if isLeap year then 366 else 365

/-- The days of the first `n` months. -/
def daysBefore (year : ℤ) : ℕ → ℤ
  | 0 => 0
  | n + 1 => daysBefore year n + daysInMonth year (n + 1)

/-- The days from 1 January of year 1 to 1 January of `year`. -/
def daysBeforeYear (year : ℤ) : ℤ :=
  365 * (year - 1) + (year - 1) / 4 - (year - 1) / 100 + (year - 1) / 400

end Gregorian

open Gregorian

structure Gregorian where
  year : ℤ
  month : ℤ
  day : ℤ
  month_mem : 1 ≤ month ∧ month ≤ 12
  day_mem : 1 ≤ day ∧ day ≤ daysInMonth year month
  deriving DecidableEq

namespace Gregorian

/-- Calendar order. -/
instance : LinearOrder Gregorian :=
  LinearOrder.lift' (fun d => toLex (d.year, toLex (d.month, d.day)))
    fun ⟨_, _, _, _, _⟩ ⟨_, _, _, _, _⟩ h => by simpa using h

theorem lt_iff {d e : Gregorian} : d < e ↔ d.year < e.year ∨
    d.year = e.year ∧ (d.month < e.month ∨ d.month = e.month ∧ d.day < e.day) := by
  have h : d < e ↔
      toLex (d.year, toLex (d.month, d.day)) < toLex (e.year, toLex (e.month, e.day)) := Iff.rfl
  rw [h, Prod.Lex.toLex_lt_toLex, Prod.Lex.toLex_lt_toLex]

/-- The number of days since 1 January of the same year. -/
def dayOfYear (d : Gregorian) : ℤ := daysBefore d.year (d.month - 1).toNat + d.day - 1

/-- 1 January of year 1 is day 1. -/
def ordinal (d : Gregorian) : ℤ := daysBeforeYear d.year + d.dayOfYear + 1

/-- Day 1 is a Monday, and Sunday is 0. -/
def weekday (d : Gregorian) : ℤ := d.ordinal % 7

/-! ### Calendar order is the order of the numbers -/

theorem daysInMonth_pos (year month : ℤ) : 0 < daysInMonth year month := by
  unfold daysInMonth
  split_ifs <;> decide

theorem daysInYear_le (year : ℤ) : daysInYear year ≤ 366 := by
  unfold daysInYear
  split <;> decide

theorem daysInMonth_le (year month : ℤ) : daysInMonth year month ≤ 31 := by
  unfold daysInMonth
  split_ifs <;> decide

theorem daysBefore_mono (year : ℤ) : Monotone (daysBefore year) := by
  refine monotone_nat_of_le_succ fun n => ?_
  have hpos := daysInMonth_pos year (n + 1)
  rw [daysBefore]
  omega

theorem daysBefore_year (year : ℤ) : daysBefore year 12 = daysInYear year := by
  simp only [daysBefore, daysInMonth, daysInYear]
  cases isLeap year <;> rfl

theorem isLeap_iff {year : ℤ} :
    isLeap year = true ↔ year % 4 = 0 ∧ (year % 100 ≠ 0 ∨ year % 400 = 0) := by
  simp [isLeap]

theorem daysBeforeYear_succ (year : ℤ) :
    daysBeforeYear (year + 1) = daysBeforeYear year + daysInYear year := by
  unfold daysBeforeYear daysInYear
  split
  · rename_i h
    rw [isLeap_iff] at h
    omega
  · rename_i h
    rw [isLeap_iff] at h
    omega

theorem daysBeforeYear_mono : Monotone daysBeforeYear := by
  refine monotone_int_of_le_succ fun year => ?_
  rw [daysBeforeYear_succ, daysInYear]
  split <;> omega

variable {d e : Gregorian}

/-- A month lies in front of every later one. -/
theorem dayOfYear_lt (d : Gregorian) {n : ℕ} (hn : d.month ≤ n) :
    d.dayOfYear < daysBefore d.year n := by
  have hmonth := d.month_mem
  have hday := d.day_mem
  have hsucc : (d.month - 1).toNat + 1 ≤ n := by omega
  have hle := daysBefore_mono d.year hsucc
  have hcast : (((d.month - 1).toNat : ℕ) : ℤ) + 1 = d.month := by omega
  rw [daysBefore, hcast] at hle
  rw [dayOfYear]
  omega

theorem dayOfYear_nonneg (d : Gregorian) : 0 ≤ d.dayOfYear := by
  have hday := d.day_mem
  have hle := daysBefore_mono d.year (Nat.zero_le (d.month - 1).toNat)
  rw [daysBefore] at hle
  rw [dayOfYear]
  omega

theorem dayOfYear_lt_daysInYear (d : Gregorian) : d.dayOfYear < daysInYear d.year := by
  rw [← daysBefore_year]
  exact d.dayOfYear_lt d.month_mem.2

theorem ordinal_strictMono : StrictMono ordinal := by
  intro d e h
  rw [ordinal, ordinal]
  rcases lt_iff.mp h with hyear | ⟨hyear, hmonth | ⟨hmonth, hday⟩⟩
  · have hd := d.dayOfYear_lt_daysInYear
    have he := e.dayOfYear_nonneg
    have hmono := daysBeforeYear_mono (show d.year + 1 ≤ e.year from hyear)
    rw [daysBeforeYear_succ] at hmono
    omega
  · have hday := e.day_mem
    have hlt := d.dayOfYear_lt (n := (e.month - 1).toNat) (by omega)
    have he : e.dayOfYear = daysBefore e.year (e.month - 1).toNat + e.day - 1 := rfl
    rw [hyear] at hlt ⊢
    omega
  · rw [dayOfYear, dayOfYear, hyear, hmonth]
    omega

theorem ordinal_injective : Function.Injective ordinal := ordinal_strictMono.injective

/-! ### The day with a given number

Years are counted from March, so that the leap day is the last day of a year. A century has
36524 days and every fourth one 36525, a year has 365 days and every fourth one 366, and
from March on the months have 31, 30, 31, 30 and 31 days in turn. -/

section March

/-- The century of the day `a`, counted from 1 March of year 0. -/
def century (a : ℤ) : ℤ := (4 * a + 3) / 146097

def dayOfCentury (a : ℤ) : ℤ := a - 146097 * century a / 4

def yearOfCentury (c : ℤ) : ℤ := (4 * c + 3) / 1461

def dayOfMarchYear (c : ℤ) : ℤ := c - 1461 * yearOfCentury c / 4

/-- March is 0. -/
def marchMonth (e : ℤ) : ℤ := (5 * e + 2) / 153

def dayOfMonth (e : ℤ) : ℤ := e - (153 * marchMonth e + 2) / 5 + 1

/-- The quarter days that a century lacks are made up for in every fourth one. -/
theorem four_mul_dayOfCentury (a : ℤ) :
    4 * dayOfCentury a = (4 * a + 3) % 146097 - 3 + century a % 4 := by
  have hdiv := Int.mul_ediv_add_emod (4 * a + 3) 146097
  rw [dayOfCentury, century]
  omega

theorem four_mul_dayOfMarchYear (c : ℤ) :
    4 * dayOfMarchYear c = (4 * c + 3) % 1461 - 3 + yearOfCentury c % 4 := by
  have hdiv := Int.mul_ediv_add_emod (4 * c + 3) 1461
  rw [dayOfMarchYear, yearOfCentury]
  omega

theorem dayOfCentury_mem (a : ℤ) : 0 ≤ dayOfCentury a ∧ dayOfCentury a ≤ 36524 ∧
    (dayOfCentury a = 36524 → century a % 4 = 3) := by
  have h := four_mul_dayOfCentury a
  omega

theorem yearOfCentury_mem {c : ℤ} (hlow : 0 ≤ c) (hhigh : c ≤ 36524) :
    0 ≤ yearOfCentury c ∧ yearOfCentury c ≤ 99 := by
  rw [yearOfCentury]
  omega

/-- A year has its 366th day if it is the fourth one, and the last year of a century only if
the century has 36525 days. -/
theorem dayOfMarchYear_mem (c : ℤ) : 0 ≤ dayOfMarchYear c ∧ dayOfMarchYear c ≤ 365 ∧
    (dayOfMarchYear c = 365 → yearOfCentury c % 4 = 3 ∧
      (yearOfCentury c = 99 → c = 36524)) := by
  have h := four_mul_dayOfMarchYear c
  have hyear : yearOfCentury c = (4 * c + 3) / 1461 := rfl
  omega

/-- The days from 1 March of year 0 to 1 March of `year`. -/
def daysBeforeMarch (year : ℤ) : ℤ := 365 * year + year / 4 - year / 100 + year / 400

/-- The days from 1 March to the first day of a month. -/
def daysFromMarch (m : ℤ) : ℤ := (153 * m + 2) / 5

def marchYear (a : ℤ) : ℤ := 100 * century a + yearOfCentury (dayOfCentury a)

def marchDay (a : ℤ) : ℤ := dayOfMarchYear (dayOfCentury a)

theorem daysBeforeMarch_marchYear (a : ℤ) : daysBeforeMarch (marchYear a) + marchDay a = a := by
  have hc := dayOfCentury_mem a
  have hd := yearOfCentury_mem hc.1 hc.2.1
  have hday : dayOfCentury a = a - 146097 * century a / 4 := rfl
  rw [daysBeforeMarch, marchYear, marchDay, dayOfMarchYear]
  generalize yearOfCentury (dayOfCentury a) = year at hd ⊢
  generalize century a = c at hday ⊢
  have hcentury : 146097 * c / 4 = 36524 * c + c / 4 := by omega
  have hyear : 1461 * year / 4 = 365 * year + year / 4 := by omega
  have hquarter : (100 * c + year) / 4 = 25 * c + year / 4 := by omega
  have hhundred : (100 * c + year) / 100 = c := by omega
  have hera : (100 * c + year) / 400 = c / 4 := by omega
  omega

theorem marchDay_mem (a : ℤ) : 0 ≤ marchDay a ∧ marchDay a ≤ 365 ∧
    (marchDay a = 365 → isLeap (marchYear a + 1) = true) := by
  have hc := dayOfCentury_mem a
  have he := dayOfMarchYear_mem (dayOfCentury a)
  have hd := yearOfCentury_mem hc.1 hc.2.1
  refine ⟨he.1, he.2.1, fun h => ?_⟩
  obtain ⟨hfourth, hlast⟩ := he.2.2 h
  rw [isLeap_iff, marchYear]
  omega

theorem marchMonth_mem {e : ℤ} (hlow : 0 ≤ e) (hhigh : e ≤ 365) :
    0 ≤ marchMonth e ∧ marchMonth e ≤ 11 := by
  rw [marchMonth]
  omega

theorem month_mem_of_marchDay {e : ℤ} (hlow : 0 ≤ e) (hhigh : e ≤ 365) :
    1 ≤ marchMonth e + 3 - 12 * (marchMonth e / 10) ∧
      marchMonth e + 3 - 12 * (marchMonth e / 10) ≤ 12 := by
  have hmonth := marchMonth_mem hlow hhigh
  omega

theorem daysBeforeMarch_eq (year : ℤ) : daysBeforeMarch year = daysBeforeYear (year + 1) := by
  rw [daysBeforeMarch, daysBeforeYear, Int.add_sub_cancel]

/-- January and February come last. -/
theorem daysBefore_eq (year : ℤ) {month : ℤ} (hlow : 1 ≤ month) (hhigh : month ≤ 12) :
    daysBefore year (month - 1).toNat =
      daysFromMarch (month + 12 * ((14 - month) / 12) - 3) - 306 +
        if month ≤ 2 then 0 else daysInYear year := by
  unfold daysInYear
  interval_cases month <;> simp [daysBefore, daysInMonth, daysFromMarch] <;>
    cases isLeap year <;> rfl

/-- The number of a day, with the years counted from March. -/
theorem ordinal_eq (d : Gregorian) : d.ordinal =
    daysBeforeMarch (d.year - (14 - d.month) / 12) +
      daysFromMarch (d.month + 12 * ((14 - d.month) / 12) - 3) + d.day - 306 := by
  obtain ⟨hlow, hhigh⟩ := d.month_mem
  rw [ordinal, dayOfYear, daysBefore_eq d.year hlow hhigh, daysBeforeMarch_eq]
  by_cases hmonth : d.month ≤ 2
  · have ha : (14 - d.month) / 12 = 1 := by omega
    rw [if_pos hmonth, ha, Int.sub_add_cancel]
    omega
  · have ha : (14 - d.month) / 12 = 0 := by omega
    rw [if_neg hmonth, ha, Int.sub_zero, daysBeforeYear_succ]
    omega

theorem dayOfMonth_mem {year e : ℤ} (hlow : 0 ≤ e) (hhigh : e ≤ 365)
    (hleap : e = 365 → isLeap (year + 1) = true) :
    1 ≤ dayOfMonth e ∧ dayOfMonth e ≤
      daysInMonth (year + marchMonth e / 10) (marchMonth e + 3 - 12 * (marchMonth e / 10)) := by
  have hmonth := marchMonth_mem hlow hhigh
  have hm : marchMonth e = (5 * e + 2) / 153 := rfl
  rw [dayOfMonth]
  generalize marchMonth e = m at hmonth hm ⊢
  obtain ⟨hlow', hhigh'⟩ := hmonth
  by_cases hlast : m = 11
  · -- February, which only in a leap year reaches the last day of a year from March
    have hfebruary : daysInMonth (year + 1) 2 = if isLeap (year + 1) then 29 else 28 := rfl
    rw [hlast, show (11 : ℤ) / 10 = 1 from rfl, show (11 : ℤ) + 3 - 12 * 1 = 2 from rfl,
      hfebruary]
    by_cases he : e = 365
    · rw [hleap he, he]
      decide
    · split <;> omega
  · have hyear : daysInMonth (year + m / 10) (m + 3 - 12 * (m / 10)) =
        daysInMonth 1 (m + 3 - 12 * (m / 10)) := by
      have hfebruary : m + 3 - 12 * (m / 10) ≠ 2 := by omega
      rw [daysInMonth, daysInMonth, if_neg hfebruary, if_neg hfebruary]
    rw [hyear]
    interval_cases m <;> simp [daysInMonth] <;> omega

end March

def ofOrdinal (n : ℤ) : Gregorian where
  year := marchYear (n + 305) + marchMonth (marchDay (n + 305)) / 10
  month := marchMonth (marchDay (n + 305)) + 3 - 12 * (marchMonth (marchDay (n + 305)) / 10)
  day := dayOfMonth (marchDay (n + 305))
  month_mem := month_mem_of_marchDay (marchDay_mem (n + 305)).1 (marchDay_mem (n + 305)).2.1
  day_mem := dayOfMonth_mem (marchDay_mem (n + 305)).1 (marchDay_mem (n + 305)).2.1
    (marchDay_mem (n + 305)).2.2

@[simp] theorem ordinal_ofOrdinal (n : ℤ) : (ofOrdinal n).ordinal = n := by
  have hday := marchDay_mem (n + 305)
  have hmonth := marchMonth_mem hday.1 hday.2.1
  have hstart := daysBeforeMarch_marchYear (n + 305)
  rw [ordinal_eq]
  simp only [ofOrdinal, dayOfMonth, daysFromMarch]
  generalize marchDay (n + 305) = e at hday hmonth hstart ⊢
  generalize marchMonth e = m at hmonth ⊢
  have ha : (14 - (m + 3 - 12 * (m / 10))) / 12 = m / 10 := by omega
  rw [ha, Int.add_sub_cancel, show m + 3 - 12 * (m / 10) + 12 * (m / 10) - 3 = m by omega]
  omega

@[simp] theorem ofOrdinal_ordinal (d : Gregorian) : ofOrdinal d.ordinal = d :=
  ordinal_injective (ordinal_ofOrdinal d.ordinal)

/-! ### The first day of a month -/

theorem carried_month_mem (month : ℤ) :
    1 ≤ (month - 1) % 12 + 1 ∧ (month - 1) % 12 + 1 ≤ 12 := by
  omega

theorem first_day_mem (year month : ℤ) : 1 ≤ (1 : ℤ) ∧ 1 ≤ daysInMonth year month :=
  ⟨Int.le_refl 1, daysInMonth_pos year month⟩

/-- Months outside 1 to 12 are carried into the year. -/
def firstOf (year month : ℤ) : Gregorian where
  year := year + (month - 1) / 12
  month := (month - 1) % 12 + 1
  day := 1
  month_mem := carried_month_mem month
  day_mem := first_day_mem _ _

/-- 1 January. -/
def newYear (year : ℤ) : Gregorian := ⟨year, 1, 1, ⟨by decide, by decide⟩, first_day_mem year 1⟩

theorem ordinal_newYear (d : Gregorian) : (newYear d.year).ordinal = d.ordinal - d.dayOfYear := by
  have hday : (newYear d.year).dayOfYear = 0 := rfl
  have hyear : (newYear d.year).year = d.year := rfl
  rw [ordinal, ordinal, hday, hyear]
  omega

theorem ordinal_firstOf (d : Gregorian) :
    (firstOf d.year d.month).ordinal + d.day - 1 = d.ordinal := by
  obtain ⟨hlow, hhigh⟩ := d.month_mem
  have hyear : (firstOf d.year d.month).year = d.year := by
    simp only [firstOf]
    omega
  have hmonth : (firstOf d.year d.month).month = d.month := by
    simp only [firstOf]
    omega
  have hday : (firstOf d.year d.month).day = 1 := rfl
  rw [ordinal, ordinal, dayOfYear, dayOfYear, hyear, hmonth, hday]
  omega

end Gregorian

end Muduo.Library
