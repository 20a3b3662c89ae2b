import Muduo.Library.Checked

/-! Dates, kept as Julian day numbers. -/

namespace Muduo.Base

open Library

namespace Date

structure YearMonthDay where
  year : ℤ
  month : ℤ
  day : ℤ
  deriving DecidableEq, Repr

end Date

def getJulianDayNumber (year month day : ℤ) : Except Overflow ℤ := do
  let a := (← checked (14 - month)).tdiv 12
  let y ← checked ((← checked (year + 4800)) - a)
  let m ← checked ((← checked (month + (← checked (12 * a)))) - 3)
  let n ← checked (day + (← checked ((← checked (153 * m)) + 2)).tdiv 5)
  let n ← checked (n + (← checked (y * 365)))
  let n ← checked (n + y.tdiv 4)
  let n ← checked (n - y.tdiv 100)
  let n ← checked (n + y.tdiv 400)
  checked (n - 32045)

def getYearMonthDay (julianDayNumber : ℤ) : Except Overflow Date.YearMonthDay := do
  let a ← checked (julianDayNumber + 32044)
  let b := (← checked ((← checked (4 * a)) + 3)).tdiv 146097
  let c ← checked (a - (← checked (b * 146097)).tdiv 4)
  let d := (← checked ((← checked (4 * c)) + 3)).tdiv 1461
  let e ← checked (c - (← checked (1461 * d)).tdiv 4)
  let m := (← checked ((← checked (5 * e)) + 2)).tdiv 153
  let day ← checked ((← checked (e - (← checked ((← checked (153 * m)) + 2)).tdiv 5)) + 1)
  let month ← checked ((← checked (m + 3)) - (← checked (12 * m.tdiv 10)))
  let year ← checked ((← checked ((← checked ((← checked (b * 100)) + d)) - 4800)) + m.tdiv 10)
  return ⟨year, month, day⟩

structure Date where
  julianDayNumber : ℤ
  deriving DecidableEq, Repr

namespace Date

def kDaysPerWeek : ℤ := 7

def kJulianDayOf1970_01_01 : ℤ := (getJulianDayNumber 1970 1 1).toOption.getD 0

def ofYearMonthDay (year month day : ℤ) : Except Overflow Date := do
  return ⟨← getJulianDayNumber year month day⟩

def yearMonthDay (d : Date) : Except Overflow YearMonthDay := getYearMonthDay d.julianDayNumber

/-- 0 is Sunday. -/
def weekDay (d : Date) : Except Overflow ℤ := do
  return (← checked (d.julianDayNumber + 1)).tmod kDaysPerWeek

/-- `operator<`. -/
instance : LT Date := ⟨fun x y => x.julianDayNumber < y.julianDayNumber⟩

end Date

end Muduo.Base
