import Muduo.Library.Gregorian

/-! Broken-down time, and the conversions of the C library: they follow the proleptic
Gregorian calendar. -/

namespace Muduo.Base

open Library

/-- What `tm_zone` points to: nothing, a literal, or a place in the abbreviations of a zone. -/
inductive Tm.Zone where
  | null
  | gmt
  | abbreviation (idx : ℕ)
  deriving DecidableEq, Repr

/-- `struct tm`. -/
structure Tm where
  tmSec : ℤ
  tmMin : ℤ
  tmHour : ℤ
  tmMday : ℤ
  tmMon : ℤ
  tmYear : ℤ
  tmWday : ℤ
  tmYday : ℤ
  tmIsdst : ℤ
  tmGmtoff : ℤ
  tmZone : Tm.Zone
  deriving DecidableEq, Repr

namespace Tm

/-- After `memZero`. -/
def zero : Tm := ⟨0, 0, 0, 0, 0, 0, 0, 0, 0, 0, .null⟩

/-- The number of 1 January 1970 in the calendar. -/
def epoch : ℤ := 719163

/-- `gmtime_r`. -/
def gmtime (seconds : ℤ) : Tm :=
  let date := Gregorian.ofOrdinal (seconds / 86400 + epoch)
  { tmSec := seconds % 60
    tmMin := seconds / 60 % 60
    tmHour := seconds / 3600 % 24
    tmMday := date.day
    tmMon := date.month - 1
    tmYear := date.year - 1900
    tmWday := date.weekday
    tmYday := date.dayOfYear
    tmIsdst := 0
    tmGmtoff := 0
    tmZone := .gmt }

/-- `timegm`. The members need not be in their usual ranges. -/
def timegm (tm : Tm) : ℤ :=
  let days := (Gregorian.firstOf (tm.tmYear + 1900) (tm.tmMon + 1)).ordinal + tm.tmMday - 1 - epoch
  days * 86400 + tm.tmHour * 3600 + tm.tmMin * 60 + tm.tmSec

end Tm

end Muduo.Base
