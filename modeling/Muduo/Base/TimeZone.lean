import Muduo.Base.Date
import Muduo.Base.Tm
import Muduo.Library.LowerBound
import Muduo.Library.Word

/-! Time zones: the reader of zone files, and the conversions between UTC and local time.
A `time_t` is an integer here; only `int` arithmetic is checked for overflow. -/

namespace Muduo.Base

open Library

namespace TimeZone

structure Transition where
  gmttime : ℤ
  localtime : ℤ
  localtimeIdx : ℕ
  deriving DecidableEq, Repr

structure Localtime where
  gmtOffset : ℤ
  isDst : Bool
  arrbIdx : ℕ
  deriving DecidableEq, Repr

/-- `names` is never used. -/
structure Data where
  transitions : List Transition
  localtimes : List Localtime
  abbreviation : List UInt8
  deriving DecidableEq, Repr

def Data.empty : Data := ⟨[], [], []⟩

/-- An access to an element that does not exist, the array `char buf[n]` with a negative
size, and the assertions. -/
inductive Fault where
  | localtimes
  | transitions
  | bufferSize
  | findLocaltime
  | noData
  deriving DecidableEq, Repr

/-! ### Looking up -/

structure Comp where
  compareGmt : Bool

namespace Comp

def less (comp : Comp) (lhs rhs : Transition) : Bool :=
  if comp.compareGmt then lhs.gmttime < rhs.gmttime else lhs.localtime < rhs.localtime

def equal (comp : Comp) (lhs rhs : Transition) : Bool :=
  if comp.compareGmt then lhs.gmttime = rhs.gmttime else lhs.localtime = rhs.localtime

end Comp

/-- `localtimes[idx]`. -/
def Data.localtimeAt (data : Data) (idx : ℕ) : Except Fault Localtime :=
  match data.localtimes[idx]? with
  | some localtime => .ok localtime
  | none => .error .localtimes

/-- `transitions[i]`. -/
def Data.transitionAt (data : Data) (i : ℕ) : Except Fault Transition :=
  match data.transitions[i]? with
  | some transition => .ok transition
  | none => .error .transitions

def findLocaltime (data : Data) (sentry : Transition) (comp : Comp) : Except Fault Localtime :=
  if data.transitions.head?.all (comp.less sentry ·) then
    data.localtimeAt 0
  else do
    let transI := lowerBound data.transitions (comp.less · sentry)
    if transI ≠ data.transitions.length then
      let transition ← data.transitionAt transI
      if ¬ comp.equal sentry transition then
        ensure (transI ≠ 0) .findLocaltime
        let transition ← data.transitionAt (transI - 1)
        data.localtimeAt transition.localtimeIdx
      else
        data.localtimeAt transition.localtimeIdx
    else
      let transition ← data.transitionAt (data.transitions.length - 1)
      data.localtimeAt transition.localtimeIdx

/-! ### Reading a zone file -/

/-- Why reading ends early: with a `logic_error`, which is caught, or with a fault. -/
inductive Stop where
  | logicError
  | fault (fault : Fault)
  deriving DecidableEq, Repr

/-- What is left of the file, and the object as far as it has been filled. -/
structure File where
  rest : List UInt8
  data : Data
  deriving DecidableEq, Repr

/-- The state survives an exception. -/
abbrev Reading : Type → Type := EStateM Stop File

/-- `if (!p) throw logic_error(...)`. -/
def expect (p : Prop) [Decidable p] : Reading Unit := if p then return () else throw .logicError

/-- `::fread`: at most `n` bytes. -/
def fread (n : ℕ) : Reading (List UInt8) :=
  modifyGet fun f => (f.rest.take n, { f with rest := f.rest.drop n })

def readBytes (n : ℤ) : Reading (List UInt8) :=
  if n < 0 then throw (.fault .bufferSize)
  else do
    let buf ← fread n.toNat
    expect (buf.length = n.toNat)
    return buf

def readInt32 : Reading ℤ := do
  let x ← fread 4
  expect (x.length = 4)
  return signed 32 (ofBytes x)

def readUInt8 : Reading ℕ := do
  let x ← fread 1
  expect (x.length = 1)
  return ofBytes x

/-- A loop that collects what its iterations return. -/
def times {α : Type} : ℕ → Reading α → Reading (List α)
  | 0, _ => return []
  | n + 1, read => do
      let x ← read
      let xs ← times n read
      return x :: xs

def readLocaltime : Reading Unit := do
  let gmtoff ← readInt32
  let isdst ← readUInt8
  let abbrind ← readUInt8
  modify fun f => { f with data := { f.data with
    localtimes := f.data.localtimes ++ [⟨gmtoff, isdst ≠ 0, abbrind⟩] } }

def addTransition (trans : ℤ) (localIdx : ℕ) : Reading Unit := do
  let f ← get
  match f.data.localtimes[localIdx]? with
  | none => throw (.fault .localtimes)
  | some localtime =>
      let transition : Transition := ⟨trans, trans + localtime.gmtOffset, localIdx⟩
      set { f with data := { f.data with transitions := f.data.transitions ++ [transition] } }

/-- "TZif". -/
def magic : List UInt8 := [84, 90, 105, 102]

/-- The block that is tried. `reserve` of a negative number throws a `length_error`, which is
a `logic_error`. The loop over the leap seconds is empty. -/
def readZone : Reading Unit := do
  let head ← readBytes 4
  expect (head = magic)
  let _version ← readBytes 1
  let _ ← readBytes 15
  let _isgmtcnt ← readInt32
  let _isstdcnt ← readInt32
  let _leapcnt ← readInt32
  let timecnt ← readInt32
  let typecnt ← readInt32
  let charcnt ← readInt32
  expect (0 ≤ timecnt)
  let trans ← times timecnt.toNat readInt32
  let localtimes ← times timecnt.toNat readUInt8
  let _ ← times typecnt.toNat readLocaltime
  (trans.zip localtimes).forM fun p => addTransition p.1 p.2
  let abbreviation ← readBytes charcnt
  modify fun f => { f with data := { f.data with abbreviation := abbreviation } }

/-- The result of the function is always `true`. -/
def readTimeZoneFile : Option (List UInt8) → Except Fault (Bool × Data)
  | none => .ok (true, .empty)
  | some content =>
      match readZone.run ⟨content, .empty⟩ with
      | .ok _ f => .ok (true, f.data)
      | .error .logicError f => .ok (true, f.data)
      | .error (.fault fault) _ => .error fault

end TimeZone

open TimeZone

structure TimeZone where
  data : Option Data

namespace TimeZone

/-- `TimeZone(zonefile)`; a file that cannot be opened is `none`. -/
def ofFile (zonefile : Option (List UInt8)) : Except Fault TimeZone := do
  let (ok, data) ← readTimeZoneFile zonefile
  return ⟨if ok then some data else none⟩

/-- `TimeZone(eastOfUtc, name)`. -/
def ofOffset (eastOfUtc : ℤ) (name : List UInt8) : TimeZone :=
  ⟨some ⟨[], [⟨eastOfUtc, false, 0⟩], name⟩⟩

def valid (z : TimeZone) : Bool := z.data.isSome

/-- `assert(data_ != NULL)`. -/
def deref (z : TimeZone) : Except Fault Data :=
  match z.data with
  | some data => .ok data
  | none => .error .noData

/-! ### Local time -/

def toLocalTime (z : TimeZone) (seconds : ℤ) : Except Fault Tm := do
  let data ← z.deref
  let sentry : Transition := ⟨seconds, 0, 0⟩
  let localtime ← findLocaltime data sentry ⟨true⟩
  let localSeconds := seconds + localtime.gmtOffset
  return { Tm.gmtime localSeconds with
    tmIsdst := if localtime.isDst then 1 else 0
    tmGmtoff := localtime.gmtOffset
    tmZone := .abbreviation localtime.arrbIdx }

def fromLocalTime (z : TimeZone) (localTm : Tm) : Except Fault ℤ := do
  let data ← z.deref
  let seconds := localTm.timegm
  let sentry : Transition := ⟨0, seconds, 0⟩
  let localtime ← findLocaltime data sentry ⟨false⟩
  let seconds ←
    if localTm.tmIsdst ≠ 0 then do
      let tryTm ← z.toLocalTime (seconds - localtime.gmtOffset)
      if tryTm.tmIsdst = 0 ∧ tryTm.tmHour = localTm.tmHour ∧ tryTm.tmMin = localTm.tmMin then
        pure (seconds - 3600)
      else
        pure seconds
    else
      pure seconds
  return seconds - localtime.gmtOffset

/-! ### UTC -/

def kSecondsPerDay : ℤ := 24 * 60 * 60

/-- `fillHMS`; the argument is converted to `unsigned`. -/
def fillHMS (seconds : ℤ) (utc : Tm) : Tm :=
  let seconds := word 32 seconds
  let minutes := seconds / 60
  { utc with
    tmSec := (seconds % 60 : ℕ)
    tmMin := (minutes % 60 : ℕ)
    tmHour := (minutes / 60 : ℕ) }

/-- The seconds of the day and the days since the epoch, as `toUtcTime` computes them. -/
def splitDay (secondsSinceEpoch : ℤ) : Except Overflow (ℤ × ℤ) := do
  let seconds := castInt (secondsSinceEpoch.tmod kSecondsPerDay)
  let days := castInt (secondsSinceEpoch.tdiv kSecondsPerDay)
  if seconds < 0 then
    let seconds ← checked (seconds + kSecondsPerDay)
    let days ← checked (days - 1)
    return (seconds, days)
  else
    return (seconds, days)

def toUtcTime (secondsSinceEpoch : ℤ) (yday : Bool) : Except Overflow Tm := do
  let utc := { Tm.zero with tmZone := .gmt }
  let (seconds, days) ← splitDay secondsSinceEpoch
  let utc := fillHMS seconds utc
  let date : Date := ⟨← checked (days + Date.kJulianDayOf1970_01_01)⟩
  let ymd ← date.yearMonthDay
  let utc := { utc with
    tmYear := ← checked (ymd.year - 1900)
    tmMon := ← checked (ymd.month - 1)
    tmMday := ymd.day
    tmWday := ← date.weekDay }
  if yday then
    let startOfYear ← Date.ofYearMonthDay ymd.year 1 1
    return { utc with
      tmYday := ← checked (date.julianDayNumber - startOfYear.julianDayNumber) }
  else
    return utc

/-- `fromUtcTime` of the six numbers. -/
def fromUtcFields (year month day hour minute seconds : ℤ) : Except Overflow ℤ := do
  let date ← Date.ofYearMonthDay year month day
  let secondsInDay ← checked
    ((← checked ((← checked (hour * 3600)) + (← checked (minute * 60)))) + seconds)
  let days ← checked (date.julianDayNumber - Date.kJulianDayOf1970_01_01)
  return days * kSecondsPerDay + secondsInDay

def fromUtcTime (utc : Tm) : Except Overflow ℤ := do
  fromUtcFields (← checked (utc.tmYear + 1900)) (← checked (utc.tmMon + 1)) utc.tmMday utc.tmHour
    utc.tmMin utc.tmSec

end TimeZone

end Muduo.Base
