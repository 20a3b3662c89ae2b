import Mathlib.Data.Prod.Lex
import Mathlib.Logic.Function.Basic
import Muduo.Library.Int64
import Muduo.Library.OrderedSet
import Muduo.Library.Run

/-! The timer queue of an event loop, with the memory its timers live in and the
timerfd that wakes the loop. Clock readings are given to the functions as arguments, and sums
and differences of times wrap around like the machine's. -/

namespace Muduo.Net

open Library

/-- Microseconds since the epoch. -/
abbrev Timestamp : Type := Int64

namespace Timestamp

def kMicroSecondsPerSecond : Int64 := 1000 * 1000

def invalid : Timestamp := 0

def valid (t : Timestamp) : Bool := 0 < t

end Timestamp

/-- A `double` of seconds, as far as the code looks at it: whether it is `> 0.0`, and the
whole number of microseconds that `addTime` makes of it. -/
structure Seconds where
  positive : Bool
  microSeconds : Int64
  nonneg : positive = true → 0 ≤ microSeconds

def addTime (timestamp : Timestamp) (seconds : Seconds) : Timestamp :=
  timestamp + seconds.microSeconds

/-- The members other than the callback; `repeat_` is set from the interval. -/
structure Timer where
  expiration : Timestamp
  interval : Seconds
  repeats : Bool
  sequence : ℕ
  repeats_eq : repeats = interval.positive

namespace Timer

/-- The constructor; `sequence` is what `s_numCreated_` is incremented to. -/
def ctor (when : Timestamp) (interval : Seconds) (sequence : ℕ) : Timer where
  expiration := when
  interval := interval
  repeats := interval.positive
  sequence := sequence
  repeats_eq := rfl

def restart (t : Timer) (now : Timestamp) : Timer :=
  { t with expiration := if t.repeats then addTime now t.interval else Timestamp.invalid }

end Timer

/-- What `timerfd_settime` is given. -/
structure Timespec where
  tvSec : Int64
  tvNsec : Int64
  deriving DecidableEq, Repr

/-- A timerfd is armed for at most one instant, which need not be a timestamp; once that has
come it is readable. -/
inductive Timerfd where
  | disarmed
  | armed (instant : ℤ)
  | readable
  deriving DecidableEq, Repr

namespace Timerfd

/-- `timerfd_settime` at the instant `now`. It replaces the setting before, and a zero
value disarms. -/
def settime (now : Timestamp) (value : Timespec) : Timerfd :=
  if value = ⟨0, 0⟩ then .disarmed
  else .armed (now.toInt + (value.tvSec.toInt * 1000000 + value.tvNsec.toInt / 1000))

/-- `read` takes the expirations, if there are any. -/
def read : Timerfd → Timerfd
  | .readable => .disarmed
  | fd => fd

/-- The armed instant comes. -/
def expire : Timerfd → Timerfd
  | .armed _ => .readable
  | fd => fd

end Timerfd

namespace TimerQueue

/-- `std::pair<Timestamp, Timer*>`, where the pointer is the address of a timer. -/
structure Entry where
  when : Timestamp
  timer : ℕ
  deriving Repr

/-- `std::pair<Timer*, int64_t>`; a `TimerId` has the same two members. -/
structure ActiveTimer where
  timer : ℕ
  sequence : ℕ
  deriving Repr

instance : LinearOrder Entry :=
  LinearOrder.lift' (fun e => toLex (e.when, e.timer)) fun ⟨_, _⟩ ⟨_, _⟩ h => by
    simpa using h

instance : LinearOrder ActiveTimer :=
  LinearOrder.lift' (fun t => toLex (t.timer, t.sequence)) fun ⟨_, _⟩ ⟨_, _⟩ h => by
    simpa using h

/-- The assertions of `TimerQueue.cc`, and the use of a timer that is not there. -/
inductive Fault where
  | sizes
  | insertTimers
  | insertActive
  | cancelErase
  | sentry
  | expiredErase
  | dangling
  deriving DecidableEq, Repr

def uintptrMax : ℕ := 2 ^ 64 - 1

end TimerQueue

open TimerQueue

/-- `heap` has the timers that are allocated, by address. The last two fields record
history: the clock at the last `timerfd_settime`, and what has been deleted. -/
structure TimerQueue where
  heap : ℕ → Option Timer
  timerfd : Timerfd
  timers : OrderedSet Entry
  activeTimers : OrderedSet ActiveTimer
  callingExpiredTimers : Bool
  cancelingTimers : OrderedSet ActiveTimer
  armedAt : Timestamp
  deleted : List ActiveTimer

namespace TimerQueue

def init : TimerQueue where
  heap := fun _ => none
  timerfd := .disarmed
  timers := .empty
  activeTimers := .empty
  callingExpiredTimers := false
  cancelingTimers := .empty
  armedAt := 0
  deleted := []

/-- Access through a pointer. -/
def deref (q : TimerQueue) (timer : ℕ) : Except Fault Timer :=
  match q.heap timer with
  | some t => .ok t
  | none => .error .dangling

def delete (q : TimerQueue) (timer : ℕ) : Except Fault TimerQueue := do
  let t ← q.deref timer
  return { q with
    heap := Function.update q.heap timer none
    deleted := q.deleted ++ [⟨timer, t.sequence⟩] }

/-! ### The timerfd -/

def howMuchTimeFromNow (when now : Timestamp) : Timespec :=
  let microseconds := when - now
  let microseconds := if microseconds < 100 then 100 else microseconds
  { tvSec := microseconds / Timestamp.kMicroSecondsPerSecond
    tvNsec := microseconds % Timestamp.kMicroSecondsPerSecond * 1000 }

def readTimerfd (q : TimerQueue) : TimerQueue := { q with timerfd := q.timerfd.read }

def resetTimerfd (q : TimerQueue) (expiration now : Timestamp) : TimerQueue :=
  { q with timerfd := .settime now (howMuchTimeFromNow expiration now), armedAt := now }

/-! ### Adding and cancelling -/

/-- The result says whether the earliest expiration has changed. -/
def insert (q : TimerQueue) (timer : ℕ) : Except Fault (Bool × TimerQueue) := do
  ensure (q.timers.size = q.activeTimers.size) .sizes
  let t ← q.deref timer
  let when := t.expiration
  let earliestChanged :=
    match q.timers.begin with
    | none => true
    | some it => decide (when < it.when)
  ensure (⟨when, timer⟩ ∉ q.timers) .insertTimers
  let q := { q with timers := q.timers.insert ⟨when, timer⟩ }
  ensure (⟨timer, t.sequence⟩ ∉ q.activeTimers) .insertActive
  let q := { q with activeTimers := q.activeTimers.insert ⟨timer, t.sequence⟩ }
  ensure (q.timers.size = q.activeTimers.size) .sizes
  return (earliestChanged, q)

def addTimerInLoop (q : TimerQueue) (timer : ℕ) (now : Timestamp) :
    Except Fault TimerQueue := do
  let (earliestChanged, q) ← q.insert timer
  if earliestChanged then
    let t ← q.deref timer
    return q.resetTimerfd t.expiration now
  else
    return q

def cancelInLoop (q : TimerQueue) (timerId : ActiveTimer) : Except Fault TimerQueue := do
  ensure (q.timers.size = q.activeTimers.size) .sizes
  let q ←
    if timerId ∈ q.activeTimers then do
      let t ← q.deref timerId.timer
      ensure (⟨t.expiration, timerId.timer⟩ ∈ q.timers) .cancelErase
      let q := { q with timers := q.timers.erase ⟨t.expiration, timerId.timer⟩ }
      let q ← q.delete timerId.timer
      pure { q with activeTimers := q.activeTimers.erase timerId }
    else if q.callingExpiredTimers then
      pure { q with cancelingTimers := q.cancelingTimers.insert timerId }
    else
      pure q
  ensure (q.timers.size = q.activeTimers.size) .sizes
  return q

/-! ### Expiry -/

/-- One iteration of the loop in `getExpired`. -/
def eraseExpired (q : TimerQueue) (it : Entry) : Except Fault TimerQueue := do
  let t ← q.deref it.timer
  ensure (⟨it.timer, t.sequence⟩ ∈ q.activeTimers) .expiredErase
  return { q with activeTimers := q.activeTimers.erase ⟨it.timer, t.sequence⟩ }

def getExpired (q : TimerQueue) (now : Timestamp) : Except Fault (List Entry × TimerQueue) := do
  ensure (q.timers.size = q.activeTimers.size) .sizes
  let sentry : Entry := ⟨now, uintptrMax⟩
  let expired := (q.timers.below sentry).elems
  ensure (∀ it ∈ (q.timers.onward sentry).begin, now < it.when) .sentry
  let q := { q with timers := q.timers.onward sentry }
  let q ← expired.foldlM eraseExpired q
  ensure (q.timers.size = q.activeTimers.size) .sizes
  return (expired, q)

/-- `handleRead` up to its loop over the expired timers. -/
def beginRead (q : TimerQueue) (now : Timestamp) : Except Fault (List Entry × TimerQueue) := do
  let q := q.readTimerfd
  let (expired, q) ← q.getExpired now
  return (expired, { q with callingExpiredTimers := true, cancelingTimers := .empty })

/-- One iteration of the loop in `reset`. -/
def resetEntry (q : TimerQueue) (now : Timestamp) (it : Entry) : Except Fault TimerQueue := do
  let t ← q.deref it.timer
  if t.repeats ∧ ⟨it.timer, t.sequence⟩ ∉ q.cancelingTimers then
    let q := { q with heap := Function.update q.heap it.timer (some (t.restart now)) }
    let (_, q) ← q.insert it.timer
    return q
  else
    q.delete it.timer

/-- `reset` after its loop. -/
def rearm (q : TimerQueue) (now : Timestamp) : Except Fault TimerQueue := do
  let nextExpire ←
    match q.timers.begin with
    | some it => do
        let t ← q.deref it.timer
        pure t.expiration
    | none => pure Timestamp.invalid
  return if Timestamp.valid nextExpire then q.resetTimerfd nextExpire now else q

end TimerQueue

end Muduo.Net
