import Muduo.Net.TimerQueue

/-! A timer queue in use. Any thread creates timers and hands them to the loop thread,
which adds and cancels them between two calls of `handleRead` and from inside the
callbacks that `handleRead` makes. -/

namespace Muduo.System.Timers

open Library Net TimerQueue

/-- Where the loop thread stands: outside `handleRead`, in its loop over the expired
timers, or in the loop of `reset`; `rest` is what the loop has still to do. -/
inductive Phase where
  | idle
  | calling (now : Timestamp) (expired rest : List Entry)
  | resetting (now : Timestamp) (rest : List Entry)
  deriving DecidableEq

inductive Event where
  | added (id : ActiveTimer)
  | cancelled (id : ActiveTimer)
  | started (id : ActiveTimer)
  deriving DecidableEq

/-- `queued` has the timers whose `addTimerInLoop` has still to be executed. -/
structure State where
  queue : TimerQueue
  numCreated : ℕ
  queued : List ℕ
  phase : Phase
  trace : List Event

def start : State where
  queue := .init
  numCreated := 0
  queued := []
  phase := .idle
  trace := []

inductive Label where
  | new (timer : ℕ) (when : Timestamp) (interval : Seconds)
  | addTimerInLoop (timer : ℕ) (now : Timestamp)
  | cancelInLoop (timerId : ActiveTimer)
  | expire
  | handleRead (now : Timestamp)
  | callNext
  | endCalls
  | resetNext
  | rearm (now : Timestamp)

namespace State

def setQueue (s : State) (q : TimerQueue) : State := { s with queue := q }

def emit (s : State) (e : Event) : State := { s with trace := s.trace ++ [e] }

end State

/-- A step that is not due leaves the state as it is. -/
def exec (s : State) : Label → Except Fault State
  | .new timer when interval =>
      .ok { s with
        queue := { s.queue with
          heap := Function.update s.queue.heap timer
            (some (.ctor when interval (s.numCreated + 1))) }
        numCreated := s.numCreated + 1
        queued := timer :: s.queued }
  | .addTimerInLoop timer now => do
      let t ← s.queue.deref timer
      let q ← s.queue.addTimerInLoop timer now
      return { s with queue := q, queued := s.queued.erase timer }.emit
        (.added ⟨timer, t.sequence⟩)
  | .cancelInLoop timerId => do
      let q ← s.queue.cancelInLoop timerId
      return (s.setQueue q).emit (.cancelled timerId)
  | .expire => .ok (s.setQueue { s.queue with timerfd := s.queue.timerfd.expire })
  | .handleRead now => do
      let (expired, q) ← s.queue.beginRead now
      return { s with queue := q, phase := .calling now expired expired }
  | .callNext =>
      match s.phase with
      | .calling now expired (it :: rest) => do
          let t ← s.queue.deref it.timer
          return { s with phase := .calling now expired rest }.emit
            (.started ⟨it.timer, t.sequence⟩)
      | _ => .ok s
  | .endCalls =>
      .ok <| match s.phase with
      | .calling now expired _ =>
          { s with
            queue := { s.queue with callingExpiredTimers := false }
            phase := .resetting now expired }
      | _ => s
  | .resetNext =>
      match s.phase with
      | .resetting now (it :: rest) => do
          let q ← s.queue.resetEntry now it
          return { s with queue := q, phase := .resetting now rest }
      | _ => .ok s
  | .rearm now => do
      let q ← s.queue.rearm now
      return { s with queue := q, phase := .idle }

/-- Code of the user runs in the loop thread: outside `handleRead`, or in a callback
that has been started. -/
def State.inUser (s : State) : Bool :=
  match s.phase with
  | .idle => true
  | .calling _ expired rest => rest.length < expired.length
  | .resetting _ _ => false

/-- The steps a state offers. An address may be used again as soon as its timer has been
deleted, and a `TimerId` is one that some `addTimer` has returned. -/
def enabled (s : State) (l : Label) : Bool :=
  match l, s.phase with
  | .new timer _ _, _ => (s.queue.heap timer).isNone && timer < uintptrMax
  | .addTimerInLoop timer _, _ => s.inUser && s.queued.contains timer
  | .cancelInLoop timerId, _ => s.inUser && timerId.sequence ≤ s.numCreated
  | .expire, _ => true
  | .handleRead _, .idle => true
  | .callNext, .calling _ _ (_ :: _) => true
  | .endCalls, .calling _ _ [] => true
  | .resetNext, .resetting _ (_ :: _) => true
  | .rearm _, .resetting _ [] => true
  | _, _ => false

end Muduo.System.Timers
