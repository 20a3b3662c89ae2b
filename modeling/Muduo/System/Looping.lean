import Muduo.Net.EventLoop
import Mathlib.Logic.Function.Basic
import Mathlib.Algebra.Group.Nat.Defs

/-! An event loop and the threads that queue functors in it. `queueInLoop` is left between
its push under the mutex and its wake-up, `quit` between its assignment and its wake-up,
and `doPendingFunctors` before and after the swap. -/

namespace Muduo.System.Looping

open Library Net

/-- An `eventfd` in non-blocking mode. -/
structure Eventfd where
  counter : ℕ
  deriving DecidableEq, Repr

namespace Eventfd

/-- Writing the value 1; past the largest counter the write fails with `EAGAIN`. -/
def write (fd : Eventfd) : Eventfd :=
  if fd.counter + 1 ≤ 2 ^ 64 - 2 then ⟨fd.counter + 1⟩ else fd

/-- A read takes the whole counter. -/
def read (_ : Eventfd) : Eventfd := ⟨0⟩

end Eventfd

/-- The loop with the members that `loop()`, `quit()` and the wake-ups use. -/
structure Looper (φ : Type) extends EventLoop φ where
  looping : Bool
  quitting : Bool
  callingPendingFunctors : Bool
  wakeupFd : Eventfd
  wakeupChannel : ℕ

inductive Fault where
  | alreadyLooping
  deriving DecidableEq, Repr

namespace Looper

variable {φ : Type}

def init (wakeupChannel : ℕ) : Looper φ where
  toEventLoop := .init
  looping := false
  quitting := false
  callingPendingFunctors := false
  wakeupFd := ⟨0⟩
  wakeupChannel := wakeupChannel

/-- The part of `queueInLoop` under the mutex. -/
def push (l : Looper φ) (functor : φ) : Looper φ :=
  { l with toEventLoop := l.toEventLoop.queueInLoop functor }

def wakeup (l : Looper φ) : Looper φ := { l with wakeupFd := l.wakeupFd.write }

def handleRead (l : Looper φ) : Looper φ := { l with wakeupFd := l.wakeupFd.read }

/-- The part of `queueInLoop` after the mutex. -/
def wakeupUnless (l : Looper φ) (inLoopThread : Bool) : Looper φ :=
  if !inLoopThread || l.callingPendingFunctors then l.wakeup else l

/-- What stands before the `while` of `loop()`. -/
def loop (l : Looper φ) : Except Fault (Looper φ) := do
  ensure (l.looping = false) .alreadyLooping
  return { l with looping := true, quitting := false }

/-- `poll` has returned with these channels. -/
def polled (l : Looper φ) (active : List ℕ) : Looper φ :=
  { l with activeChannels := active, eventHandling := true }

/-- The loop comes to a channel. The handlers of the others than the wake-up channel are
code of the user, whose calls are steps of their own. -/
def handleEvent (l : Looper φ) (channel : ℕ) : Looper φ :=
  let l' := { l with currentActiveChannel := some channel }
  if channel = l.wakeupChannel then l'.handleRead else l'

/-- After the last channel, up to the swap. -/
def doPendingFunctors (l : Looper φ) : Looper φ :=
  { l with
    currentActiveChannel := none
    eventHandling := false
    callingPendingFunctors := true }

def swap (l : Looper φ) : Looper φ := { l with pendingFunctors := [] }

end Looper

/-- Where the loop thread stands: outside `loop()`, at the test of `quit_`, in `poll`, in
front of the channels that are left, before the swap, or in front of the functors that
are left. -/
inductive Phase (φ : Type) where
  | outside
  | test
  | poll
  | events (rest : List ℕ)
  | calling
  | batch (rest : List φ)
  deriving DecidableEq, Repr

/-- Whether a thread is in `queueInLoop` after its push, or in `quit` before its wake-up. -/
inductive Pc where
  | idle
  | pushed
  | quitting
  deriving DecidableEq, Repr

/-- The thread `none` is the one of the loop. The last three fields record history: all
pushes in the order of the mutex, those before the last swap, and the functors that have
been started. -/
structure State (φ τ : Type) where
  loop : Looper φ
  phase : Phase φ
  pc : Option τ → Pc
  pushes : List φ
  seen : List φ
  executed : List φ

inductive Label (φ τ : Type) where
  | push (t : Option τ) (functor : φ)
  | quit (t : Option τ)
  | wakeup (t : Option τ)
  | loop
  | test
  | poll (active : List ℕ)
  | nextChannel
  | doPendingFunctors
  | swap
  | runFunctor
  | endBatch

variable {φ τ : Type}

def start (wakeupChannel : ℕ) : State φ τ where
  loop := .init wakeupChannel
  phase := .outside
  pc := fun _ => .idle
  pushes := []
  seen := []
  executed := []

variable [DecidableEq τ]

def State.setPc (s : State φ τ) (t : Option τ) (pc : Pc) : State φ τ :=
  { s with pc := Function.update s.pc t pc }

def exec (s : State φ τ) : Label φ τ → Except Fault (State φ τ)
  | .push t functor =>
      .ok <| State.setPc
        { s with loop := s.loop.push functor, pushes := s.pushes ++ [functor] } t .pushed
  | .quit t =>
      .ok <| State.setPc { s with loop := { s.loop with quitting := true } } t
        (if t.isNone then .idle else .quitting)
  | .wakeup t =>
      match s.pc t with
      | .pushed => .ok <| State.setPc { s with loop := s.loop.wakeupUnless t.isNone } t .idle
      | .quitting => .ok <| State.setPc { s with loop := s.loop.wakeup } t .idle
      | .idle => .ok s
  | .loop => do
      let l ← s.loop.loop
      return { s with loop := l, phase := .test }
  | .test =>
      .ok <| if s.loop.quitting then
        { s with loop := { s.loop with looping := false }, phase := .outside }
      else { s with loop := { s.loop with activeChannels := [] }, phase := .poll }
  | .poll active => .ok { s with loop := s.loop.polled active, phase := .events active }
  | .nextChannel =>
      match s.phase with
      | .events (channel :: rest) =>
          .ok { s with loop := s.loop.handleEvent channel, phase := .events rest }
      | _ => .ok s
  | .doPendingFunctors => .ok { s with loop := s.loop.doPendingFunctors, phase := .calling }
  | .swap =>
      .ok { s with
        loop := s.loop.swap
        phase := .batch s.loop.pendingFunctors
        seen := s.pushes }
  | .runFunctor =>
      match s.phase with
      | .batch (functor :: rest) =>
          .ok { s with phase := .batch rest, executed := s.executed ++ [functor] }
      | _ => .ok s
  | .endBatch =>
      .ok { s with loop := { s.loop with callingPendingFunctors := false }, phase := .test }

/-- The phases in which the loop thread runs handlers or functors. -/
def Phase.inUser : Phase φ → Bool
  | .events _ => true
  | .batch _ => true
  | _ => false

/-- Any thread may call `queueInLoop` and `quit` at any time, the one of the loop from
handlers and functors only, and that one finishes its call before the loop goes on. The
wake-up channel is active only when the counter is positive. -/
def enabled (s : State φ τ) : Label φ τ → Bool
  | .push t _ => s.pc t = .idle ∧ (t = none → s.phase.inUser = true)
  | .quit t => s.pc t = .idle ∧ (t = none → s.phase.inUser = true)
  | .wakeup t => s.pc t ≠ .idle
  | .loop => (s.phase matches .outside)
  | .test => (s.phase matches .test)
  | .poll active =>
      (s.phase matches .poll) && (s.loop.wakeupChannel ∉ active ∨ 0 < s.loop.wakeupFd.counter)
  | .nextChannel => (s.phase matches .events (_ :: _)) && s.pc none = .idle
  | .doPendingFunctors => (s.phase matches .events []) && s.pc none = .idle
  | .swap => (s.phase matches .calling)
  | .runFunctor => (s.phase matches .batch (_ :: _)) && s.pc none = .idle
  | .endBatch => (s.phase matches .batch []) && s.pc none = .idle

end Muduo.System.Looping
