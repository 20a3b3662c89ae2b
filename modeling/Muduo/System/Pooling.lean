import Muduo.Base.ThreadPool

/-! A thread pool at work: its workers, threads that call `run`, and one call of `stop`. The
workers come first among the threads, then the thread that stops the pool, then the callers. -/

namespace Muduo.System.Pooling

open Library Base ThreadPool

/-- Where a worker is in `runInThread`: before its loop, at the test of the loop, in `take`, in
a task, in a `run` that a task calls, or at the end. -/
inductive Worker where
  | starting
  | looping
  | taking
  | working
  | submitting
  | exited
  deriving DecidableEq, Repr

/-- The worker is in a method that locks the mutex. -/
def Worker.inMethod : Worker → Bool
  | taking => true
  | submitting => true
  | _ => false

/-- Where `stop` is: not called, under the mutex, at the `join` of a thread, or at its end. -/
inductive Stopper where
  | idle
  | stopping
  | joining (i : ℕ)
  | returned
  deriving DecidableEq, Repr

/-- The thread at whose `join` it is. -/
def Stopper.thread : Stopper → Option ℕ
  | joining i => some i
  | _ => none

structure State where
  monitor : Monitor.State Call ThreadPool Task
  workers : List Worker
  stopper : Stopper
  deriving DecidableEq, Repr

inductive Label where
  | run (t : ℕ) (task : Task)
  | stop
  | worker (i : ℕ)
  | join
  | lock (t : ℕ)
  | proceed (t : ℕ) (w : Option ℕ)
  | unlock (t : ℕ)
  | spurious (t : ℕ)
  deriving DecidableEq, Repr

/-- After `start(n)`. -/
def start (n maxQueueSize callers : ℕ) : State where
  monitor := Monitor.start (started maxQueueSize) (n + 1 + callers)
  workers := List.replicate n .starting
  stopper := .idle

namespace State

def inMonitor (s : State) (l : Monitor.Label Call) : Except Fault State := do
  let monitor ← methods.exec s.monitor l
  return { s with monitor := monitor }

def setWorker (s : State) (i : ℕ) (pc : Worker) : State := { s with workers := s.workers.set i pc }

/-- The thread that stops the pool. -/
def stopping (s : State) : ℕ := s.workers.length

/-- A worker outside the mutex. `running_` is read without it. -/
def stepWorker (s : State) (i : ℕ) : Except Fault State :=
  match s.workers[i]? with
  | some .starting => .ok (s.setWorker i .looping)
  | some .looping =>
      if s.monitor.shared.running then (s.setWorker i .taking).inMonitor (.call i .take)
      else .ok (s.setWorker i .exited)
  | some .working => .ok (s.setWorker i .looping)
  | _ => .ok s

/-- The loop of `stop`. -/
def stepJoin (s : State) : State :=
  match s.stopper with
  | .joining i =>
      if i < s.workers.length then { s with stopper := .joining (i + 1) }
      else { s with stopper := .returned }
  | _ => s

/-- A thread has left the mutex: a worker goes on with the task it has got, or the one it is
in, and `stop` with its loop. -/
def afterUnlock (s : State) (t : ℕ) (result : Task) : State :=
  match s.workers[t]? with
  | some .taking => s.setWorker t (if result.isSome then .working else .looping)
  | some .submitting => s.setWorker t .working
  | _ => if t = s.stopping then { s with stopper := .joining 0 } else s

/-- A task calls `run`. -/
def submit (s : State) (t : ℕ) : State :=
  if t < s.workers.length then s.setWorker t .submitting else s

/-- What the method of a thread returns. -/
def resultAt (s : State) (t : ℕ) : Task :=
  match s.monitor.places[t]? with
  | some (.leaving _ result) => result
  | _ => none

end State

/-- Without threads `run` executes the task itself. -/
def exec (s : State) : Label → Except Fault State
  | .run t task => if s.workers = [] then .ok s else (s.submit t).inMonitor (.call t (.run task))
  | .stop => { s with stopper := .stopping }.inMonitor (.call s.stopping .stop)
  | .worker i => s.stepWorker i
  | .join => .ok s.stepJoin
  | .lock t => s.inMonitor (.lock t)
  | .proceed t w => s.inMonitor (.proceed t w)
  | .unlock t => do
      let s' ← s.inMonitor (.unlock t)
      return s'.afterUnlock t (s.resultAt t)
  | .spurious t => s.inMonitor (.spurious t)

/-- `stop` is called once, and `join` returns when its thread has ended. -/
def Enabled (s : State) : Label → Prop
  | .run t task =>
      (s.stopping < t ∨ s.workers[t]? = some .working) ∧
        methods.Enabled s.monitor (.call t (.run task))
  | .stop => s.stopper = .idle
  | .worker i => (s.workers[i]?).any (fun pc => !pc.inMethod && pc ≠ .exited) = true
  | .join => s.stopper.thread.any (fun i => (s.workers[i]?).all (· = .exited)) = true
  | .lock t => methods.Enabled s.monitor (.lock t)
  | .proceed t w => methods.Enabled s.monitor (.proceed t w)
  | .unlock t => methods.Enabled s.monitor (.unlock t)
  | .spurious t => methods.Enabled s.monitor (.spurious t)

instance (s : State) : ∀ l : Label, Decidable (Enabled s l)
  | .run _ _ => inferInstanceAs (Decidable (_ ∧ _))
  | .stop => inferInstanceAs (Decidable (_ = _))
  | .worker _ => inferInstanceAs (Decidable (_ = _))
  | .join => inferInstanceAs (Decidable (_ = _))
  | .lock t => inferInstanceAs (Decidable (methods.Enabled s.monitor (.lock t)))
  | .proceed t w => inferInstanceAs (Decidable (methods.Enabled s.monitor (.proceed t w)))
  | .unlock t => inferInstanceAs (Decidable (methods.Enabled s.monitor (.unlock t)))
  | .spurious t => inferInstanceAs (Decidable (methods.Enabled s.monitor (.spurious t)))

/-- `stop` has returned, and a thread sleeps on `notFull_` in `run` without a notification. -/
def Stranded (s : State) : Prop :=
  s.stopper = .returned ∧ (∀ pc ∈ s.workers, pc = .exited) ∧
    0 < s.monitor.places.countP (methods.sleepsOn .notFull)

instance (s : State) : Decidable (Stranded s) := inferInstanceAs (Decidable (_ ∧ _ ∧ _))

end Muduo.System.Pooling
