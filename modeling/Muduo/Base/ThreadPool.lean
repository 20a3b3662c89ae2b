import Muduo.Library.Monitor

/-! The thread pool: what its methods do under the mutex, behind their loops. -/

namespace Muduo.Base

open Library

/-- `threads_` and the callback of the threads are left to the system around it. -/
structure ThreadPool where
  queue : List (Option ℕ)
  maxQueueSize : ℕ
  running : Bool
  deriving DecidableEq, Repr

namespace ThreadPool

/-- A `std::function<void ()>`, which may be empty. -/
abbrev Task : Type := Option ℕ

/-- The members of type `Condition`. -/
inductive Condition where
  | notEmpty
  | notFull
  deriving DecidableEq, Repr

/-- The assertion of `run`. -/
inductive Fault where
  | full
  deriving DecidableEq, Repr

/-- After `setMaxQueueSize` and `start`. -/
def started (maxQueueSize : ℕ) : ThreadPool := ⟨[], maxQueueSize, true⟩

def isFull (p : ThreadPool) : Bool := 0 < p.maxQueueSize && p.maxQueueSize ≤ p.queue.length

/-- `run`, behind its loop. -/
def run (p : ThreadPool) (task : Task) : Except Fault ThreadPool := do
  ensure (p.isFull = false) .full
  return { p with queue := p.queue ++ [task] }

/-- `take`, behind its loop: the task, and whether `notFull_` is notified. -/
def take (p : ThreadPool) : Task × Bool × ThreadPool :=
  match p.queue with
  | [] => (none, false, p)
  | task :: queue => (task, 0 < p.maxQueueSize, { p with queue := queue })

/-- The part of `stop` under the mutex. -/
def stop (p : ThreadPool) : ThreadPool := { p with running := false }

/-- The methods that lock the mutex. -/
inductive Call where
  | run (task : Task)
  | take
  | stop
  deriving DecidableEq, Repr

def methods : Monitor.Methods Call ThreadPool Condition Task Fault where
  condition
    | .run _ => .notFull
    | .take => .notEmpty
    | .stop => .notEmpty
  blocked
    | .run _, p => p.isFull
    | .take, p => p.queue.isEmpty && p.running
    | .stop, _ => false
  body
    | .run task, p => do
        let p ← p.run task
        return ⟨p, .notify .notEmpty, none⟩
    | .take, p =>
        let (task, notified, p) := p.take
        .ok ⟨p, if notified then .notify .notFull else .none, task⟩
    | .stop, p => .ok ⟨p.stop, .notifyAll .notEmpty, none⟩

end ThreadPool

end Muduo.Base
