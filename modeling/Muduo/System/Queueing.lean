import Muduo.Base.BoundedBlockingQueue

/-! A bounded blocking queue at work: any number of threads that put and take. -/

namespace Muduo.System.Queueing

open Library Base BoundedBlockingQueue

inductive Call (α : Type) where
  | put (x : α)
  | take
  deriving DecidableEq, Repr

/-- The last two fields record history: the items put and taken, in the order of the mutex. -/
structure Shared (β α : Type) where
  queue : BoundedBlockingQueue β
  put : List α
  taken : List α

abbrev State (β α : Type) : Type := Monitor.State (Call α) (Shared β α) (Option α)

variable {β α : Type} (C : CircularBuffer β α)

def methods : Monitor.Methods (Call α) (Shared β α) Condition (Option α) Fault where
  condition
    | .put _ => .notFull
    | .take => .notEmpty
  blocked
    | .put _, s => C.full s.queue.queue
    | .take, s => C.empty s.queue.queue
  body
    | .put x, s => do
        let queue ← s.queue.put C x
        return ⟨{ s with queue := queue, put := s.put ++ [x] }, .notify .notEmpty, none⟩
    | .take, s => do
        let (front, queue) ← s.queue.take C
        return ⟨{ s with queue := queue, taken := s.taken ++ [front] }, .notify .notFull,
          some front⟩

def start (maxSize threads : ℕ) : State β α := Monitor.start ⟨.ctor C maxSize, [], []⟩ threads

def exec (s : State β α) (l : Monitor.Label (Call α)) : Except Fault (State β α) :=
  (methods C).exec s l

def Enabled (s : State β α) (l : Monitor.Label (Call α)) : Prop := (methods C).Enabled s l

instance (s : State β α) (l : Monitor.Label (Call α)) : Decidable (Enabled C s l) :=
  inferInstanceAs (Decidable ((methods C).Enabled s l))

namespace State

/-- Consumers that sleep on `notEmpty_` and have not been notified. -/
def sleepingConsumers (s : State β α) : ℕ := s.places.countP ((methods C).sleepsOn .notEmpty)

/-- Consumers that have been woken and have not run since. -/
def wokenConsumers (s : State β α) : ℕ := s.places.countP ((methods C).wokenOn .notEmpty)

def sleepingProducers (s : State β α) : ℕ := s.places.countP ((methods C).sleepsOn .notFull)

def wokenProducers (s : State β α) : ℕ := s.places.countP ((methods C).wokenOn .notFull)

end State

end Muduo.System.Queueing
