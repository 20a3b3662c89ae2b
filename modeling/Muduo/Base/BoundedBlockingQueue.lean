import Muduo.Library.Monitor

/-! The blocking queue of bounded size: what `put` and `take` do behind their loops. -/

namespace Muduo.Base

open Library

/-- What the queue calls of `boost::circular_buffer`; an object of it has type `β` and elements of
type `α`. -/
structure CircularBuffer (β α : Type) where
  ctor : ℕ → β
  full : β → Bool
  empty : β → Bool
  pushBack : β → α → β
  front : (b : β) → empty b = false → α
  popFront : β → β

/-- What is assumed of these operations, in terms of the capacity and the elements of an object. Of
`push_back` only what it does to a buffer that is not full. -/
structure CircularBuffer.Lawful {β α : Type} (C : CircularBuffer β α) (capacity : β → ℕ)
    (items : β → List α) : Prop where
  ctor : ∀ n, capacity (C.ctor n) = n ∧ items (C.ctor n) = []
  full : ∀ b, C.full b = true ↔ (items b).length = capacity b
  empty : ∀ b, C.empty b = true ↔ items b = []
  pushBack : ∀ b x, C.full b = false →
    capacity (C.pushBack b x) = capacity b ∧ items (C.pushBack b x) = items b ++ [x]
  front : ∀ b h, (items b).head? = some (C.front b h)
  popFront : ∀ b, C.empty b = false →
    capacity (C.popFront b) = capacity b ∧ items (C.popFront b) = (items b).tail

structure BoundedBlockingQueue (β : Type) where
  queue : β

namespace BoundedBlockingQueue

/-- The members of type `Condition`. -/
inductive Condition where
  | notEmpty
  | notFull
  deriving DecidableEq, Repr

/-- The two assertions. -/
inductive Fault where
  | put
  | take
  deriving DecidableEq, Repr

variable {β α : Type} (C : CircularBuffer β α)

def ctor (maxSize : ℕ) : BoundedBlockingQueue β := ⟨C.ctor maxSize⟩

/-- `put`, behind its loop. -/
def put (q : BoundedBlockingQueue β) (x : α) : Except Fault (BoundedBlockingQueue β) := do
  ensure (C.full q.queue = false) .put
  return ⟨C.pushBack q.queue x⟩

/-- `take`, behind its loop. -/
def take (q : BoundedBlockingQueue β) : Except Fault (α × BoundedBlockingQueue β) :=
  if h : C.empty q.queue = false then .ok (C.front q.queue h, ⟨C.popFront q.queue⟩)
  else .error .take

end BoundedBlockingQueue

end Muduo.Base
