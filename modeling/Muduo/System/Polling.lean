import Muduo.Net.Poller.EPollPoller
import Muduo.Net.Poller.PollPoller

/-! Channels of one loop and a poller of either kind, under any sequence of channel
operations outside event handling. -/

namespace Muduo.System.Polling

open Library Net

/-- What the loop calls of its poller. The channels lie on the heap under their
addresses, since a poller may change the index of another channel. -/
structure Poller (π ε : Type) where
  updateChannel : π → (ℕ → Channel) → ℕ → Except ε (π × (ℕ → Channel))
  removeChannel : π → (ℕ → Channel) → ℕ → Except ε (π × (ℕ → Channel))

def epoll : Poller EPollPoller EPollPoller.Fault where
  updateChannel p heap a := do
    let (p, c) ← p.updateChannel (heap a)
    return (p, Function.update heap a c)
  removeChannel p heap a := do
    let (p, c) ← p.removeChannel (heap a)
    return (p, Function.update heap a c)

def poll : Poller PollPoller PollPoller.Fault where
  updateChannel p heap a := do
    let (p, c) ← p.updateChannel (heap a)
    return (p, Function.update heap a c)
  removeChannel p heap a := p.removeChannel heap (heap a)

/-- The last two fields record which channels have been updated and which removed. -/
structure State (π : Type) where
  poller : π
  heap : ℕ → Channel
  updated : ℕ → Bool
  removed : ℕ → Bool

/-- The five methods of `Channel` that change the mask. -/
inductive Update where
  | enableReading
  | disableReading
  | enableWriting
  | disableWriting
  | disableAll
  deriving DecidableEq, Repr

def Update.mask (e : Events) : Update → Events
  | .enableReading => { e with read := true }
  | .disableReading => { e with read := false }
  | .enableWriting => { e with write := true }
  | .disableWriting => { e with write := false }
  | .disableAll => Channel.kNoneEvent

inductive Label where
  | update (u : Update) (a : ℕ)
  | remove (a : ℕ)
  deriving DecidableEq, Repr

def Label.channel : Label → ℕ
  | .update _ a => a
  | .remove a => a

/-- A failed assertion of the poller, or the one of `Channel::remove`. -/
inductive Fault (ε : Type) where
  | poller (fault : ε)
  | removeEvents
  deriving DecidableEq, Repr

variable {π ε : Type}

/-- The channel at each address, with its descriptor. -/
def start (p : π) (fd : ℕ → ℤ) : State π where
  poller := p
  heap := fun a => .init a (fd a)
  updated := fun _ => false
  removed := fun _ => false

def exec (I : Poller π ε) (s : State π) : Label → Except (Fault ε) (State π)
  | .update u a => do
      let c := { s.heap a with events := u.mask (s.heap a).events, addedToLoop := true }
      let (p, heap) ← (I.updateChannel s.poller (Function.update s.heap a c) a).mapError .poller
      return { s with poller := p, heap := heap, updated := Function.update s.updated a true }
  | .remove a => do
      ensure ((s.heap a).isNoneEvent = true) .removeEvents
      let c := { s.heap a with addedToLoop := false }
      let (p, heap) ← (I.removeChannel s.poller (Function.update s.heap a c) a).mapError .poller
      return { s with poller := p, heap := heap, removed := Function.update s.removed a true }

/-- The operations are on the channels `live`, and a channel is removed only after it has
been updated, with no events left. -/
def Enabled (live : ℕ → Prop) (s : State π) : Label → Prop
  | .update _ a => live a
  | .remove a => live a ∧ s.updated a = true ∧ (s.heap a).isNoneEvent = true

instance (live : ℕ → Prop) [DecidablePred live] (s : State π) :
    ∀ l : Label, Decidable (Enabled live s l)
  | .update _ a => inferInstanceAs (Decidable (live a))
  | .remove _ => inferInstanceAs (Decidable (_ ∧ _ ∧ _))

/-- The operations on which the pollers differ are left out: an update that leaves an
empty mask empty when the descriptor is not registered, an update after a removal, and a
removal of a channel whose first and only update left its mask empty. -/
def Plain (s : State EPollPoller) : Label → Prop
  | .update u a => s.removed a = false ∧
      ¬ ((s.heap a).index = EPollPoller.kDeleted ∧ u.mask (s.heap a).events = Channel.kNoneEvent)
  | .remove a => (s.heap a).index ≠ EPollPoller.kAdded

instance (s : State EPollPoller) : ∀ l : Label, Decidable (Plain s l)
  | .update _ _ => inferInstanceAs (Decidable (_ ∧ ¬ (_ ∧ _)))
  | .remove _ => inferInstanceAs (Decidable (_ ≠ _))

/-- A run that also keeps which channels have been updated since they were created or
last removed. -/
structure Session (π : Type) where
  state : State π
  registered : ℕ → Bool

namespace Session

def start (p : π) (fd : ℕ → ℤ) : Session π := ⟨Polling.start p fd, fun _ => false⟩

def registeredAfter (registered : ℕ → Bool) : Label → ℕ → Bool
  | .update _ a => Function.update registered a true
  | .remove a => Function.update registered a false

def exec (I : Poller π ε) (s : Session π) (l : Label) : Except (Fault ε) (Session π) := do
  let state ← Polling.exec I s.state l
  return ⟨state, registeredAfter s.registered l⟩

/-- A channel is removed only when it is registered and has no events left. -/
def Legal (live : ℕ → Prop) (s : Session π) : Label → Prop
  | .update _ a => live a
  | .remove a => live a ∧ s.registered a = true ∧ (s.state.heap a).isNoneEvent = true

/-- In addition, a channel is registered with some event. -/
def Eventful (live : ℕ → Prop) (s : Session π) : Label → Prop
  | .update u a => live a ∧
      (s.registered a = false → u.mask (s.state.heap a).events ≠ Channel.kNoneEvent)
  | .remove a => live a ∧ s.registered a = true ∧ (s.state.heap a).isNoneEvent = true

instance (live : ℕ → Prop) [DecidablePred live] (s : Session π) :
    ∀ l : Label, Decidable (s.Legal live l)
  | .update _ a => inferInstanceAs (Decidable (live a))
  | .remove _ => inferInstanceAs (Decidable (_ ∧ _ ∧ _))

instance (live : ℕ → Prop) [DecidablePred live] (s : Session π) :
    ∀ l : Label, Decidable (s.Eventful live l)
  | .update _ _ => inferInstanceAs (Decidable (_ ∧ (_ → _)))
  | .remove _ => inferInstanceAs (Decidable (_ ∧ _ ∧ _))

end Session

end Muduo.System.Polling
