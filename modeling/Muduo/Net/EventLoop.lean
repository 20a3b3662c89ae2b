import Muduo.Net.Poller.EPollPoller

/-! The part of an event loop that its channels and connections call: the poller,
the channels of the current iteration and the queue of pending functors. -/

namespace Muduo.Net

open Library

/-- `activeChannels_` and `currentActiveChannel_` hold addresses of channels. -/
structure EventLoop (φ : Type) where
  poller : EPollPoller
  eventHandling : Bool
  activeChannels : List ℕ
  currentActiveChannel : Option ℕ
  pendingFunctors : List φ

namespace EventLoop

inductive Fault where
  | poller (fault : EPollPoller.Fault)
  | removeActive
  | removeEvents
  deriving DecidableEq, Repr

variable {φ : Type}

def init : EventLoop φ where
  poller := .init
  eventHandling := false
  activeChannels := []
  currentActiveChannel := none
  pendingFunctors := []

def queueInLoop (l : EventLoop φ) (functor : φ) : EventLoop φ :=
  { l with pendingFunctors := l.pendingFunctors ++ [functor] }

def updateChannel (l : EventLoop φ) (c : Channel) : Except Fault (Channel × EventLoop φ) := do
  let (poller, c) ← (l.poller.updateChannel c).mapError Fault.poller
  return (c, { l with poller := poller })

/-- While events are handled, a channel of this iteration may only remove itself. -/
def removeChannel (l : EventLoop φ) (c : Channel) : Except Fault (Channel × EventLoop φ) := do
  ensure (l.eventHandling = true →
    l.currentActiveChannel = some c.self ∨ c.self ∉ l.activeChannels) .removeActive
  let (poller, c) ← (l.poller.removeChannel c).mapError Fault.poller
  return (c, { l with poller := poller })

end EventLoop

namespace Channel

variable {φ : Type}

def update (c : Channel) (l : EventLoop φ) : Except EventLoop.Fault (Channel × EventLoop φ) :=
  l.updateChannel { c with addedToLoop := true }

/-- The five methods that change `events_` and then call `update()`. -/
def modify (f : Events → Events) (c : Channel) (l : EventLoop φ) :
    Except EventLoop.Fault (Channel × EventLoop φ) :=
  { c with events := f c.events }.update l

def enableReading : Channel → EventLoop φ → Except EventLoop.Fault (Channel × EventLoop φ) :=
  modify fun e => { e with read := true }

def disableReading : Channel → EventLoop φ → Except EventLoop.Fault (Channel × EventLoop φ) :=
  modify fun e => { e with read := false }

def enableWriting : Channel → EventLoop φ → Except EventLoop.Fault (Channel × EventLoop φ) :=
  modify fun e => { e with write := true }

def disableWriting : Channel → EventLoop φ → Except EventLoop.Fault (Channel × EventLoop φ) :=
  modify fun e => { e with write := false }

def disableAll : Channel → EventLoop φ → Except EventLoop.Fault (Channel × EventLoop φ) :=
  modify fun _ => kNoneEvent

def remove (c : Channel) (l : EventLoop φ) :
    Except EventLoop.Fault (Channel × EventLoop φ) := do
  ensure (c.isNoneEvent = true) .removeEvents
  l.removeChannel { c with addedToLoop := false }

end Channel

end Muduo.Net
