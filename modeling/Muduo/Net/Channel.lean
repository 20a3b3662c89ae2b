import Mathlib.Data.Int.Notation
import Mathlib.Data.Nat.Notation

/-! A channel: one file descriptor, the events asked for and the events received. -/

namespace Muduo.Net

/-- `events_`. The class sets and clears only `kReadEvent` (`POLLIN | POLLPRI`) and
`kWriteEvent` (`POLLOUT`), so the mask is which of the two are set. -/
structure Events where
  read : Bool
  write : Bool
  deriving DecidableEq, Repr

/-- `revents_`, as reported by the poller. -/
structure Revents where
  pollin : Bool
  pollpri : Bool
  pollout : Bool
  pollerr : Bool
  pollhup : Bool
  pollnval : Bool
  pollrdhup : Bool
  deriving DecidableEq, Repr

/-- The members of `Channel` that the pollers and the connection use. `self` is the
address of the object, and `index` belongs to the poller. -/
structure Channel where
  self : ℕ
  fd : ℤ
  events : Events
  index : ℤ
  addedToLoop : Bool
  deriving DecidableEq, Repr

namespace Channel

def kNoneEvent : Events := ⟨false, false⟩

def init (self : ℕ) (fd : ℤ) : Channel where
  self := self
  fd := fd
  events := kNoneEvent
  index := -1
  addedToLoop := false

def isNoneEvent (c : Channel) : Bool := c.events == kNoneEvent

def isWriting (c : Channel) : Bool := c.events.write

def isReading (c : Channel) : Bool := c.events.read

end Channel

end Muduo.Net
