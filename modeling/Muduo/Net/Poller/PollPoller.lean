import Muduo.Library.Run
import Muduo.Net.Channel
import Mathlib.Data.List.Basic
import Mathlib.Logic.Function.Basic

/-! The poller over `poll(2)`: the map of known channels and the array of `pollfd`s that
is handed to the kernel. -/

namespace Muduo.Net

open Library

/-- No event has been reported. -/
def Revents.zero : Revents := ⟨false, false, false, false, false, false, false⟩

/-- `struct pollfd`; the kernel passes over an entry with a negative descriptor. -/
structure PollFd where
  fd : ℤ
  events : Events
  revents : Revents
  deriving DecidableEq, Repr

/-- `channels_` and `pollfds_`. -/
structure PollPoller where
  channels : ℤ → Option ℕ
  pollfds : List PollFd

namespace PollPoller

/-- The assertions of `PollPoller`, and the null pointer that `channels_[fd]` makes for an
unknown descriptor. -/
inductive Fault where
  | addKnown
  | updateUnknown
  | updateIndex
  | updateFd
  | removeUnknown
  | removeEvents
  | removeIndex
  | removeFd
  | nullChannel
  deriving DecidableEq, Repr

def init : PollPoller := ⟨fun _ => none, []⟩

/-- How the descriptor of a channel without events is kept in the array. -/
def ignored (fd : ℤ) : ℤ := -fd - 1

/-- The entry of a channel that is known already. -/
def pollfdOf (c : Channel) : PollFd where
  fd := if c.isNoneEvent then ignored c.fd else c.fd
  events := c.events
  revents := .zero

/-- A new channel is entered with its descriptor even when it has no events. -/
def updateChannel (p : PollPoller) (c : Channel) : Except Fault (PollPoller × Channel) :=
  if c.index < 0 then do
    ensure (p.channels c.fd = none) .addKnown
    let pfd : PollFd := ⟨c.fd, c.events, .zero⟩
    return ({ channels := Function.update p.channels c.fd (some c.self)
              pollfds := p.pollfds ++ [pfd] }, { c with index := p.pollfds.length })
  else do
    ensure (p.channels c.fd = some c.self) .updateUnknown
    match p.pollfds[c.index.toNat]? with
    | none => .error .updateIndex
    | some pfd =>
        ensure (pfd.fd = c.fd ∨ pfd.fd = ignored c.fd) .updateFd
        return ({ p with pollfds := p.pollfds.set c.index.toNat (pollfdOf c) }, c)

/-- The last entry takes the place of the one that is removed, and the channel it belongs
to, which lies on the heap like all others, gets the new index. The channel that is removed
keeps its own. -/
def removeChannel (p : PollPoller) (heap : ℕ → Channel) (c : Channel) :
    Except Fault (PollPoller × (ℕ → Channel)) := do
  ensure (p.channels c.fd = some c.self) .removeUnknown
  ensure (c.isNoneEvent = true) .removeEvents
  ensure (0 ≤ c.index) .removeIndex
  let idx := c.index.toNat
  match p.pollfds[idx]?, p.pollfds.getLast? with
  | some pfd, some back => do
      ensure (pfd.fd = ignored c.fd ∧ pfd.events = c.events) .removeFd
      let channels := Function.update p.channels c.fd none
      if idx = p.pollfds.length - 1 then
        return (⟨channels, p.pollfds.dropLast⟩, heap)
      else
        let channelAtEnd := if back.fd < 0 then ignored back.fd else back.fd
        match channels channelAtEnd with
        | none => .error .nullChannel
        | some address =>
            let heap := Function.update heap address { heap address with index := idx }
            return (⟨channels, (p.pollfds.set idx back).dropLast⟩, heap)
  | _, _ => .error .removeIndex

/-- The assertions of `fillActiveChannels`. -/
inductive ActiveFault where
  | unknown
  | descriptor
  deriving DecidableEq, Repr

/-- The loop of `fillActiveChannels`. A channel is listed with the `revents` it is given,
which are positive when some bit of them is set. -/
def fillLoop (p : PollPoller) (heap : ℕ → Channel) :
    ℤ → List PollFd → Except ActiveFault (List (ℕ × Revents))
  | _, [] => .ok []
  | numEvents, pfd :: pfds =>
      if 0 < numEvents then
        if pfd.revents = .zero then p.fillLoop heap numEvents pfds
        else
          match p.channels pfd.fd with
          | none => .error .unknown
          | some channel => do
              ensure ((heap channel).fd = pfd.fd) .descriptor
              let active ← p.fillLoop heap (numEvents - 1) pfds
              return (channel, pfd.revents) :: active
      else .ok []

def fillActiveChannels (p : PollPoller) (heap : ℕ → Channel) (numEvents : ℤ) :
    Except ActiveFault (List (ℕ × Revents)) :=
  p.fillLoop heap numEvents p.pollfds

/-- What `poll(2)` does to an entry: the descriptor of an entry that is passed over is
negative. -/
def answer (pfd : PollFd) (revents : Revents) : PollFd :=
  { pfd with revents := if 0 ≤ pfd.fd then revents else .zero }

/-- The array after `poll(2)`, which reports `revents i` for the entry at `i`. -/
def afterPoll (p : PollPoller) (revents : ℕ → Revents) : PollPoller :=
  { p with pollfds := p.pollfds.mapIdx fun i pfd => answer pfd (revents i) }

/-- The value that `poll(2)` returns. -/
def numEvents (p : PollPoller) : ℕ := p.pollfds.countP fun pfd => pfd.revents ≠ .zero

end PollPoller

end Muduo.Net
