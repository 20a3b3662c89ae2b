import Muduo.Library.Run
import Muduo.Net.Channel
import Mathlib.Logic.Function.Basic

/-! The epoll poller: the map of known channels and the interest list the kernel
keeps behind `epollfd_`. -/

namespace Muduo.Net

open Library

/-- `channels_`, and the registrations made through `epoll_ctl`. -/
structure EPollPoller where
  channels : ℤ → Option ℕ
  interest : ℤ → Option Events

namespace EPollPoller

/-- The assertions of `EPollPoller`, and `LOG_SYSFATAL` in `update`. -/
inductive Fault where
  | addKnown
  | readdUnknown
  | modifyUnknown
  | modifyIndex
  | removeUnknown
  | removeEvents
  | removeIndex
  | epollCtl
  deriving DecidableEq, Repr

def kNew : ℤ := -1

def kAdded : ℤ := 1

def kDeleted : ℤ := 2

def init : EPollPoller := ⟨fun _ => none, fun _ => none⟩

inductive Operation where
  | add
  | mod
  | del
  deriving DecidableEq, Repr

/-- `epoll_ctl`: `ADD` fails with `EEXIST` on a registered descriptor, `MOD` and `DEL`
with `ENOENT` on an unregistered one. -/
def epollCtl (interest : ℤ → Option Events) (fd : ℤ) (events : Events) :
    Operation → Option (ℤ → Option Events)
  | .add => if interest fd = none then some (Function.update interest fd (some events)) else none
  | .mod => if interest fd = none then none else some (Function.update interest fd (some events))
  | .del => if interest fd = none then none else some (Function.update interest fd none)

/-- A failed `DEL` is logged, any other failure is fatal. -/
def update (p : EPollPoller) (operation : Operation) (c : Channel) : Except Fault EPollPoller :=
  match epollCtl p.interest c.fd c.events operation with
  | some interest => .ok { p with interest := interest }
  | none => if operation = .del then .ok p else .error .epollCtl

def updateChannel (p : EPollPoller) (c : Channel) : Except Fault (EPollPoller × Channel) :=
  if c.index = kNew ∨ c.index = kDeleted then do
    let p ←
      if c.index = kNew then do
        ensure (p.channels c.fd = none) .addKnown
        pure { p with channels := Function.update p.channels c.fd (some c.self) }
      else do
        ensure (p.channels c.fd = some c.self) .readdUnknown
        pure p
    let c := { c with index := kAdded }
    let p ← p.update .add c
    return (p, c)
  else do
    ensure (p.channels c.fd = some c.self) .modifyUnknown
    ensure (c.index = kAdded) .modifyIndex
    if c.isNoneEvent then
      let p ← p.update .del c
      return (p, { c with index := kDeleted })
    else
      let p ← p.update .mod c
      return (p, c)

def removeChannel (p : EPollPoller) (c : Channel) : Except Fault (EPollPoller × Channel) := do
  ensure (p.channels c.fd = some c.self) .removeUnknown
  ensure (c.isNoneEvent = true) .removeEvents
  ensure (c.index = kAdded ∨ c.index = kDeleted) .removeIndex
  let p := { p with channels := Function.update p.channels c.fd none }
  let p ← if c.index = kAdded then p.update .del c else pure p
  return (p, { c with index := kNew })

def hasChannel (p : EPollPoller) (c : Channel) : Bool := p.channels c.fd == some c.self

end EPollPoller

end Muduo.Net
