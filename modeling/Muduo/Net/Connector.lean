import Muduo.Library.Descriptors
import Muduo.Net.EventLoop

/-! A connector on its event loop. What the system calls return is given to each function as
an argument. Other threads write `connect_`, so a function that reads it twice is cut before
the second time; the rest is put on the stack of the loop thread, as is the code of the user. -/

namespace Muduo.Net

open Library

namespace Connector

inductive States where
  | kDisconnected
  | kConnecting
  | kConnected
  deriving DecidableEq, Repr

def kMaxRetryDelayMs : ℕ := 30 * 1000

def kInitRetryDelayMs : ℕ := 500

/-- `savedErrno` after `sockets::connect`, with the values that the code tells apart. -/
inductive Errno where
  | zero
  | EINPROGRESS
  | EINTR
  | EISCONN
  | EAGAIN
  | EADDRINUSE
  | EADDRNOTAVAIL
  | ECONNREFUSED
  | ENETUNREACH
  | EACCES
  | EPERM
  | EAFNOSUPPORT
  | EALREADY
  | EBADF
  | EFAULT
  | ENOTSOCK
  | other (code : ℕ)
  deriving DecidableEq, Repr

inductive Functor where
  | startInLoop
  | stopInLoop
  | resetChannel
  deriving DecidableEq, Repr

/-- The calls on the stack of the loop thread: functions of the connector, the second
statement of `stop`, the callbacks of the channel, and the code of the user behind
`newConnectionCallback_`. -/
inductive Call where
  | startInLoop
  | connect
  | queueStop
  | handleError
  | handleWrite
  | user
  deriving DecidableEq, Repr

/-- Failed assertions, a null `channel_` that is used, and a loop that calls a channel which
has been destructed. -/
inductive Fault where
  | loop (fault : EventLoop.Fault)
  | startInLoop
  | connecting
  | handleWrite
  | destructor
  | null
  | dangling
  deriving DecidableEq, Repr

/-- `Channel::handleEventWithGuard` of a channel without a read and a close callback. -/
def handleEvent (revents : Revents) : List Call :=
  (if revents.pollerr ∨ revents.pollnval then [.handleError] else []) ++
  (if revents.pollout then [.handleWrite] else [])

end Connector

open Connector

structure Connector where
  connect : Bool
  state : States
  channel : Option Channel
  retryDelayMs : ℕ

namespace Connector

def init : Connector where
  connect := false
  state := .kDisconnected
  channel := none
  retryDelayMs := kInitRetryDelayMs

/-- A connector with its loop and the sockets it has created. `timers` are the delays of the
retries that have been scheduled and have not begun. -/
structure World where
  self : Connector
  loop : EventLoop Functor
  sockets : Descriptors ℤ
  timers : List ℕ
  stack : List Call

namespace World

def init : World where
  self := .init
  loop := .init
  sockets := .empty
  timers := []
  stack := []

def setState (w : World) (s : States) : World := { w with self := { w.self with state := s } }

def setConnect (w : World) (b : Bool) : World := { w with self := { w.self with connect := b } }

def setChannel (w : World) (c : Option Channel) : World :=
  { w with self := { w.self with channel := c } }

def call (w : World) (calls : List Call) : World := { w with stack := calls ++ w.stack }

def queueInLoop (w : World) (f : Functor) : World := { w with loop := w.loop.queueInLoop f }

/-- `sockets::close`. -/
def close (w : World) (sockfd : ℤ) : World := { w with sockets := w.sockets.close sockfd }

/-- `newConnectionCallback_(sockfd)`. -/
def newConnectionCallback (w : World) (sockfd : ℤ) : World :=
  { w with sockets := w.sockets.hand sockfd }.call [.user]

def retry (w : World) (sockfd : ℤ) : World :=
  let w := (w.close sockfd).setState .kDisconnected
  if w.self.connect then
    { w with
      timers := w.timers ++ [w.self.retryDelayMs]
      self := { w.self with retryDelayMs := min (w.self.retryDelayMs * 2) kMaxRetryDelayMs } }
  else w

/-- The address of a channel is one more than the number of its socket; `0` is left for the
other channels of the loop. -/
def connecting (w : World) (sockfd : ℤ) : Except Fault World := do
  let w := w.setState .kConnecting
  ensure (w.self.channel = none) .connecting
  let (c, loop) ← ((Channel.init w.sockets.created sockfd).enableWriting w.loop).mapError .loop
  return { w with loop := loop }.setChannel (some c)

/-- `createNonblockingOrDie` has returned `sockfd`, and `savedErrno` is what
`sockets::connect` left. -/
def connect (w : World) (sockfd : ℤ) (savedErrno : Errno) : Except Fault World :=
  let w := { w with sockets := w.sockets.create sockfd }
  match savedErrno with
  | .zero => w.connecting sockfd
  | .EINPROGRESS => w.connecting sockfd
  | .EINTR => w.connecting sockfd
  | .EISCONN => w.connecting sockfd
  | .EAGAIN => .ok (w.retry sockfd)
  | .EADDRINUSE => .ok (w.retry sockfd)
  | .EADDRNOTAVAIL => .ok (w.retry sockfd)
  | .ECONNREFUSED => .ok (w.retry sockfd)
  | .ENETUNREACH => .ok (w.retry sockfd)
  | _ => .ok (w.close sockfd)

def startInLoop (w : World) : Except Fault World := do
  ensure (w.self.state = .kDisconnected) .startInLoop
  return if w.self.connect then w.call [.connect] else w

def removeAndResetChannel (w : World) : Except Fault (ℤ × World) :=
  match w.self.channel with
  | none => .error .null
  | some c => do
      let (c, loop) ← (c.disableAll w.loop).mapError .loop
      let (c, loop) ← (c.remove loop).mapError .loop
      return (c.fd, ({ w with loop := loop }.setChannel (some c)).queueInLoop .resetChannel)

def stopInLoop (w : World) : Except Fault World :=
  if w.self.state = .kConnecting then do
    let (sockfd, w) ← (w.setState .kDisconnected).removeAndResetChannel
    return w.retry sockfd
  else .ok w

/-- `channel_.reset()`, with the assertions of the destructor of `Channel`. -/
def resetChannel (w : World) : Except Fault World :=
  match w.self.channel with
  | none => .ok w
  | some c => do
      ensure (c.addedToLoop = false) .destructor
      ensure (w.loop.poller.hasChannel c = false) .destructor
      return w.setChannel none

/-- `err` is what `getSocketError` returns. -/
def handleWrite (w : World) (err : ℕ) (isSelfConnect : Bool) : Except Fault World :=
  if w.self.state = .kConnecting then do
    let (sockfd, w) ← w.removeAndResetChannel
    if err ≠ 0 then return w.retry sockfd
    else if isSelfConnect then return w.retry sockfd
    else
      let w := w.setState .kConnected
      return if w.self.connect then w.newConnectionCallback sockfd else w.close sockfd
  else do
    ensure (w.self.state = .kDisconnected) .handleWrite
    return w

def handleError (w : World) : Except Fault World :=
  if w.self.state = .kConnecting then do
    let (sockfd, w) ← w.removeAndResetChannel
    return w.retry sockfd
  else .ok w

def runFunctor (w : World) : Functor → Except Fault World
  | .startInLoop => w.startInLoop
  | .stopInLoop => w.stopInLoop
  | .resetChannel => w.resetChannel

/-! ### Calls made in the loop thread -/

def start (w : World) : World := (w.setConnect true).call [.startInLoop]

def stop (w : World) : World := (w.setConnect false).call [.queueStop]

def restart (w : World) : World :=
  { w with
    self := { w.self with
      state := .kDisconnected
      retryDelayMs := kInitRetryDelayMs
      connect := true } }.call [.startInLoop]

end World

end Connector

end Muduo.Net
