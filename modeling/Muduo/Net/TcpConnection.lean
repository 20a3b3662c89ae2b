import Muduo.Net.Buffer
import Muduo.Net.EventLoop

/-! A TCP connection on its event loop. What the system calls return is given to each
function as an argument; the callbacks are put on the stack of the loop thread. -/

namespace Muduo.Net

open Library

namespace TcpConnection

inductive StateE where
  | kDisconnected
  | kConnecting
  | kConnected
  | kDisconnecting
  deriving DecidableEq, Repr

/-- The functors that a connection, or a thread acting on it, queues in its loop. -/
inductive Functor where
  | sendInLoop (message : List UInt8)
  | shutdownInLoop
  | forceCloseInLoop
  | startReadInLoop
  | stopReadInLoop
  | connectDestroyed
  | writeCompleteCallback
  | highWaterMarkCallback (size : ℕ)
  deriving DecidableEq, Repr

/-- How many bytes a functor offers to `::write`. -/
def Functor.offered : Functor → ℕ
  | .sendInLoop message => message.length
  | _ => 0

/-- The values of `errno` after `::write` that the code tells apart. -/
inductive Errno where
  | EWOULDBLOCK
  | EPIPE
  | ECONNRESET
  | other (code : ℕ)
  deriving DecidableEq, Repr

/-- The result of one `::write`: a byte count, or `-1` with an `errno`. -/
inductive WriteResult where
  | wrote (n : ℕ)
  | failed (errno : Errno)
  deriving DecidableEq, Repr

/-- `::write` never reports more bytes than it was asked to write. -/
def WriteResult.Within (len : ℕ) : WriteResult → Prop
  | .wrote n => n ≤ len
  | .failed _ => True

/-- Neither of the two errors after which `sendInLoop` drops the message. -/
def WriteResult.Sound : WriteResult → Prop
  | .wrote _ => True
  | .failed errno => errno ≠ .EPIPE ∧ errno ≠ .ECONNRESET

instance (len : ℕ) : ∀ r : WriteResult, Decidable (r.Within len)
  | .wrote _ => inferInstanceAs (Decidable (_ ≤ _))
  | .failed _ => .isTrue trivial

instance : ∀ r : WriteResult, Decidable r.Sound
  | .wrote _ => .isTrue trivial
  | .failed _ => inferInstanceAs (Decidable (_ ∧ _))

/-- The calls on the stack of the loop thread: the callbacks of the channel, the code of
the user behind `connectionCallback_` and `messageCallback_`, `closeCallback_`, and the
last statement of `connectDestroyed`. -/
inductive Call where
  | handleClose
  | handleRead
  | handleWrite
  | user
  | closeCallback
  | remove
  deriving DecidableEq, Repr

/-- What a connection lets others see, in the order in which it happens. -/
inductive Event where
  | handleClose
  | connection (connected : Bool)
  | message (n : ℕ)
  | closeCallback
  | destroyed (state : StateE) (inPoller : Bool)
  deriving DecidableEq, Repr

/-- Failed assertions. -/
inductive Fault where
  | buffer (fault : Buffer.Fault)
  | loop (fault : EventLoop.Fault)
  | sendInLoop
  | connectEstablished
  | handleClose
  | server
  deriving DecidableEq, Repr

/-- `Channel::handleEventWithGuard`: the callbacks it calls for `revents_`, in order.
The error callback, which only logs, is left out. -/
def handleEvent (revents : Revents) : List Call :=
  (if revents.pollhup ∧ ¬ revents.pollin then [.handleClose] else []) ++
  (if revents.pollin ∨ revents.pollpri ∨ revents.pollrdhup then [.handleRead] else []) ++
  (if revents.pollout then [.handleWrite] else [])

end TcpConnection

open TcpConnection

/-- The callbacks of the user are members only for whether they are set. -/
structure TcpConnection where
  state : StateE
  reading : Bool
  channel : Channel
  inputBuffer : Buffer
  outputBuffer : Buffer
  highWaterMark : ℕ
  writeCompleteCallback : Bool
  highWaterMarkCallback : Bool

/-- The bytes `::write` has accepted, and those it had accepted when `shutdownWrite`
was first executed. -/
structure Socket where
  written : List UInt8
  shutdownAt : Option (List UInt8)
  deriving DecidableEq, Repr

def Socket.write (s : Socket) (data : List UInt8) : Socket :=
  { s with written := s.written ++ data }

def Socket.shutdownWrite (s : Socket) : Socket :=
  { s with shutdownAt := some (s.shutdownAt.getD s.written) }

/-- A connection with its loop and its socket. `stack` is what the loop thread has still
to do before it returns to the loop, the next call first. -/
structure World where
  conn : TcpConnection
  loop : EventLoop Functor
  socket : Socket
  stack : List Call
  trace : List Event

namespace TcpConnection

def init (self : ℕ) (fd : ℤ) (writeComplete highWater : Bool) : TcpConnection where
  state := .kConnecting
  reading := true
  channel := .init self fd
  inputBuffer := .init Buffer.kInitialSize
  outputBuffer := .init Buffer.kInitialSize
  highWaterMark := 64 * 1024 * 1024
  writeCompleteCallback := writeComplete
  highWaterMarkCallback := highWater

end TcpConnection

namespace World

def setState (w : World) (s : StateE) : World := { w with conn := { w.conn with state := s } }

def emit (w : World) (e : Event) : World := { w with trace := w.trace ++ [e] }

def call (w : World) (calls : List Call) : World := { w with stack := calls ++ w.stack }

def queueInLoop (w : World) (f : Functor) : World :=
  { w with loop := w.loop.queueInLoop f }

def setOutput (w : World) (b : Buffer) : World :=
  { w with conn := { w.conn with outputBuffer := b } }

/-- An operation of `channel_`, which reaches the poller through the loop. -/
def onChannel (w : World)
    (op : Channel → EventLoop Functor → Except EventLoop.Fault (Channel × EventLoop Functor)) :
    Except Fault World := do
  let (channel, loop) ← (op w.conn.channel w.loop).mapError Fault.loop
  return { w with conn := { w.conn with channel := channel }, loop := loop }

/-! ### Writing -/

/-- The direct `::write` of `sendInLoop`: the new world, `nwrote` and `faultError`. -/
def writeDirectly (w : World) (data : List UInt8) : WriteResult → World × ℕ × Bool
  | .wrote n =>
      let w := { w with socket := w.socket.write (data.take n) }
      if data.length - n = 0 ∧ w.conn.writeCompleteCallback then
        (w.queueInLoop .writeCompleteCallback, n, false)
      else
        (w, n, false)
  | .failed errno => (w, 0, errno = .EPIPE ∨ errno = .ECONNRESET)

/-- The second half of `sendInLoop`: what was not written is buffered. -/
def bufferRest (w : World) (rest : List UInt8) : Except Fault World := do
  let oldLen := w.conn.outputBuffer.readableBytes
  let w :=
    if w.conn.highWaterMark ≤ oldLen + rest.length ∧ oldLen < w.conn.highWaterMark ∧
        w.conn.highWaterMarkCallback then
      w.queueInLoop (.highWaterMarkCallback (oldLen + rest.length))
    else w
  let output ← (w.conn.outputBuffer.append rest).mapError Fault.buffer
  let w := w.setOutput output
  if w.conn.channel.isWriting then return w else w.onChannel Channel.enableWriting

def sendInLoop (w : World) (data : List UInt8) (r : WriteResult) : Except Fault World :=
  if w.conn.state = .kDisconnected then
    .ok w
  else do
    let (w, nwrote, faultError) :=
      if ¬ w.conn.channel.isWriting ∧ w.conn.outputBuffer.readableBytes = 0 then
        w.writeDirectly data r
      else (w, 0, false)
    let remaining := data.length - nwrote
    ensure (remaining ≤ data.length) .sendInLoop
    if ¬ faultError ∧ 0 < remaining then w.bufferRest (data.drop nwrote) else return w

def shutdownInLoop (w : World) : World :=
  if w.conn.channel.isWriting then w else { w with socket := w.socket.shutdownWrite }

/-- The branch of `handleWrite` that has emptied `outputBuffer_`. -/
def writeDone (w : World) : Except Fault World := do
  let w ← w.onChannel Channel.disableWriting
  let w := if w.conn.writeCompleteCallback then w.queueInLoop .writeCompleteCallback else w
  return if w.conn.state = .kDisconnecting then w.shutdownInLoop else w

def handleWrite (w : World) (r : WriteResult) : Except Fault World :=
  if w.conn.channel.isWriting then
    match r with
    | .wrote n =>
        if 0 < n then do
          let w := { w with socket := w.socket.write (w.conn.outputBuffer.readable.take n) }
          let output ← (w.conn.outputBuffer.retrieve n).mapError Fault.buffer
          let w := w.setOutput output
          if w.conn.outputBuffer.readableBytes = 0 then w.writeDone else return w
        else
          .ok w
    | .failed _ => .ok w
  else
    .ok w

/-! ### Opening and closing -/

/-- `connectionCallback_(shared_from_this())`: the user sees whether it is connected. -/
def connectionCallback (w : World) : World :=
  (w.emit (.connection (w.conn.state = .kConnected))).call [.user]

def connectEstablished (w : World) : Except Fault World := do
  ensure (w.conn.state = .kConnecting) .connectEstablished
  let w ← (w.setState .kConnected).onChannel Channel.enableReading
  return w.connectionCallback

def handleClose (w : World) : Except Fault World := do
  let w := w.emit .handleClose
  ensure (w.conn.state = .kConnected ∨ w.conn.state = .kDisconnecting) .handleClose
  let w ← (w.setState .kDisconnected).onChannel Channel.disableAll
  return (w.call [.closeCallback]).connectionCallback

def connectDestroyed (w : World) : Except Fault World :=
  if w.conn.state = .kConnected then do
    let w ← (w.setState .kDisconnected).onChannel Channel.disableAll
    return (w.call [.remove]).connectionCallback
  else
    .ok (w.call [.remove])

/-- `channel_->remove()`, the last statement of `connectDestroyed`. -/
def remove (w : World) : Except Fault World := do
  let w ← w.onChannel Channel.remove
  return w.emit (.destroyed w.conn.state (w.loop.poller.hasChannel w.conn.channel))

def forceCloseInLoop (w : World) : Except Fault World :=
  if w.conn.state = .kConnected ∨ w.conn.state = .kDisconnecting then w.handleClose else .ok w

def startReadInLoop (w : World) : Except Fault World :=
  if ¬ w.conn.reading ∨ ¬ w.conn.channel.isReading then do
    let w ← w.onChannel Channel.enableReading
    return { w with conn := { w.conn with reading := true } }
  else .ok w

def stopReadInLoop (w : World) : Except Fault World :=
  if w.conn.reading ∨ w.conn.channel.isReading then do
    let w ← w.onChannel Channel.disableReading
    return { w with conn := { w.conn with reading := false } }
  else .ok w

/-! ### Events and functors -/

/-- `handleError` only logs, so a failed read changes nothing but `savedErrno`. -/
def handleRead (w : World) (r : Except ℕ (List UInt8)) : Except Fault World := do
  let (n, input) ← (w.conn.inputBuffer.readFd r).mapError Fault.buffer
  let w := { w with conn := { w.conn with inputBuffer := input } }
  match n with
  | .error _ => return w
  | .ok n => if 0 < n then return (w.emit (.message n)).call [.user] else w.handleClose

/-- Running a functor that was taken from the queue. The last two leave the connection
as it is and run code of the user. -/
def runFunctor (w : World) (r : WriteResult) : Functor → Except Fault World
  | .sendInLoop message => w.sendInLoop message r
  | .shutdownInLoop => .ok w.shutdownInLoop
  | .forceCloseInLoop => w.forceCloseInLoop
  | .startReadInLoop => w.startReadInLoop
  | .stopReadInLoop => w.stopReadInLoop
  | .connectDestroyed => w.connectDestroyed
  | .writeCompleteCallback => .ok w
  | .highWaterMarkCallback _ => .ok w

/-! ### Calls made in the loop thread -/

def send (w : World) (message : List UInt8) (wr : WriteResult) : Except Fault World :=
  if w.conn.state = .kConnected then w.sendInLoop message wr else .ok w

def shutdown (w : World) : World :=
  if w.conn.state = .kConnected then (w.setState .kDisconnecting).shutdownInLoop else w

def forceClose (w : World) : World :=
  if w.conn.state = .kConnected ∨ w.conn.state = .kDisconnecting then
    (w.setState .kDisconnecting).queueInLoop .forceCloseInLoop
  else w

def startRead (w : World) : Except Fault World := w.startReadInLoop

def stopRead (w : World) : Except Fault World := w.stopReadInLoop

end World

end Muduo.Net
