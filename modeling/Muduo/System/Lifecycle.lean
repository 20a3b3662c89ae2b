import Muduo.Net.TcpConnection
import Mathlib.Logic.Function.Basic

/-! The life of a server connection, from `connectEstablished` to `connectDestroyed`:
its event loop, the code of the user on that loop, other threads that call its methods,
and the server that owns it. The loop thread may be left between any two calls on its
stack; the methods of other threads read and write `state_` in separate steps. -/

namespace Muduo.System.Lifecycle

open Library Net TcpConnection

/-- The two methods that set `kDisconnecting`. -/
inductive Closer where
  | shutdown
  | forceClose
  deriving DecidableEq, Repr

/-- The states in which the method goes on. -/
def Closer.tests : Closer → StateE → Prop
  | .shutdown, state => state = .kConnected
  | .forceClose, state => state = .kConnected ∨ state = .kDisconnecting

instance : ∀ (c : Closer) (state : StateE), Decidable (c.tests state)
  | .shutdown, _ => inferInstanceAs (Decidable (_ = _))
  | .forceClose, _ => inferInstanceAs (Decidable (_ ∨ _))

def Closer.functor : Closer → Functor
  | .shutdown => .shutdownInLoop
  | .forceClose => .forceCloseInLoop

/-- Where another thread stands: outside the methods, in `send` after its test, or in
`shutdown` or `forceClose` after the test or after `setState`. -/
inductive Pc where
  | idle
  | sending (message : List UInt8)
  | tested (closer : Closer)
  | set (closer : Closer)
  deriving DecidableEq, Repr

/-- The loop waits in `poll`, goes through `activeChannels_`, or runs a batch of
functors; the lists are what is left to do. -/
inductive Phase where
  | poll
  | events (rest : List ℕ)
  | batch (rest : List Functor)
  deriving DecidableEq, Repr

/-- The server: whether it lives in the loop of the connection, whether it has been
destructed, whether `connections_` holds the connection, and how often
`removeConnectionInLoop` is queued in its loop. -/
structure Server where
  sameLoop : Bool
  alive : Bool
  holds : Bool
  removals : ℕ
  deriving DecidableEq, Repr

structure State (τ : Type) where
  world : World
  pc : τ → Pc
  phase : Phase
  revents : Revents
  server : Server
  destroyed : Bool

inductive Label (τ : Type) where
  -- other threads
  | testSend (t : τ) (message : List UInt8)
  | queueSend (t : τ)
  | testClose (t : τ) (closer : Closer)
  | setDisconnecting (t : τ)
  | queueClose (t : τ)
  | queueStartRead
  | queueStopRead
  -- the server
  | removeConnectionInLoop
  | destroyServer
  -- code of the user in the loop thread
  | send (message : List UInt8) (r : WriteResult)
  | shutdown
  | forceClose
  | startRead
  | stopRead
  -- the loop thread
  | poll (active : List ℕ) (revents : Revents)
  | nextChannel
  | doPendingFunctors
  | runFunctor (r : WriteResult)
  | endBatch
  | runCall (read : Except ℕ (List UInt8)) (r : WriteResult)

variable {τ : Type}

namespace State

def setWorld (s : State τ) (w : World) : State τ := { s with world := w }

def queueInLoop (s : State τ) (f : Functor) : State τ :=
  s.setWorld (s.world.queueInLoop f)

/-- `removeConnectionInLoop`, with its assertion on what `erase` returns. -/
def removeConnectionInLoop (s : State τ) : Except Fault (State τ) := do
  ensure (s.server.holds = true) .server
  return { s with server := { s.server with holds := false } }.queueInLoop .connectDestroyed

/-- `removeConnection`, to which the server has bound `closeCallback_`. -/
def removeConnection (s : State τ) : Except Fault (State τ) := do
  ensure (s.server.alive = true) .server
  if s.server.sameLoop then
    s.removeConnectionInLoop
  else
    return { s with server := { s.server with removals := s.server.removals + 1 } }

/-- The destructor of the server, for a connection it holds or has removed. -/
def destroyServer (s : State τ) : Except Fault (State τ) :=
  let s' := { s with server := { s.server with alive := false, holds := false } }
  if s.server.holds then
    if s.server.sameLoop then do
      let w ← s.world.connectDestroyed
      return s'.setWorld w
    else
      .ok (s'.queueInLoop .connectDestroyed)
  else
    .ok s'

/-- `currentActiveChannel_ = channel`, and `handleEvent` when it is this channel. -/
def activate (s : State τ) (channel : ℕ) (rest : List ℕ) : State τ :=
  let w := { s.world with loop := { s.world.loop with currentActiveChannel := some channel } }
  { s with
    phase := .events rest
    world := if channel = w.conn.channel.self then w.call (handleEvent s.revents) else w }

/-- The next call on the stack of the loop thread; code of the user returns. -/
def runCall (s : State τ) (read : Except ℕ (List UInt8)) (r : WriteResult) :
    Call → Except Fault (State τ)
  | .handleClose => s.world.handleClose.map s.setWorld
  | .handleRead => (s.world.handleRead read).map s.setWorld
  | .handleWrite => (s.world.handleWrite r).map s.setWorld
  | .user => .ok s
  | .closeCallback => (s.setWorld (s.world.emit .closeCallback)).removeConnection
  | .remove => s.world.remove.map fun w => { s with world := w, destroyed := true }

def pop (s : State τ) : State τ := s.setWorld { s.world with stack := s.world.stack.tail }

end State

variable [DecidableEq τ]

def exec (s : State τ) : Label τ → Except Fault (State τ)
  | .testSend t message =>
      .ok <| if s.world.conn.state = .kConnected then
        { s with pc := Function.update s.pc t (.sending message) }
      else s
  | .queueSend t =>
      .ok <| match s.pc t with
      | .sending message =>
          { s with pc := Function.update s.pc t .idle }.queueInLoop (.sendInLoop message)
      | _ => s
  | .testClose t closer =>
      .ok <| if closer.tests s.world.conn.state then
        { s with pc := Function.update s.pc t (.tested closer) }
      else s
  | .setDisconnecting t =>
      .ok <| match s.pc t with
      | .tested closer =>
          { s with pc := Function.update s.pc t (.set closer) }.setWorld
            (s.world.setState .kDisconnecting)
      | _ => s
  | .queueClose t =>
      .ok <| match s.pc t with
      | .set closer =>
          { s with pc := Function.update s.pc t .idle }.queueInLoop closer.functor
      | _ => s
  | .queueStartRead => .ok (s.queueInLoop .startReadInLoop)
  | .queueStopRead => .ok (s.queueInLoop .stopReadInLoop)
  | .removeConnectionInLoop => do
      -- The functor holds a plain pointer to the server, which may be gone.
      ensure (s.server.alive = true) .server
      { s with
        server := { s.server with removals := s.server.removals - 1 } }.removeConnectionInLoop
  | .destroyServer => s.destroyServer
  | .send message r => (s.world.send message r).map s.setWorld
  | .shutdown => .ok (s.setWorld s.world.shutdown)
  | .forceClose => .ok (s.setWorld s.world.forceClose)
  | .startRead => s.world.startRead.map s.setWorld
  | .stopRead => s.world.stopRead.map s.setWorld
  | .poll active revents =>
      .ok { s with
        phase := .events active
        revents := revents
        world := { s.world with
          loop := { s.world.loop with eventHandling := true, activeChannels := active } } }
  | .nextChannel =>
      .ok <| match s.phase with
      | .events (channel :: rest) => s.activate channel rest
      | _ => s
  | .doPendingFunctors =>
      .ok { s with
        phase := .batch s.world.loop.pendingFunctors
        world := { s.world with
          loop := { s.world.loop with
            eventHandling := false, currentActiveChannel := none, pendingFunctors := [] } } }
  | .runFunctor r =>
      match s.phase with
      | .batch (f :: rest) =>
          (s.world.runFunctor r f).map fun w => { s with world := w, phase := .batch rest }
      | _ => .ok s
  | .endBatch => .ok { s with phase := .poll }
  | .runCall read r =>
      match s.world.stack with
      | call :: _ => s.pop.runCall read r call
      | [] => .ok s

/-- What the kernel may report for a descriptor registered with the mask `events`:
requested events, `POLLHUP` and `POLLERR`, and `POLLIN` with every `POLLHUP` if asked. -/
def Reported (events : Events) (revents : Revents) : Prop :=
  (revents.pollin = true → events.read = true) ∧ (revents.pollpri = true → events.read = true) ∧
  (revents.pollout = true → events.write = true) ∧
  revents.pollnval = false ∧ revents.pollrdhup = false ∧
  (revents.pollhup = true → events.read = true → revents.pollin = true)

instance (events : Events) (revents : Revents) : Decidable (Reported events revents) :=
  inferInstanceAs (Decidable (_ ∧ _))

/-- Code of the user runs in the loop thread: in a callback of the connection, in the
handler of another channel, or in a functor. -/
def State.inUser (s : State τ) : Bool :=
  match s.world.stack, s.phase with
  | .user :: _, _ => true
  | _ :: _, _ => false
  | [], .poll => false
  | [], .events _ => s.world.loop.currentActiveChannel.any (· ≠ s.world.conn.channel.self)
  | [], .batch _ => true

/-- The functor that is due. -/
def State.nextFunctor (s : State τ) : Option Functor :=
  match s.phase with
  | .batch (f :: _) => some f
  | _ => none

/-- The steps a state offers. A step of a thread or of the loop that is not due leaves
the state as it is. -/
def Offers (s : State τ) : Label τ → Prop
  | .testSend t _ => s.pc t = .idle
  | .testClose t _ => s.pc t = .idle
  | .removeConnectionInLoop => 0 < s.server.removals
  | .destroyServer => s.server.alive = true ∧ (s.server.sameLoop = true → s.inUser = true)
  | .send message r => s.inUser = true ∧ r.Within message.length
  | .shutdown => s.inUser = true
  | .forceClose => s.inUser = true
  | .startRead => s.inUser = true
  | .stopRead => s.inUser = true
  | .poll active revents =>
      s.phase = .poll ∧ s.world.stack = [] ∧ active.Nodup ∧
        (s.world.conn.channel.self ∈ active →
          ∃ events ∈ s.world.loop.poller.interest s.world.conn.channel.fd,
            Reported events revents)
  | .nextChannel => s.world.stack = []
  | .doPendingFunctors => s.world.stack = [] ∧ s.phase = .events []
  | .runFunctor r => s.world.stack = [] ∧
      ∀ f ∈ s.nextFunctor, r.Within f.offered
  | .endBatch => s.world.stack = [] ∧ s.phase = .batch []
  | .runCall _ r => s.world.stack.head? = some .handleWrite →
      r.Within s.world.conn.outputBuffer.readableBytes
  | _ => True

/-- Steps are taken until `connectDestroyed` has been executed. -/
def Enabled (s : State τ) (l : Label τ) : Prop := s.destroyed = false ∧ Offers s l

instance (s : State τ) : ∀ l : Label τ, Decidable (Offers s l)
  | .testSend _ _ => inferInstanceAs (Decidable (_ = _))
  | .testClose _ _ => inferInstanceAs (Decidable (_ = _))
  | .removeConnectionInLoop => inferInstanceAs (Decidable (_ < _))
  | .destroyServer => inferInstanceAs (Decidable (_ ∧ _))
  | .send _ _ => inferInstanceAs (Decidable (_ ∧ _))
  | .shutdown => inferInstanceAs (Decidable (_ = _))
  | .forceClose => inferInstanceAs (Decidable (_ = _))
  | .startRead => inferInstanceAs (Decidable (_ = _))
  | .stopRead => inferInstanceAs (Decidable (_ = _))
  | .poll _ _ => inferInstanceAs (Decidable (_ ∧ _ ∧ _ ∧ (_ → ∃ events ∈ _, Reported events _)))
  | .nextChannel => inferInstanceAs (Decidable (_ = _))
  | .doPendingFunctors => inferInstanceAs (Decidable (_ ∧ _))
  | .runFunctor r => inferInstanceAs (Decidable (_ ∧ ∀ f ∈ _, r.Within (Functor.offered f)))
  | .endBatch => inferInstanceAs (Decidable (_ ∧ _))
  | .runCall _ _ => inferInstanceAs (Decidable (_ → _))
  | .queueSend _ => .isTrue trivial
  | .setDisconnecting _ => .isTrue trivial
  | .queueClose _ => .isTrue trivial
  | .queueStartRead => .isTrue trivial
  | .queueStopRead => .isTrue trivial

instance (s : State τ) (l : Label τ) : Decidable (Enabled s l) :=
  inferInstanceAs (Decidable (_ ∧ _))

end Muduo.System.Lifecycle
