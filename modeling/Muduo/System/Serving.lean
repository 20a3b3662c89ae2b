import Muduo.Net.TcpServer
import Muduo.System.Lifecycle
import Mathlib.Data.Fintype.Basic

/-! A server at work: its base loop, its I/O loops, all its connections and other threads
that call them. The methods of a connection are those of `World`, run on the connection
and the loop it lives in. -/

namespace Muduo.System.Serving

open Library Net TcpConnection Lifecycle

/-- What a loop may find in its queue. -/
inductive Job where
  | connectEstablished (c : ℕ)
  | removeConnectionInLoop (c : ℕ)
  | onConnection (c : ℕ) (f : Functor)
  deriving DecidableEq, Repr

/-- The functors that `send` and `shutdown` bind to a raw `this`. -/
def isRaw : Functor → Bool
  | .sendInLoop _ => true
  | .shutdownInLoop => true
  | _ => false

/-- The functor owns a reference to the connection. -/
def Job.holds (c : ℕ) : Job → Bool
  | .connectEstablished d => d = c
  | .removeConnectionInLoop d => d = c
  | .onConnection d f => d = c ∧ ¬ isRaw f

/-- The functor uses the connection without owning it. -/
def Job.borrows (c : ℕ) : Job → Bool
  | .onConnection d f => d = c ∧ isRaw f
  | _ => false

/-- As in `Lifecycle.Phase`; an active channel comes with its `revents_`. -/
inductive Phase where
  | poll
  | events (rest : List (ℕ × Revents))
  | batch (rest : List Job)
  deriving DecidableEq, Repr

/-- A loop and its thread. The channel of a connection has the number of the connection
as its address; `0` stands for the channels that belong to no connection. -/
structure LoopThread where
  loop : EventLoop Job
  phase : Phase
  stack : List (ℕ × Call)

/-- The functors of the running batch, and those that wait. -/
def LoopThread.jobs (l : LoopThread) : List Job :=
  match l.phase with
  | .batch rest => rest ++ l.loop.pendingFunctors
  | _ => l.loop.pendingFunctors

/-- A `TcpConnection` that has not been destructed. -/
structure Connection where
  conn : TcpConnection
  socket : Socket
  ioLoop : ℕ
  name : List Char

/-- Where another thread stands in a method of connection `c`. -/
inductive Pc where
  | idle
  | sending (c : ℕ) (message : List UInt8)
  | tested (c : ℕ) (closer : Closer)
  | set (c : ℕ) (closer : Closer)
  deriving DecidableEq, Repr

/-- The connection whose method is being called. -/
def Pc.connection : Pc → Option ℕ
  | .idle => none
  | .sending c _ => some c
  | .tested c _ => some c
  | .set c _ => some c

/-- The steps in the life of a connection, from the construction of the object to the
`close` of its descriptor by the destructor of `Socket`. -/
inductive Life where
  | newConnection
  | connectEstablished
  | handleClose
  | removeConnectionInLoop
  | connectDestroyed
  | channelRemoved
  | fdClosed
  deriving DecidableEq, Repr

/-- The two of them that a method of the connection performs in the middle. -/
def lifeOf : Event → Option Life
  | .handleClose => some .handleClose
  | .destroyed _ _ => some .channelRemoved
  | _ => none

structure State (τ : Type) where
  server : TcpServer
  loops : ℕ → LoopThread
  connection : ℕ → Option Connection
  pc : τ → Pc
  log : List (ℕ × Life)

/-- Failed assertions, and the use of a connection that has been destructed. -/
inductive Fault where
  | connection (fault : TcpConnection.Fault)
  | notInLoopThread
  | removeConnectionInLoop
  | destructor
  | dangling
  deriving DecidableEq, Repr

inductive Label (τ : Type) where
  -- other threads
  | testSend (t : τ) (c : ℕ) (message : List UInt8)
  | queueSend (t : τ)
  | testClose (t : τ) (c : ℕ) (closer : Closer)
  | setDisconnecting (t : τ)
  | queueClose (t : τ)
  -- the handler of the acceptor
  | newConnection (fd : ℤ) (writeComplete highWater : Bool)
  -- code of the user in the thread of a loop
  | send (ℓ c : ℕ) (message : List UInt8) (r : WriteResult)
  | shutdown (ℓ c : ℕ)
  | forceClose (ℓ c : ℕ)
  -- the threads of the loops
  | poll (ℓ : ℕ) (active : List (ℕ × Revents))
  | nextChannel (ℓ : ℕ)
  | doPendingFunctors (ℓ : ℕ)
  | runFunctor (ℓ : ℕ) (r : WriteResult)
  | endBatch (ℓ : ℕ)
  | runCall (ℓ : ℕ) (read : Except ℕ (List UInt8)) (r : WriteResult)
  -- the last reference to a connection is dropped
  | destruct (c : ℕ)

variable {τ : Type}

def start (name : List Char) (ipPort : IpPort) (numThreads : ℕ) : State τ where
  server := .init name ipPort numThreads
  loops := fun _ => ⟨.init, .poll, []⟩
  connection := fun _ => none
  pc := fun _ => .idle
  log := []

namespace State

def setLoop (s : State τ) (ℓ : ℕ) (l : LoopThread) : State τ :=
  { s with loops := Function.update s.loops ℓ l }

def setPc [DecidableEq τ] (s : State τ) (t : τ) (pc : Pc) : State τ :=
  { s with pc := Function.update s.pc t pc }

def note (s : State τ) (c : ℕ) (life : Life) : State τ := { s with log := s.log ++ [(c, life)] }

def queueInLoop (s : State τ) (ℓ : ℕ) (job : Job) : State τ :=
  s.setLoop ℓ { s.loops ℓ with loop := (s.loops ℓ).loop.queueInLoop job }

/-- What a method of the connection sees. The functors it queues and the calls it makes
are collected from nothing. -/
def view (s : State τ) (k : Connection) : World where
  conn := k.conn
  loop :=
    { poller := (s.loops k.ioLoop).loop.poller
      eventHandling := (s.loops k.ioLoop).loop.eventHandling
      activeChannels := (s.loops k.ioLoop).loop.activeChannels
      currentActiveChannel := (s.loops k.ioLoop).loop.currentActiveChannel
      pendingFunctors := [] }
  socket := k.socket
  stack := []
  trace := []

/-- The state after a method of connection `c` has left `w`. -/
def absorb (s : State τ) (c : ℕ) (k : Connection) (w : World) : State τ :=
  { s with
    connection := Function.update s.connection c
      (some { k with conn := w.conn, socket := w.socket })
    loops := Function.update s.loops k.ioLoop
      { s.loops k.ioLoop with
        loop :=
          { poller := w.loop.poller
            eventHandling := w.loop.eventHandling
            activeChannels := w.loop.activeChannels
            currentActiveChannel := w.loop.currentActiveChannel
            pendingFunctors := (s.loops k.ioLoop).loop.pendingFunctors ++
              w.loop.pendingFunctors.map (Job.onConnection c) }
        stack := w.stack.map (Prod.mk c) ++ (s.loops k.ioLoop).stack }
    log := s.log ++ (w.trace.filterMap lifeOf).map (Prod.mk c) }

def find (s : State τ) (c : ℕ) : Except Fault Connection :=
  match s.connection c with
  | some k => .ok k
  | none => .error .dangling

/-- A method of connection `c` that may be called in any thread. -/
def touch (s : State τ) (c : ℕ) (method : World → World) : Except Fault (State τ) := do
  let k ← s.find c
  return s.absorb c k (method (s.view k))

/-- A method of connection `c` that asserts to run in the thread of its loop, called in
the thread of loop `ℓ`. -/
def apply (s : State τ) (ℓ c : ℕ) (method : World → Except TcpConnection.Fault World) :
    Except Fault (State τ) := do
  let k ← s.find c
  ensure (k.ioLoop = ℓ) .notInLoopThread
  let w ← (method (s.view k)).mapError Fault.connection
  return s.absorb c k w

def connectEstablished (s : State τ) (ℓ c : ℕ) : Except Fault (State τ) :=
  (s.note c .connectEstablished).apply ℓ c World.connectEstablished

/-- `TcpServer::newConnection`, in the thread of the base loop. -/
def newConnection (s : State τ) (fd : ℤ) (writeComplete highWater : Bool) :
    Except Fault (State τ) :=
  let ((c, ioLoop, name), server) := s.server.enter
  let k : Connection :=
    { conn := .init c fd writeComplete highWater, socket := ⟨[], none⟩, ioLoop := ioLoop
      name := name }
  let s := { s with
    server := server
    connection := Function.update s.connection c (some k) }.note c .newConnection
  if ioLoop = 0 then
    s.connectEstablished 0 c
  else
    .ok (s.queueInLoop ioLoop (.connectEstablished c))

/-- `TcpServer::removeConnectionInLoop`, in the thread of loop `ℓ`. -/
def removeConnectionInLoop (s : State τ) (ℓ c : ℕ) : Except Fault (State τ) := do
  ensure (ℓ = 0) .notInLoopThread
  let k ← s.find c
  let (n, server) := s.server.erase k.name
  ensure (n = 1) .removeConnectionInLoop
  return ({ s with server := server }.note c .removeConnectionInLoop).queueInLoop k.ioLoop
    (.onConnection c .connectDestroyed)

/-- `TcpServer::removeConnection`, to which the server has bound `closeCallback_`. -/
def removeConnection (s : State τ) (ℓ c : ℕ) : Except Fault (State τ) :=
  if ℓ = 0 then s.removeConnectionInLoop ℓ c else .ok (s.queueInLoop 0 (.removeConnectionInLoop c))

/-- A functor in the thread of loop `ℓ`. -/
def runJob (s : State τ) (ℓ : ℕ) (r : WriteResult) : Job → Except Fault (State τ)
  | .connectEstablished c => s.connectEstablished ℓ c
  | .removeConnectionInLoop c => s.removeConnectionInLoop ℓ c
  | .onConnection c .connectDestroyed =>
      (s.note c .connectDestroyed).apply ℓ c World.connectDestroyed
  | .onConnection c f => s.apply ℓ c fun w => w.runFunctor r f

/-- The next call on the stack of loop `ℓ`; code of the user returns. -/
def runCall (s : State τ) (ℓ c : ℕ) (read : Except ℕ (List UInt8)) (r : WriteResult) :
    Call → Except Fault (State τ)
  | .handleClose => s.apply ℓ c World.handleClose
  | .handleRead => s.apply ℓ c fun w => w.handleRead read
  | .handleWrite => s.apply ℓ c fun w => w.handleWrite r
  | .user => .ok s
  | .closeCallback => s.removeConnection ℓ c
  | .remove => s.apply ℓ c World.remove

/-- `currentActiveChannel_ = channel`, and `handleEvent` of the channel of a connection. -/
def activate (s : State τ) (ℓ channel : ℕ) (revents : Revents) (rest : List (ℕ × Revents)) :
    State τ :=
  let l := s.loops ℓ
  s.setLoop ℓ
    { loop := { l.loop with currentActiveChannel := some channel }
      phase := .events rest
      stack := (if channel = 0 then [] else (handleEvent revents).map (Prod.mk channel)) ++
        l.stack }

/-- The destructors of `TcpConnection`, `Channel` and `Socket`. -/
def destruct (s : State τ) (c : ℕ) : Except Fault (State τ) := do
  let k ← s.find c
  ensure (k.conn.state = .kDisconnected) .destructor
  ensure (k.conn.channel.addedToLoop = false) .destructor
  ensure ((s.loops k.ioLoop).loop.poller.hasChannel k.conn.channel = false) .destructor
  return { s with connection := Function.update s.connection c none }.note c .fdClosed

/-- `state_` of a connection. -/
def stateOf (s : State τ) (c : ℕ) : Option StateE := (s.connection c).map (·.conn.state)

end State

variable [DecidableEq τ]

def exec (s : State τ) : Label τ → Except Fault (State τ)
  | .testSend t c message =>
      .ok <| if s.stateOf c = some .kConnected then s.setPc t (.sending c message) else s
  | .queueSend t =>
      match s.pc t with
      | .sending c message => (s.setPc t .idle).touch c (·.queueInLoop (.sendInLoop message))
      | _ => .ok s
  | .testClose t c closer =>
      .ok <| if ∃ state ∈ s.stateOf c, closer.tests state then s.setPc t (.tested c closer) else s
  | .setDisconnecting t =>
      match s.pc t with
      | .tested c closer => (s.setPc t (.set c closer)).touch c (·.setState .kDisconnecting)
      | _ => .ok s
  | .queueClose t =>
      match s.pc t with
      | .set c closer => (s.setPc t .idle).touch c (·.queueInLoop closer.functor)
      | _ => .ok s
  | .newConnection fd writeComplete highWater => s.newConnection fd writeComplete highWater
  | .send ℓ c message r => s.apply ℓ c fun w => w.send message r
  | .shutdown ℓ c => s.apply ℓ c fun w => .ok w.shutdown
  | .forceClose ℓ c => s.apply ℓ c fun w => .ok w.forceClose
  | .poll ℓ active =>
      .ok <| s.setLoop ℓ
        { s.loops ℓ with
          loop := { (s.loops ℓ).loop with
            eventHandling := true, activeChannels := active.map Prod.fst }
          phase := .events active }
  | .nextChannel ℓ =>
      .ok <| match (s.loops ℓ).phase with
      | .events ((channel, revents) :: rest) => s.activate ℓ channel revents rest
      | _ => s
  | .doPendingFunctors ℓ =>
      .ok <| s.setLoop ℓ
        { s.loops ℓ with
          loop := { (s.loops ℓ).loop with
            eventHandling := false, currentActiveChannel := none, pendingFunctors := [] }
          phase := .batch (s.loops ℓ).loop.pendingFunctors }
  | .runFunctor ℓ r =>
      match (s.loops ℓ).phase with
      | .batch (job :: rest) =>
          (s.setLoop ℓ { s.loops ℓ with phase := .batch rest }).runJob ℓ r job
      | _ => .ok s
  | .endBatch ℓ => .ok (s.setLoop ℓ { s.loops ℓ with phase := .poll })
  | .runCall ℓ read r =>
      match (s.loops ℓ).stack with
      | (c, call) :: rest =>
          (s.setLoop ℓ { s.loops ℓ with stack := rest }).runCall ℓ c read r call
      | [] => .ok s
  | .destruct c => s.destruct c

/-! ### The steps a state offers -/

/-- Code of the user runs in the thread of the loop: in a callback of a connection, in the
handler of a channel that belongs to none, or in a functor. -/
def LoopThread.inUser (l : LoopThread) : Bool :=
  match l.stack, l.phase with
  | (_, .user) :: _, _ => true
  | _ :: _, _ => false
  | [], .poll => false
  | [], .events _ => l.loop.currentActiveChannel = some 0
  | [], .batch _ => true

/-- The base loop is in the handler of a channel that belongs to no connection. -/
def LoopThread.accepting (l : LoopThread) : Bool :=
  match l.stack, l.phase with
  | [], .events _ => l.loop.currentActiveChannel = some 0
  | _, _ => false

/-- The kernel reports the channel in loop `ℓ`: its descriptor is registered there. -/
def Ready (s : State τ) (ℓ c : ℕ) (revents : Revents) : Prop :=
  ∃ k ∈ s.connection c, (s.loops ℓ).loop.poller.channels k.conn.channel.fd = some c ∧
    ∃ events ∈ (s.loops ℓ).loop.poller.interest k.conn.channel.fd, Reported events revents

/-- No entry of `connections_`, no functor, no running call and no other thread owns a
reference to the connection. -/
structure Unowned (s : State τ) (c : ℕ) : Prop where
  erased : ∀ k ∈ s.connection c, s.server.connections k.name ≠ some c
  jobs : ∀ ℓ < s.server.numThreads + 1, ∀ job ∈ (s.loops ℓ).jobs, job.holds c = false
  calls : ∀ ℓ < s.server.numThreads + 1, ∀ call ∈ (s.loops ℓ).stack, call.1 ≠ c
  threads : ∀ t, (s.pc t).connection ≠ some c

/-- How many bytes the functor that is due offers to `::write`. -/
def LoopThread.offered (l : LoopThread) : ℕ :=
  match l.phase with
  | .batch (.onConnection _ f :: _) => f.offered
  | _ => 0

/-- How many bytes the call that is due offers to `::write`. -/
def State.pendingOutput (s : State τ) (ℓ : ℕ) : ℕ :=
  match (s.loops ℓ).stack with
  | (c, .handleWrite) :: _ => (s.connection c).elim 0 (·.conn.outputBuffer.readableBytes)
  | _ => 0

/-- The steps a state offers. A thread calls a connection it has a reference to. The
kernel gives out no descriptor that is open, and fewer than `2 ^ 31` connections are
accepted. -/
def Enabled (s : State τ) : Label τ → Prop
  | .testSend t c _ => s.pc t = .idle ∧ (s.connection c).isSome
  | .testClose t c _ => s.pc t = .idle ∧ (s.connection c).isSome
  | .newConnection fd _ _ => (s.loops 0).accepting = true ∧ s.server.nextConnId < 2 ^ 31 ∧
      ∀ c < s.server.nextConnId, ∀ k ∈ s.connection c, k.conn.channel.fd ≠ fd
  | .send ℓ c message r => (s.loops ℓ).inUser = true ∧ (∃ k ∈ s.connection c, k.ioLoop = ℓ) ∧
      r.Within message.length
  | .shutdown ℓ c => (s.loops ℓ).inUser = true ∧ ∃ k ∈ s.connection c, k.ioLoop = ℓ
  | .forceClose ℓ c => (s.loops ℓ).inUser = true ∧ ∃ k ∈ s.connection c, k.ioLoop = ℓ
  | .poll ℓ active => (s.loops ℓ).phase = .poll ∧ (s.loops ℓ).stack = [] ∧
      ((active.map Prod.fst).filter (· ≠ 0)).Nodup ∧
      ∀ x ∈ active, x.1 ≠ 0 → Ready s ℓ x.1 x.2
  | .nextChannel ℓ => (s.loops ℓ).stack = []
  | .doPendingFunctors ℓ => (s.loops ℓ).stack = [] ∧ (s.loops ℓ).phase = .events []
  | .runFunctor ℓ r => (s.loops ℓ).stack = [] ∧ r.Within (s.loops ℓ).offered
  | .endBatch ℓ => (s.loops ℓ).stack = [] ∧ (s.loops ℓ).phase = .batch []
  | .runCall ℓ _ r => r.Within (s.pendingOutput ℓ)
  | .destruct c => (s.connection c).isSome ∧ Unowned s c
  | _ => True

instance (s : State τ) (ℓ c : ℕ) (revents : Revents) : Decidable (Ready s ℓ c revents) :=
  inferInstanceAs (Decidable (∃ k ∈ s.connection c, _ ∧ ∃ events ∈ _, Reported events _))

instance [Fintype τ] (s : State τ) (c : ℕ) : Decidable (Unowned s c) :=
  decidable_of_iff ((∀ k ∈ s.connection c, s.server.connections k.name ≠ some c) ∧
      (∀ ℓ < s.server.numThreads + 1, ∀ job ∈ (s.loops ℓ).jobs, job.holds c = false) ∧
      (∀ ℓ < s.server.numThreads + 1, ∀ call ∈ (s.loops ℓ).stack, call.1 ≠ c) ∧
      ∀ t, (s.pc t).connection ≠ some c)
    ⟨fun ⟨erased, jobs, calls, threads⟩ => ⟨erased, jobs, calls, threads⟩,
      fun h => ⟨h.erased, h.jobs, h.calls, h.threads⟩⟩

instance [Fintype τ] (s : State τ) : ∀ l : Label τ, Decidable (Enabled s l)
  | .testSend _ _ _ => inferInstanceAs (Decidable (_ ∧ _))
  | .queueSend _ => .isTrue trivial
  | .testClose _ _ _ => inferInstanceAs (Decidable (_ ∧ _))
  | .setDisconnecting _ => .isTrue trivial
  | .queueClose _ => .isTrue trivial
  | .newConnection fd _ _ => inferInstanceAs (Decidable (_ ∧ _ ∧ ∀ c < s.server.nextConnId,
      ∀ k ∈ s.connection c, k.conn.channel.fd ≠ fd))
  | .send ℓ c _ _ => inferInstanceAs (Decidable (_ ∧ (∃ k ∈ s.connection c, k.ioLoop = ℓ) ∧ _))
  | .shutdown ℓ c => inferInstanceAs (Decidable (_ ∧ ∃ k ∈ s.connection c, k.ioLoop = ℓ))
  | .forceClose ℓ c => inferInstanceAs (Decidable (_ ∧ ∃ k ∈ s.connection c, k.ioLoop = ℓ))
  | .poll ℓ active => inferInstanceAs (Decidable (_ ∧ _ ∧ _ ∧
      ∀ x ∈ active, x.1 ≠ 0 → Ready s ℓ x.1 x.2))
  | .nextChannel _ => inferInstanceAs (Decidable (_ = _))
  | .doPendingFunctors _ => inferInstanceAs (Decidable (_ ∧ _))
  | .runFunctor _ _ => inferInstanceAs (Decidable (_ ∧ _))
  | .endBatch _ => inferInstanceAs (Decidable (_ ∧ _))
  | .runCall ℓ _ r => inferInstanceAs (Decidable (r.Within (s.pendingOutput ℓ)))
  | .destruct c => inferInstanceAs (Decidable (_ ∧ Unowned s c))

end Muduo.System.Serving
