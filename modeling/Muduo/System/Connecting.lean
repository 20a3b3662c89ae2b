import Muduo.Net.Connector
import Muduo.System.Lifecycle

/-! A connector at work: its loop, the code of the user on that loop, other threads that
call `start` and `stop`, and the kernel, which chooses descriptors, the results of
`connect` and `SO_ERROR`, and the events. A retry may begin at any time. -/

namespace Muduo.System.Connecting

open Library Net Connector

/-- Where another thread stands: outside `start` and `stop`, or in one of them after the
assignment to `connect_`. -/
inductive Pc where
  | idle
  | starting
  | stopping
  deriving DecidableEq, Repr

/-- As in `Lifecycle.Phase`; an active channel comes with its `revents_`. -/
inductive Phase where
  | poll
  | events (rest : List (ℕ × Revents))
  | batch (rest : List Functor)
  deriving DecidableEq, Repr

structure State (τ : Type) where
  world : Connector.World
  pc : τ → Pc
  phase : Phase

/-- What the system calls of one step return. -/
structure Replies where
  sockfd : ℤ
  savedErrno : Errno
  err : ℕ
  isSelfConnect : Bool
  deriving DecidableEq, Repr

inductive Label (τ : Type) where
  -- other threads
  | setStart (t : τ)
  | queueStart (t : τ)
  | setStop (t : τ)
  | queueStop (t : τ)
  -- code of the user in the loop thread
  | start
  | stop
  | restart
  -- the owner of a socket that was handed over, in any thread
  | closeHanded (sockfd : ℤ)
  -- the loop thread
  | fireTimer (i : ℕ)
  | poll (active : List (ℕ × Revents))
  | nextChannel
  | doPendingFunctors
  | runFunctor
  | endBatch
  | runCall (r : Replies)

variable {τ : Type}

def start : State τ where
  world := .init
  pc := fun _ => .idle
  phase := .poll

namespace State

def setWorld (s : State τ) (w : Connector.World) : State τ := { s with world := w }

/-- The functors of the running batch, and those that wait. -/
def functors (s : State τ) : List Functor :=
  match s.phase with
  | .batch rest => rest ++ s.world.loop.pendingFunctors
  | _ => s.world.loop.pendingFunctors

def pop (s : State τ) : State τ := s.setWorld { s.world with stack := s.world.stack.tail }

/-- `currentActiveChannel_ = channel`, and `handleEvent` when it is `channel_`. -/
def activate (s : State τ) (channel : ℕ) (revents : Revents) (rest : List (ℕ × Revents)) :
    Except Fault (State τ) :=
  let w := { s.world with loop := { s.world.loop with currentActiveChannel := some channel } }
  if channel = 0 then .ok { s with phase := .events rest, world := w }
  else do
    ensure (w.self.channel.map Channel.self = some channel) .dangling
    return { s with phase := .events rest, world := w.call (handleEvent revents) }

/-- The next call on the stack of the loop thread; code of the user returns. -/
def runCall (s : State τ) (r : Replies) : Call → Except Fault (State τ)
  | .startInLoop => s.world.startInLoop.map s.setWorld
  | .connect => (s.world.connect r.sockfd r.savedErrno).map s.setWorld
  | .queueStop => .ok (s.setWorld (s.world.queueInLoop .stopInLoop))
  | .handleError => s.world.handleError.map s.setWorld
  | .handleWrite => (s.world.handleWrite r.err r.isSelfConnect).map s.setWorld
  | .user => .ok s

/-- Code of the user runs in the loop thread: in `newConnectionCallback_`, in the handler of
another channel, in a functor, or outside `loop()`. -/
def inUser (s : State τ) : Bool :=
  match s.world.stack, s.phase with
  | .user :: _, _ => true
  | _ :: _, _ => false
  | [], .events _ => s.world.loop.currentActiveChannel = some 0
  | [], _ => true

/-- The kernel may report `revents` for the channel at the address `channel`. -/
def Watched (s : State τ) (channel : ℕ) (revents : Revents) : Prop :=
  ∃ c ∈ s.world.self.channel, c.self = channel ∧
    ∃ events ∈ s.world.loop.poller.interest c.fd, Lifecycle.Reported events revents

instance (s : State τ) (channel : ℕ) (revents : Revents) : Decidable (s.Watched channel revents) :=
  inferInstanceAs (Decidable (∃ c ∈ _, _ ∧ ∃ events ∈ _, Lifecycle.Reported events revents))

def isHandling (s : State τ) : Bool :=
  match s.phase with
  | .events _ => true
  | _ => false

end State

variable [DecidableEq τ]

def State.setPc (s : State τ) (t : τ) (pc : Pc) : State τ :=
  { s with pc := Function.update s.pc t pc }

def exec (s : State τ) : Label τ → Except Fault (State τ)
  | .setStart t => .ok ((s.setPc t .starting).setWorld (s.world.setConnect true))
  | .queueStart t => .ok ((s.setPc t .idle).setWorld (s.world.queueInLoop .startInLoop))
  | .setStop t => .ok ((s.setPc t .stopping).setWorld (s.world.setConnect false))
  | .queueStop t => .ok ((s.setPc t .idle).setWorld (s.world.queueInLoop .stopInLoop))
  | .start => .ok (s.setWorld s.world.start)
  | .stop => .ok (s.setWorld s.world.stop)
  | .restart => .ok (s.setWorld s.world.restart)
  | .closeHanded sockfd =>
      .ok (s.setWorld { s.world with sockets := s.world.sockets.drop sockfd })
  | .fireTimer i =>
      .ok (s.setWorld ({ s.world with timers := s.world.timers.eraseIdx i }.call [.startInLoop]))
  | .poll active =>
      .ok { s with
        phase := .events active
        world := { s.world with
          loop := { s.world.loop with
            eventHandling := true, activeChannels := active.map Prod.fst } } }
  | .nextChannel =>
      match s.phase with
      | .events ((channel, revents) :: rest) => s.activate channel revents rest
      | _ => .ok s
  | .doPendingFunctors =>
      .ok { s with
        phase := .batch s.world.loop.pendingFunctors
        world := { s.world with
          loop := { s.world.loop with
            eventHandling := false, currentActiveChannel := none, pendingFunctors := [] } } }
  | .runFunctor =>
      match s.phase with
      | .batch (f :: rest) =>
          (s.world.runFunctor f).map fun w => { s with world := w, phase := .batch rest }
      | _ => .ok s
  | .endBatch => .ok { s with phase := .poll }
  | .runCall r =>
      match s.world.stack with
      | call :: _ => s.pop.runCall r call
      | [] => .ok s

/-- The steps a state offers. The kernel gives a descriptor that is free, and reports an
active channel once. -/
def Enabled (s : State τ) : Label τ → Prop
  | .setStart t => s.pc t = .idle
  | .queueStart t => s.pc t = .starting
  | .setStop t => s.pc t = .idle
  | .queueStop t => s.pc t = .stopping
  | .start => s.inUser = true
  | .stop => s.inUser = true
  | .restart => s.inUser = true
  | .closeHanded sockfd => ∃ i ∈ s.world.sockets.names sockfd, i ∈ s.world.sockets.handed
  | .fireTimer i => s.world.stack = [] ∧ s.isHandling = true ∧
      s.world.loop.currentActiveChannel = some 0 ∧ i < s.world.timers.length
  | .poll active => s.world.stack = [] ∧ s.phase = .poll ∧
      ((active.map Prod.fst).filter (· ≠ 0)).Nodup ∧
      ∀ a ∈ active, a.1 ≠ 0 → s.Watched a.1 a.2
  | .nextChannel => s.world.stack = [] ∧ s.isHandling = true
  | .doPendingFunctors => s.world.stack = [] ∧ s.phase = .events []
  | .runFunctor => s.world.stack = []
  | .endBatch => s.world.stack = [] ∧ s.phase = .batch []
  | .runCall r => s.world.stack.head? = some .connect →
      0 ≤ r.sockfd ∧ s.world.sockets.names r.sockfd = none

instance (s : State τ) : ∀ l : Label τ, Decidable (Enabled s l)
  | .setStart _ => inferInstanceAs (Decidable (_ = _))
  | .queueStart _ => inferInstanceAs (Decidable (_ = _))
  | .setStop _ => inferInstanceAs (Decidable (_ = _))
  | .queueStop _ => inferInstanceAs (Decidable (_ = _))
  | .start => inferInstanceAs (Decidable (_ = _))
  | .stop => inferInstanceAs (Decidable (_ = _))
  | .restart => inferInstanceAs (Decidable (_ = _))
  | .closeHanded _ => inferInstanceAs (Decidable (∃ i ∈ _, i ∈ _))
  | .fireTimer _ => inferInstanceAs (Decidable (_ ∧ _ ∧ _ ∧ _))
  | .poll active => inferInstanceAs (Decidable (_ ∧ _ ∧ _ ∧ ∀ a ∈ active, a.1 ≠ 0 → _))
  | .nextChannel => inferInstanceAs (Decidable (_ ∧ _))
  | .doPendingFunctors => inferInstanceAs (Decidable (_ ∧ _))
  | .runFunctor => inferInstanceAs (Decidable (_ = _))
  | .endBatch => inferInstanceAs (Decidable (_ ∧ _))
  | .runCall _ => inferInstanceAs (Decidable (_ → _ ∧ _))

end Muduo.System.Connecting
