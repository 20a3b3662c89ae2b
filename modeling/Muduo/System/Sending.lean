import Muduo.Net.TcpConnection
import Mathlib.Logic.Function.Basic

/-! Threads that call `send` and `shutdown` on a connection of another thread's loop.
A call reads `state_` and then queues a functor; the loop alternates between
writability events and batches of functors. -/

namespace Muduo.System.Sending

open Library Net TcpConnection

/-- Where a thread stands: outside both calls, in `send` after its test of `state_`,
or in `shutdown` after the test or after `setState`. -/
inductive Pc where
  | idle
  | sending (message : List UInt8)
  | shutdownTested
  | shutdownSet
  deriving DecidableEq, Repr

/-- `batch` is the vector `functors` of a running `doPendingFunctors`. The other fields
record history: the messages that passed the test in `send`, those whose functors ran before
the half-close and those whose functors ran after it, those whose functors are queued, the
threads that have called `shutdown`, and among these the ones whose call passed its test, so
that it queues a request of its own. -/
structure State (τ : Type) where
  world : World
  pc : τ → Pc
  batch : Option (List Functor)
  accepted : List (τ × List UInt8)
  done : List (τ × List UInt8)
  late : List (τ × List UInt8)
  waiting : List (τ × List UInt8)
  closing : τ → Bool
  requested : τ → Bool

inductive Label (τ : Type) where
  | send (t : τ) (message : List UInt8)
  | queueSend (t : τ)
  | shutdown (t : τ)
  | setDisconnecting (t : τ)
  | queueShutdown (t : τ)
  | handleWrite (r : WriteResult)
  | takeBatch
  | runFunctor (r : WriteResult)
  | endBatch
  deriving DecidableEq, Repr

variable {τ : Type}

/-- An established connection, idle threads and an empty queue. -/
def start (w : World) : State τ where
  world := w
  pc := fun _ => .idle
  batch := none
  accepted := []
  done := []
  late := []
  waiting := []
  closing := fun _ => false
  requested := fun _ => false

/-- How many queued messages leave the queue when a functor runs. -/
def taken : Functor → ℕ
  | .sendInLoop _ => 1
  | _ => 0

/-- The state after the first functor of the batch has run. -/
def State.afterFunctor (s : State τ) (w : World) (f : Functor) (fs : List Functor) :
    State τ :=
  { s with
    world := w
    batch := some fs
    done := if s.world.socket.shutdownAt = none then s.done ++ s.waiting.take (taken f) else s.done
    late := if s.world.socket.shutdownAt = none then s.late else s.late ++ s.waiting.take (taken f)
    waiting := s.waiting.drop (taken f) }

variable [DecidableEq τ]

def exec (s : State τ) : Label τ → Except Fault (State τ)
  | .send t message =>
      .ok <| if s.world.conn.state = .kConnected then
        { s with
          pc := Function.update s.pc t (.sending message)
          accepted := s.accepted ++ [(t, message)] }
      else s
  | .queueSend t =>
      match s.pc t with
      | .sending message =>
          .ok { s with
            world := s.world.queueInLoop (.sendInLoop message)
            pc := Function.update s.pc t .idle
            waiting := s.waiting ++ [(t, message)] }
      | _ => .ok s
  | .shutdown t =>
      .ok <| if s.world.conn.state = .kConnected then
        { s with
          pc := Function.update s.pc t .shutdownTested
          closing := Function.update s.closing t true
          requested := Function.update s.requested t true }
      else { s with closing := Function.update s.closing t true }
  | .setDisconnecting t =>
      .ok { s with
        world := s.world.setState .kDisconnecting
        pc := Function.update s.pc t .shutdownSet }
  | .queueShutdown t =>
      .ok { s with
        world := s.world.queueInLoop .shutdownInLoop
        pc := Function.update s.pc t .idle }
  | .handleWrite r => do
      let w ← s.world.handleWrite r
      return { s with world := w }
  | .takeBatch =>
      .ok { s with
        batch := some s.world.loop.pendingFunctors
        world := { s.world with loop := { s.world.loop with pendingFunctors := [] } } }
  | .runFunctor r =>
      match s.batch with
      | some (f :: fs) => do
          let w ← s.world.runFunctor r f
          return s.afterFunctor w f fs
      | _ => .ok s
  | .endBatch => .ok { s with batch := none }

/-- The steps a state offers. Threads follow their own code, events are handled
between two batches, and `::write` reports no broken socket. -/
def Enabled (s : State τ) : Label τ → Prop
  | .send t _ => s.pc t = .idle
  | .queueSend t => ∃ message, s.pc t = .sending message
  | .shutdown t => s.pc t = .idle
  | .setDisconnecting t => s.pc t = .shutdownTested
  | .queueShutdown t => s.pc t = .shutdownSet
  | .handleWrite r =>
      s.batch = none ∧ r.Within s.world.conn.outputBuffer.readableBytes ∧ r.Sound
  | .takeBatch => s.batch = none
  | .runFunctor r => ∃ f fs, s.batch = some (f :: fs) ∧ r.Within f.offered ∧ r.Sound
  | .endBatch => s.batch = some []

instance (s : State τ) : ∀ l : Label τ, Decidable (Enabled s l)
  | .send _ _ => inferInstanceAs (Decidable (_ = _))
  | .queueSend t =>
      match h : s.pc t with
      | .sending m => .isTrue ⟨m, h⟩
      | .idle => .isFalse (by simp [Enabled, h])
      | .shutdownTested => .isFalse (by simp [Enabled, h])
      | .shutdownSet => .isFalse (by simp [Enabled, h])
  | .shutdown _ => inferInstanceAs (Decidable (_ = _))
  | .setDisconnecting _ => inferInstanceAs (Decidable (_ = _))
  | .queueShutdown _ => inferInstanceAs (Decidable (_ = _))
  | .handleWrite _ => inferInstanceAs (Decidable (_ ∧ _))
  | .takeBatch => inferInstanceAs (Decidable (_ = _))
  | .runFunctor r =>
      match h : s.batch with
      | some (f :: _) =>
          decidable_of_iff (r.Within f.offered ∧ r.Sound) (by simp [Enabled, h])
      | some [] => .isFalse (by simp [Enabled, h])
      | none => .isFalse (by simp [Enabled, h])
  | .endBatch => inferInstanceAs (Decidable (_ = _))

/-- The bytes of a list of messages. -/
def bytes (ps : List (τ × List UInt8)) : List UInt8 := ps.flatMap Prod.snd

/-- The messages of one thread. -/
def ofThread (t : τ) (ps : List (τ × List UInt8)) : List (τ × List UInt8) :=
  ps.filter fun p => p.1 = t

/-- When `shutdownWrite` was executed, the socket had taken the first messages of the
queue, and among them every byte accepted from each thread that has called `shutdown`. -/
def Graceful (s : State τ) : Prop :=
  ∀ t, s.closing t = true → ∀ written, s.world.socket.shutdownAt = some written →
    ∃ sent, sent <+: s.done ++ (s.late ++ s.waiting) ∧ written = bytes sent ∧
      bytes (ofThread t sent) = bytes (ofThread t s.accepted)

/-- Three things that must not happen. A writability event drains the buffer of a connection
being shut down while a message of a thread that has called `shutdown` is still queued. A
`shutdownInLoop` is executed while such a message is queued of a thread whose own call came too
late to queue a request. A thread calls `shutdown` after the half-close has left out one of its
messages. -/
def InOrder (s : State τ) : Label τ → Prop
  | .handleWrite r =>
      s.world.socket.shutdownAt = none → s.world.conn.state = .kDisconnecting →
      s.world.conn.channel.isWriting = true →
      r = .wrote s.world.conn.outputBuffer.readableBytes →
      ∀ p ∈ s.waiting, s.closing p.1 = true → p.2 = []
  | .runFunctor _ =>
      s.world.socket.shutdownAt = none → s.world.conn.channel.isWriting = false →
      (s.batch.getD []).head? = some .shutdownInLoop →
      ∀ p ∈ s.waiting, s.closing p.1 = true → s.requested p.1 = false → p.2 = []
  | .shutdown t =>
      s.world.socket.shutdownAt ≠ none → ∀ p ∈ s.late ++ s.waiting, p.1 = t → p.2 = []
  | _ => True

instance (s : State τ) : ∀ l : Label τ, Decidable (InOrder s l)
  | .handleWrite _ => inferInstanceAs (Decidable (_ → _ → _ → _ → _))
  | .runFunctor _ => inferInstanceAs (Decidable (_ → _ → _ → _))
  | .shutdown _ => inferInstanceAs (Decidable (_ → _))
  | .send _ _ => .isTrue trivial
  | .queueSend _ => .isTrue trivial
  | .setDisconnecting _ => .isTrue trivial
  | .queueShutdown _ => .isTrue trivial
  | .takeBatch => .isTrue trivial
  | .endBatch => .isTrue trivial

end Muduo.System.Sending
