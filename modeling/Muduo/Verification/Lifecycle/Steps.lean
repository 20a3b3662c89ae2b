import Muduo.System.Lifecycle
import Muduo.Verification.Connection.Closing

/-! What the steps of the lifecycle system do to an established connection. -/

namespace Muduo.System.Lifecycle

open Library Net TcpConnection

variable {τ : Type}

/-- The moment after `connectEstablished`, in a functor or in the handler of the
acceptor: nothing is known about the connection yet except to its server. -/
structure Started (s : State τ) : Prop where
  established : ∃ w : World, w.Fresh ∧ w.conn.reading = true ∧ w.loop.pendingFunctors = [] ∧
    w.stack = [] ∧ w.trace = [] ∧ w.connectEstablished = .ok s.world
  pc : ∀ t, s.pc t = .idle
  phase : s.phase = .batch [] ∧ s.world.loop.eventHandling = false ∨
    ∃ rest, s.phase = .events rest ∧ s.world.conn.channel.self ∉ rest
  server : s.server.alive = true ∧ s.server.holds = true ∧ s.server.removals = 0
  destroyed : s.destroyed = false

theorem Started.world {s : State τ} (h : Started s) :
    s.world.Open ∧ s.world.stack = [.user] ∧ s.world.trace = [.connection true] := by
  obtain ⟨w, hfresh, hreading, -, hstack, htrace, hest⟩ := h.established
  rw [hfresh.connectEstablished] at hest
  rw [← Except.ok.inj hest]
  refine ⟨hfresh.open hreading, ?_, ?_⟩
  · show [Call.user] ++ w.stack = [.user]
    rw [hstack]
    rfl
  · show w.trace ++ [.connection true] = [.connection true]
    rw [htrace]
    rfl

/-- The state in which the server has just accepted its first connection. -/
def freshStart (sameLoop : Bool) : State τ where
  world := World.freshWorld.established
  pc := fun _ => .idle
  phase := .batch []
  revents := ⟨false, false, false, false, false, false, false⟩
  server := ⟨sameLoop, true, true, 0⟩
  destroyed := false

theorem freshStart_started (sameLoop : Bool) : Started (freshStart sameLoop : State τ) where
  established := ⟨World.freshWorld, World.freshWorld_fresh, rfl, rfl, rfl, rfl,
    World.freshWorld_fresh.connectEstablished⟩
  pc _ := rfl
  phase := .inl ⟨rfl, rfl⟩
  server := ⟨rfl, rfl, rfl⟩
  destroyed := rfl

/-- A step that comes too late: a thread whose test passed before the close sets
`kDisconnecting` after it, or reading is started again. -/
def late (s : State τ) : Label τ → Bool
  | .setDisconnecting _ => s.world.conn.state = .kDisconnected
  | .startRead => s.world.conn.state = .kDisconnected
  | .runFunctor _ =>
      s.nextFunctor = some .startReadInLoop ∧ s.world.conn.state = .kDisconnected
  | _ => false

/-- The steps of other threads, and the calls of the user in the loop thread other than
`stopRead`. -/
def Label.IsCall : Label τ → Prop
  | .testSend _ _ => True
  | .queueSend _ => True
  | .testClose _ _ => True
  | .setDisconnecting _ => True
  | .queueClose _ => True
  | .queueStartRead => True
  | .queueStopRead => True
  | .send _ _ => True
  | .shutdown => True
  | .forceClose => True
  | .startRead => True
  | _ => False

/-- Only the connection and the threads have moved. -/
structure Quiet (s s' : State τ) : Prop extends World.Evolves s.world s'.world where
  phase : s'.phase = s.phase
  revents : s'.revents = s.revents
  server : s'.server = s.server
  destroyed : s'.destroyed = s.destroyed

theorem Quiet.refl (s : State τ) : Quiet s s := ⟨.refl _, rfl, rfl, rfl, rfl⟩

theorem Quiet.setWorld (s : State τ) {w : World} (h : World.Evolves s.world w) :
    Quiet s (s.setWorld w) := ⟨h, rfl, rfl, rfl, rfl⟩

theorem Quiet.setPc [DecidableEq τ] (s : State τ) (t : τ) (pc : Pc) :
    Quiet s { s with pc := Function.update s.pc t pc } := ⟨.refl _, rfl, rfl, rfl, rfl⟩

/-- An event makes the channel call its own callbacks only. -/
theorem mem_handleEvent {call : Call} {revents : Revents} (h : call ∈ handleEvent revents) :
    call = .handleClose ∨ call = .handleRead ∨ call = .handleWrite := by
  unfold handleEvent at h
  simp only [List.mem_append] at h
  rcases h with (h | h) | h <;> split at h <;> simp at h <;> simp [h]

/-- The functors that neither stop reading nor close nor destroy. -/
def IsPlain : Functor → Prop
  | .stopReadInLoop => False
  | .forceCloseInLoop => False
  | .connectDestroyed => False
  | _ => True

theorem runFunctor_plain {w : World} (h : w.Steady) {f : Functor} (hf : IsPlain f)
    {r : WriteResult} (hr : r.Within f.offered)
    (hlate : f = .startReadInLoop → w.conn.state ≠ .kDisconnected) :
    ∃ w', w.runFunctor r f = .ok w' ∧ World.Evolves w w' := by
  cases f with
  | sendInLoop message => exact h.sendInLoop message r hr
  | shutdownInLoop => exact ⟨_, rfl, .shutdownInLoop w⟩
  | startReadInLoop => exact (h.isOpen (hlate rfl)).startReadInLoop
  | writeCompleteCallback => exact ⟨w, rfl, .refl w⟩
  | highWaterMarkCallback size => exact ⟨w, rfl, .refl w⟩
  | _ => exact hf.elim

variable [DecidableEq τ]

theorem exec_call {s : State τ} {l : Label τ} (h : s.world.Steady) (hl : l.IsCall)
    (he : Offers s l) (hlate : late s l = false) : ∃ s', exec s l = .ok s' ∧ Quiet s s' := by
  cases l with
  | testSend t message =>
      refine ⟨_, rfl, ?_⟩
      split
      · exact .setPc s t _
      · exact .refl s
  | queueSend t =>
      refine ⟨_, rfl, ?_⟩
      split
      · exact ⟨.queueInLoop _ _, rfl, rfl, rfl, rfl⟩
      · exact .refl s
  | testClose t closer =>
      refine ⟨_, rfl, ?_⟩
      split
      · exact .setPc s t _
      · exact .refl s
  | setDisconnecting t =>
      refine ⟨_, rfl, ?_⟩
      split
      · exact ⟨.disconnecting (of_decide_eq_false hlate), rfl, rfl, rfl, rfl⟩
      · exact .refl s
  | queueClose t =>
      refine ⟨_, rfl, ?_⟩
      split
      · exact ⟨.queueInLoop _ _, rfl, rfl, rfl, rfl⟩
      · exact .refl s
  | queueStartRead => exact ⟨_, rfl, .setWorld s (.queueInLoop _ _)⟩
  | queueStopRead => exact ⟨_, rfl, .setWorld s (.queueInLoop _ _)⟩
  | send message r =>
      obtain ⟨w, hw, hevolves⟩ := h.send message r he.2
      exact ⟨_, by rw [exec, hw]; rfl, .setWorld s hevolves⟩
  | shutdown => exact ⟨_, rfl, .setWorld s (.shutdown _)⟩
  | forceClose => exact ⟨_, rfl, .setWorld s (.forceClose _)⟩
  | startRead =>
      obtain ⟨w, hw, hevolves⟩ := (h.isOpen (of_decide_eq_false hlate)).startReadInLoop
      refine ⟨_, ?_, .setWorld s hevolves⟩
      rw [exec, World.startRead, hw]
      rfl
  | _ => exact hl.elim

theorem exec_runFunctor {s : State τ} {f : Functor} {rest : List Functor}
    (hphase : s.phase = .batch (f :: rest)) (r : WriteResult) :
    exec s (.runFunctor r) =
      (s.world.runFunctor r f).map fun w => { s with world := w, phase := .batch rest } := by
  rw [exec, hphase]

/-! ### Steps that are not due

Where nothing is due, the loop stays as it is. -/

theorem exec_nextChannel_cases (s : State τ) :
    exec s .nextChannel = .ok s ∨ ∃ channel rest, s.phase = .events (channel :: rest) ∧
      exec s .nextChannel = .ok (s.activate channel rest) := by
  simp only [exec]
  split
  next channel rest hphase => exact .inr ⟨channel, rest, hphase, rfl⟩
  next => exact .inl rfl

theorem exec_runFunctor_cases (s : State τ) (r : WriteResult) :
    exec s (.runFunctor r) = .ok s ∨
      ∃ f rest, s.phase = .batch (f :: rest) ∧ s.nextFunctor = some f := by
  simp only [exec]
  split
  next f rest hphase => exact .inr ⟨f, rest, hphase, by rw [State.nextFunctor, hphase]⟩
  next => exact .inl rfl

theorem exec_runCall_cases (s : State τ) (read : Except ℕ (List UInt8)) (r : WriteResult) :
    exec s (.runCall read r) = .ok s ∨ ∃ call rest, s.world.stack = call :: rest ∧
      exec s (.runCall read r) = s.pop.runCall read r call := by
  simp only [exec]
  split
  next call rest hstack => exact .inr ⟨call, rest, hstack, rfl⟩
  next => exact .inl rfl

end Muduo.System.Lifecycle
