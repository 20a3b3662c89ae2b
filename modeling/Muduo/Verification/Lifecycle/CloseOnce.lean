import Muduo.Verification.Lifecycle.Steps

/-! A connection is closed at most once. Once `handleClose` has taken the descriptor out
of `epoll`, no event can reach the connection again, unless something registers it
again or moves `state_` back. -/

namespace Muduo.System.Lifecycle

open Library Net TcpConnection

variable {τ : Type}

/-- The step belongs to the destruction of the connection or of its server. -/
def destroys (s : State τ) : Label τ → Bool
  | .destroyServer => true
  | .runFunctor _ => s.nextFunctor = some .connectDestroyed
  | _ => false

/-- The step registers a descriptor that asks for nothing: an update from `kDeleted`
adds it to `epoll` whatever the mask. This happens in `stopReadInLoop` after the close if
`reading_` was left on, and in `handleClose` if no event was asked for. -/
def rearms (s : State τ) : Label τ → Bool
  | .stopRead => s.world.conn.state = .kDisconnected ∧ s.world.conn.reading = true
  | .runFunctor _ =>
      s.nextFunctor = some .stopReadInLoop ∧ s.world.conn.state = .kDisconnected ∧
        s.world.conn.reading = true ∨
      s.nextFunctor = some .forceCloseInLoop ∧ s.world.conn.state ≠ .kDisconnected ∧
        s.world.conn.channel.isNoneEvent = true
  | .runCall read _ =>
      match s.world.stack.head?, read with
      | some .handleClose, _ => s.world.conn.channel.isNoneEvent
      | some .handleRead, .ok [] => s.world.conn.channel.isNoneEvent
      | _, _ => false
  | _ => false

/-! ### The life of a connection -/

/-- Open; closed with `closeCallback_` still to be called; closed with the removal queued
in the loop of the server; removed by the server. -/
inductive Life where
  | live
  | closing
  | leaving
  | removed
  deriving DecidableEq

namespace Life

/-- How often `handleClose` has been entered, and the user been told. -/
def closes : Life → ℕ
  | live => 0
  | _ => 1

/-- How often `closeCallback_` has run. -/
def notices : Life → ℕ
  | live => 0
  | closing => 0
  | _ => 1

/-- How often `closeCallback_` is on the stack. -/
def owed : Life → ℕ
  | closing => 1
  | _ => 0

/-- How often the removal is queued in the loop of the server. -/
def queued : Life → ℕ
  | leaving => 1
  | _ => 0

/-- A closed connection is out of `epoll`. -/
def Shape : Life → World → Prop
  | live, w => w.Open
  | _, w => w.Shut ∧ w.conn.channel.index = EPollPoller.kDeleted

theorem Shape.steady {life : Life} {w : World} (h : life.Shape w) : w.Steady := by
  cases life with
  | live => exact .inl h
  | _ => exact .inr h.1

theorem Shape.evolves {life : Life} {w w' : World} (h : life.Shape w)
    (hw : World.Evolves w w') : life.Shape w' := by
  cases life with
  | live => exact hw.opened h
  | _ => exact ⟨(hw.shut h.1).1, (hw.shut h.1).2.trans h.2⟩

theorem Shape.congr {life : Life} {w w' : World} (h : life.Shape w) (hconn : w'.conn = w.conn)
    (hpoller : w'.loop.poller = w.loop.poller) : life.Shape w' := by
  cases life with
  | live => exact World.Open.congr h hconn hpoller
  | _ => exact ⟨h.1.congr hconn hpoller, by rw [hconn]; exact h.2⟩

theorem Shape.live_of_open {life : Life} {w : World} (h : life.Shape w) (hopen : w.Open) :
    life = live := by
  cases life with
  | live => rfl
  | _ => exact absurd h.1.state hopen.not_shut

end Life

/-- The calls that can close the connection. -/
def closes : Call → Bool
  | .handleClose => true
  | .handleRead => true
  | _ => false

/-- The channels the loop has still to handle in this iteration. -/
def Phase.channels : Phase → List ℕ
  | .events rest => rest
  | _ => []

/-- How many calls that can close the connection are due before the next `poll`. -/
def State.pending (s : State τ) : ℕ :=
  s.world.stack.countP closes + s.phase.channels.count s.world.conn.channel.self

/-- The invariant: what the trace, the stack and the server say belongs to one `life`,
and nothing that can close a connection is due once it is closed. -/
structure Lives (s : State τ) (life : Life) : Prop where
  shape : life.Shape s.world
  closed : s.world.trace.count .handleClose = life.closes
  down : s.world.trace.count (.connection false) = life.closes
  noticed : s.world.trace.count .closeCallback = life.notices
  owed : s.world.stack.count .closeCallback = life.owed
  kept : .remove ∉ s.world.stack
  removals : s.server.removals = life.queued
  holds : s.server.holds = true ↔ life ≠ .removed
  alive : s.server.alive = true
  apart : s.server.sameLoop = false
  pending : s.pending + life.closes ≤ 1
  clean : s.world.conn.channel.self ∈ s.phase.channels →
    (handleEvent s.revents).countP closes ≤ 1

theorem Lives.quiet {s s' : State τ} {life : Life} (h : Lives s life) (hq : Quiet s s') :
    Lives s' life where
  shape := h.shape.evolves hq.toEvolves
  closed := by rw [hq.trace, h.closed]
  down := by rw [hq.trace, h.down]
  noticed := by rw [hq.trace, h.noticed]
  owed := by rw [hq.stack, h.owed]
  kept := by rw [hq.stack]; exact h.kept
  removals := by rw [hq.server, h.removals]
  holds := by rw [hq.server, h.holds]
  alive := by rw [hq.server, h.alive]
  apart := by rw [hq.server, h.apart]
  pending := by
    have := h.pending
    rwa [State.pending, hq.stack, hq.phase, hq.self]
  clean := by
    rw [hq.phase, hq.self, hq.revents]
    exact h.clean

/-- The loop moves on without touching the connection; what is due may only shrink. -/
theorem Lives.moved {s s' : State τ} {life : Life} (h : Lives s life)
    (hconn : s'.world.conn = s.world.conn)
    (hpoller : s'.world.loop.poller = s.world.loop.poller) (hstack : s'.world.stack = s.world.stack)
    (htrace : s'.world.trace = s.world.trace) (hserver : s'.server = s.server)
    (hpending : s'.pending + life.closes ≤ 1)
    (hclean : s'.world.conn.channel.self ∈ s'.phase.channels →
      (handleEvent s'.revents).countP closes ≤ 1) : Lives s' life where
  shape := h.shape.congr hconn hpoller
  closed := by rw [htrace, h.closed]
  down := by rw [htrace, h.down]
  noticed := by rw [htrace, h.noticed]
  owed := by rw [hstack, h.owed]
  kept := by rw [hstack]; exact h.kept
  removals := by rw [hserver, h.removals]
  holds := by rw [hserver, h.holds]
  alive := by rw [hserver, h.alive]
  apart := by rw [hserver, h.apart]
  pending := hpending
  clean := hclean

/-- `handleClose` on an open connection that asks for some event. -/
theorem Lives.close {s s' : State τ} (h : Lives s .live) (hnone : s.pending = 0) {w : World}
    (hopen : w.Open) (hkept : World.Kept s.world w)
    (hevents : w.conn.channel.isNoneEvent = false) (hworld : s'.world = w.closed)
    (hserver : s'.server = s.server) (hphase : s'.phase.channels = s.phase.channels)
    (hrevents : s'.revents = s.revents) : Lives s' .closing := by
  have hstack : s'.world.stack = .user :: .closeCallback :: s.world.stack := by
    rw [hworld, ← hkept.stack]
    rfl
  have htrace : s'.world.trace = s.world.trace ++ [.handleClose] ++ [.connection false] := by
    rw [hworld, ← hkept.trace]
    rfl
  have hself : s'.world.conn.channel.self = s.world.conn.channel.self := by
    rw [hworld, ← hkept.self]
    rfl
  refine ⟨?_, ?_, ?_, ?_, ?_, ?_, ?_, ?_, ?_, ?_, ?_, ?_⟩
  · rw [hworld]
    exact ⟨hopen.shutDown.congr rfl rfl, hopen.shutDown_index hevents⟩
  · simp [htrace, List.count_append, h.closed, Life.closes]
  · simp [htrace, List.count_append, h.down, Life.closes]
  · simp [htrace, List.count_append, h.noticed, Life.notices]
  · simp [hstack, h.owed, Life.owed]
  · simp [hstack, h.kept]
  · rw [hserver, h.removals]
    rfl
  · rw [hserver, h.holds]
    simp
  · rw [hserver, h.alive]
  · rw [hserver, h.apart]
  · have : s'.pending = s.pending := by
      simp [State.pending, hstack, hphase, hself, closes]
    rw [this, hnone]
    exact Nat.le_refl 1
  · rw [hself, hphase, hrevents]
    exact h.clean

/-! ### The steps -/

theorem closes_handleEvent {events : Events} {revents : Revents} (h : Reported events revents) :
    (handleEvent revents).countP closes ≤ 1 := by
  obtain ⟨hin, hpri, -, -, hrdhup, hhup⟩ := h
  -- a hang-up without data to read means that reading was not asked for
  by_cases hclose : revents.pollhup = true ∧ ¬ revents.pollin = true
  · have hread : events.read ≠ true := fun hr => hclose.2 (hhup hclose.1 hr)
    have hno : ¬ (revents.pollin = true ∨ revents.pollpri = true ∨ revents.pollrdhup = true) := by
      rintro (h | h | h)
      · exact hclose.2 h
      · exact hread (hpri h)
      · rw [hrdhup] at h
        cases h
    simp only [handleEvent, if_pos hclose, if_neg hno]
    split <;> decide
  · simp only [handleEvent, if_neg hclose]
    split <;> split <;> decide

/-- Returning from a call that neither closes nor informs the server. -/
theorem Lives.pop {s : State τ} {life : Life} (h : Lives s life) {call : Call} {rest : List Call}
    (hstack : s.world.stack = call :: rest) (hcall : call ≠ .closeCallback) :
    Lives s.pop life := by
  have htail : s.pop.world.stack = rest := by rw [State.pop, State.setWorld, hstack]; rfl
  refine ⟨h.shape.congr rfl rfl, h.closed, h.down, h.noticed, ?_, ?_, h.removals, h.holds, h.alive,
    h.apart, ?_, h.clean⟩
  · have howed := h.owed
    rw [hstack, List.count_cons_of_ne hcall] at howed
    rwa [htail]
  · intro hmem
    rw [htail] at hmem
    exact h.kept (by rw [hstack]; exact List.mem_cons_of_mem _ hmem)
  · have hp := h.pending
    simp only [State.pending, hstack, List.countP_cons] at hp
    rw [State.pending, htail]
    show _ + s.phase.channels.count s.world.conn.channel.self + _ ≤ 1
    omega

/-- When a call that can close is due, the connection is open and no other is due. -/
theorem Lives.of_closes {s : State τ} {life : Life} (h : Lives s life) {call : Call}
    {rest : List Call} (hstack : s.world.stack = call :: rest) (hcall : closes call = true) :
    life = .live ∧ s.pop.pending = 0 := by
  have hp := h.pending
  have htail : s.pop.world.stack = rest := by rw [State.pop, State.setWorld, hstack]; rfl
  simp only [State.pending, hstack, List.countP_cons, hcall, if_true] at hp
  constructor
  · cases life with
    | live => rfl
    | _ =>
        simp only [Life.closes] at hp
        omega
  · rw [State.pending, htail]
    show _ + s.phase.channels.count s.world.conn.channel.self = 0
    omega

theorem Lives.stopReadInLoop {s : State τ} {life : Life} (h : Lives s life)
    (hreading : s.world.conn.state = .kDisconnected → s.world.conn.reading = false) :
    ∃ w, s.world.stopReadInLoop = .ok w ∧ World.Evolves s.world w := by
  rcases h.shape.steady with hopen | hshut
  · exact hopen.stopReadInLoop
  · obtain ⟨w, hw, -, -, hevolves⟩ := hshut.stopReadInLoop
    exact ⟨w, hw, hevolves (hreading hshut.state)⟩

theorem Lives.runFunctor {s : State τ} {life : Life} (h : Lives s life) {f : Functor}
    {rest : List Functor} (hphase : s.phase = .batch (f :: rest)) (hstack : s.world.stack = [])
    {r : WriteResult} (hr : r.Within f.offered) (hdestroy : f ≠ .connectDestroyed)
    (hlate : f = .startReadInLoop → s.world.conn.state ≠ .kDisconnected)
    (hstop : f = .stopReadInLoop → s.world.conn.state = .kDisconnected →
      s.world.conn.reading = false)
    (hforce : f = .forceCloseInLoop → s.world.conn.state ≠ .kDisconnected →
      s.world.conn.channel.isNoneEvent = false) :
    ∃ w life', s.world.runFunctor r f = .ok w ∧
      Lives { s with world := w, phase := .batch rest } life' := by
  -- taking the functor off the batch changes nothing that is due
  have hbatch : Lives { s with phase := .batch rest } life := by
    refine h.moved rfl rfl rfl rfl rfl ?_ fun hmem => absurd hmem List.not_mem_nil
    have hp := h.pending
    simpa only [State.pending, hphase, Phase.channels] using hp
  have hnext : ∀ w, World.Evolves s.world w →
      Lives { s with world := w, phase := .batch rest } life := fun w hw =>
    hbatch.quiet (.setWorld { s with phase := .batch rest } hw)
  by_cases hplain : IsPlain f
  · obtain ⟨w, hw, hevolves⟩ := runFunctor_plain h.shape.steady hplain hr hlate
    exact ⟨w, life, hw, hnext w hevolves⟩
  cases f with
  | stopReadInLoop =>
      obtain ⟨w, hw, hevolves⟩ := h.stopReadInLoop (hstop rfl)
      exact ⟨w, life, hw, hnext w hevolves⟩
  | forceCloseInLoop =>
      rcases h.shape.steady with hopen | hshut
      · obtain rfl := h.shape.live_of_open hopen
        refine ⟨_, .closing, (if_pos hopen.state).trans hopen.handleClose, ?_⟩
        refine hbatch.close ?_ hopen (.refl _) (hforce rfl hopen.not_shut) rfl rfl rfl rfl
        simp [State.pending, hstack, Phase.channels]
      · refine ⟨s.world, life, if_neg (by simp [hshut.state]), hnext _ (.refl _)⟩
  | connectDestroyed => exact absurd rfl hdestroy
  | _ => exact absurd trivial hplain

/-- Data for the user. -/
theorem Lives.message {s : State τ} {life : Life} (h : Lives s life) {w : World} {n : ℕ}
    (hshape : life.Shape w)
    (hkept : World.Kept ((s.world.emit (.message n)).call [.user]) w) :
    Lives (s.setWorld w) life := by
  have hstack : w.stack = .user :: s.world.stack := hkept.stack
  have htrace : w.trace = s.world.trace ++ [.message n] := hkept.trace
  have hself : w.conn.channel.self = s.world.conn.channel.self := hkept.self
  refine ⟨hshape, ?_, ?_, ?_, ?_, ?_, h.removals, h.holds, h.alive, h.apart, ?_, ?_⟩
  · simp [State.setWorld, htrace, List.count_append, h.closed]
  · simp [State.setWorld, htrace, List.count_append, h.down]
  · simp [State.setWorld, htrace, List.count_append, h.noticed]
  · simp [State.setWorld, hstack, h.owed]
  · simp [State.setWorld, hstack, h.kept]
  · have hp := h.pending
    simpa [State.setWorld, State.pending, hstack, hself, closes] using hp
  · simpa only [State.setWorld, hself] using h.clean

theorem removeConnection_apart {s : State τ} (halive : s.server.alive = true)
    (hapart : s.server.sameLoop = false) : s.removeConnection =
      .ok { s with server := { s.server with removals := s.server.removals + 1 } } := by
  rw [State.removeConnection, ensure_of _ halive, ok_bind, if_neg (by simp [hapart])]
  rfl

/-- `closeCallback_` hands the connection over to the loop of the server. -/
theorem Lives.closeCallback {s : State τ} {life : Life} (h : Lives s life) {rest : List Call}
    (hstack : s.world.stack = .closeCallback :: rest) :
    ∃ s', (s.pop.setWorld (s.pop.world.emit .closeCallback)).removeConnection = .ok s' ∧
      Lives s' .leaving := by
  have howed := h.owed
  have hp := h.pending
  rw [hstack, List.count_cons_self] at howed
  simp only [State.pending, hstack, List.countP_cons] at hp
  obtain rfl : life = .closing := by
    cases life <;> simp [Life.owed] at howed ⊢
  have htail : s.world.stack.tail = rest := by rw [hstack]; rfl
  refine ⟨_, removeConnection_apart h.alive h.apart, ⟨h.shape.1.congr rfl rfl, h.shape.2⟩,
    ?_, ?_, ?_, ?_, ?_, ?_, ?_, h.alive, h.apart, ?_, h.clean⟩
  · simp [State.setWorld, State.pop, World.emit, List.count_append, h.closed, Life.closes]
  · simp [State.setWorld, State.pop, World.emit, List.count_append, h.down, Life.closes]
  · simp [State.setWorld, State.pop, World.emit, List.count_append, h.noticed, Life.notices]
  · simp only [State.setWorld, State.pop, World.emit, htail, Life.owed] at howed ⊢
    omega
  · intro hmem
    simp only [State.setWorld, State.pop, World.emit, htail] at hmem
    exact h.kept (by rw [hstack]; exact List.mem_cons_of_mem _ hmem)
  · simp [State.setWorld, State.pop, h.removals, Life.queued]
  · simp [State.setWorld, State.pop, h.holds]
  · simp only [State.pending, State.setWorld, State.pop, World.emit, htail, Life.closes] at hp ⊢
    omega

/-- The next call on the stack. -/
theorem Lives.runCall {s : State τ} {life : Life} (h : Lives s life) {call : Call}
    {rest : List Call} (hstack : s.world.stack = call :: rest) (read : Except ℕ (List UInt8))
    {r : WriteResult}
    (hr : call = .handleWrite → r.Within s.world.conn.outputBuffer.readableBytes)
    (hevents : call = .handleClose ∨ call = .handleRead ∧ read = .ok [] →
      s.world.conn.channel.isNoneEvent = false) :
    ∃ s' life', s.pop.runCall read r call = .ok s' ∧ Lives s' life' := by
  cases call with
  | handleClose =>
      obtain ⟨rfl, hnone⟩ := h.of_closes hstack rfl
      have hpop : Lives s.pop .live := h.pop hstack nofun
      have hopen : s.pop.world.Open := hpop.shape
      refine ⟨_, .closing, by rw [State.runCall, hopen.handleClose]; rfl, ?_⟩
      exact hpop.close hnone hopen (.refl _) (hevents (.inl rfl)) rfl rfl rfl rfl
  | handleRead =>
      obtain ⟨rfl, hnone⟩ := h.of_closes hstack rfl
      have hpop : Lives s.pop .live := h.pop hstack nofun
      have hopen : s.pop.world.Open := hpop.shape
      obtain ⟨w, hw, ⟨hopen', hcase⟩ | ⟨heof, w₁, hopen₁, hkept, hchannel, rfl⟩⟩ :=
        hopen.handleRead read
      · refine ⟨s.pop.setWorld w, .live, by rw [State.runCall, hw]; rfl, ?_⟩
        rcases hcase with hkept | ⟨n, hkept⟩
        · exact hpop.quiet (.setWorld _ (.of_open hopen hkept hopen'))
        · exact hpop.message hopen' hkept
      · refine ⟨_, .closing, by rw [State.runCall, hw]; rfl, ?_⟩
        refine hpop.close hnone hopen₁ hkept ?_ rfl rfl rfl rfl
        rw [hchannel]
        exact hevents (.inr ⟨rfl, heof⟩)
  | handleWrite =>
      have hpop : Lives s.pop life := h.pop hstack nofun
      obtain ⟨w, hw, hevolves⟩ := hpop.shape.steady.handleWrite r (hr rfl)
      exact ⟨s.pop.setWorld w, life, by rw [State.runCall, hw]; rfl,
        hpop.quiet (.setWorld _ hevolves)⟩
  | user => exact ⟨s.pop, life, rfl, h.pop hstack nofun⟩
  | closeCallback =>
      obtain ⟨s', hs', hlives⟩ := h.closeCallback hstack
      exact ⟨s', .leaving, hs', hlives⟩
  | remove => exact absurd (by simp [hstack]) h.kept

theorem removeConnectionInLoop_of_holds {s : State τ} (hholds : s.server.holds = true) :
    s.removeConnectionInLoop =
      .ok ({ s with server := { s.server with holds := false } }.queueInLoop
        .connectDestroyed) := by
  rw [State.removeConnectionInLoop, ensure_of _ hholds]
  rfl

/-- The loop of the server takes the connection out of its map. -/
theorem Lives.removeConnectionInLoop {s : State τ} {life : Life} (h : Lives s life)
    (hqueued : 0 < s.server.removals) :
    ∃ s', { s with server := { s.server with
        removals := s.server.removals - 1 } }.removeConnectionInLoop = .ok s' ∧
      Lives s' .removed := by
  have hremovals := h.removals
  obtain rfl : life = .leaving := by
    cases life <;> simp [Life.queued] at hremovals ⊢ <;> omega
  have hholds : s.server.holds = true := h.holds.mpr nofun
  refine ⟨_, removeConnectionInLoop_of_holds hholds, ⟨h.shape.1.congr rfl rfl, h.shape.2⟩,
    h.closed, h.down, h.noticed, h.owed, h.kept, ?_, ?_, h.alive, h.apart, h.pending, h.clean⟩
  · simp [State.queueInLoop, State.setWorld, hremovals, Life.queued]
  · simp [State.queueInLoop, State.setWorld]

/-- Only an open connection is registered with `epoll`. -/
theorem Lives.live_of_registered {s : State τ} {life : Life} (h : Lives s life) {events : Events}
    (hevents : events ∈ s.world.loop.poller.interest s.world.conn.channel.fd) : life = .live := by
  have hout : life.Shape s.world → life = .live := by
    intro hshape
    cases life with
    | live => rfl
    | _ =>
        obtain ⟨hshut, hindex⟩ := hshape
        cases hshut.tracked with
        | new hnew => exact absurd hnew hshut.known
        | added hadded => exact absurd (hadded.symm.trans hindex) (by decide)
        | deleted _ _ hkernel =>
            rw [hkernel] at hevents
            cases hevents
  exact hout h.shape

/-- The loop turns to the next active channel. -/
theorem Lives.activate {s : State τ} {life : Life} (h : Lives s life) {channel : ℕ}
    {rest : List ℕ} (hphase : s.phase = .events (channel :: rest)) (hstack : s.world.stack = []) :
    Lives (s.activate channel rest) life := by
  have hp := h.pending
  have hclean := h.clean
  simp only [State.pending, hstack, hphase, Phase.channels, List.countP_nil, Nat.zero_add] at hp
  rw [hphase] at hclean
  by_cases hself : channel = s.world.conn.channel.self
  · have hcalls := hclean (by simp [Phase.channels, hself])
    rw [hself, List.count_cons_self] at hp
    have hworld : (s.activate channel rest).world = { s.world with
        loop := { s.world.loop with currentActiveChannel := some channel }
        stack := handleEvent s.revents } := by
      simp only [State.activate, if_pos hself, World.call, hstack, List.append_nil]
    refine ⟨?_, ?_, ?_, ?_, ?_, ?_, h.removals, h.holds, h.alive, h.apart, ?_, ?_⟩
    · exact h.shape.congr (by rw [hworld]) (by rw [hworld])
    · rw [hworld]
      exact h.closed
    · rw [hworld]
      exact h.down
    · rw [hworld]
      exact h.noticed
    · rw [hworld, List.count_eq_zero.mpr fun hmem => by simpa using mem_handleEvent hmem, ← h.owed,
        hstack]
      rfl
    · rw [hworld]
      intro hmem
      simpa using mem_handleEvent hmem
    · rw [State.pending, hworld]
      show (handleEvent s.revents).countP closes + rest.count s.world.conn.channel.self + _ ≤ 1
      omega
    · rw [hworld]
      exact fun _ => hcalls
  · have hworld : (s.activate channel rest).world = { s.world with
        loop := { s.world.loop with currentActiveChannel := some channel } } := by
      simp only [State.activate, if_neg hself]
    refine h.moved (by rw [hworld]) (by rw [hworld]) (by rw [hworld]) (by rw [hworld]) rfl ?_ ?_
    · rw [State.pending, hworld]
      show s.world.stack.countP closes + rest.count s.world.conn.channel.self + _ ≤ 1
      rw [List.count_cons_of_ne hself] at hp
      rwa [hstack, List.countP_nil, Nat.zero_add]
    · rw [hworld]
      exact fun hmem => hclean (List.mem_cons_of_mem _ hmem)

/-- The loop has left the channels that were reported. -/
theorem Lives.moved_of_nil {s s' : State τ} {life : Life} (h : Lives s life)
    (hconn : s'.world.conn = s.world.conn)
    (hpoller : s'.world.loop.poller = s.world.loop.poller) (hstack : s'.world.stack = s.world.stack)
    (htrace : s'.world.trace = s.world.trace) (hserver : s'.server = s.server)
    (hnil : s'.phase.channels = []) : Lives s' life := by
  refine h.moved hconn hpoller hstack htrace hserver ?_ fun hmem => ?_
  · have hp := h.pending
    rw [State.pending] at hp ⊢
    rw [hstack, hnil, List.count_nil]
    omega
  · rw [hnil] at hmem
    cases hmem

theorem Started.lives {s : State τ} (h : Started s) (hapart : s.server.sameLoop = false) :
    Lives s .live := by
  obtain ⟨hopen, hstack, htrace⟩ := h.world
  have hnot : s.world.conn.channel.self ∉ s.phase.channels := by
    rcases h.phase with ⟨hphase, -⟩ | ⟨rest, hphase, hrest⟩
    · simp [hphase, Phase.channels]
    · simpa [hphase, Phase.channels] using hrest
  refine ⟨hopen, by rw [htrace]; rfl, by rw [htrace]; rfl, by rw [htrace]; rfl,
    by rw [hstack]; rfl, by simp [hstack], h.server.2.2, by simp [h.server.2.1], h.server.1, hapart,
    ?_, fun hmem => absurd hmem hnot⟩
  rw [State.pending, hstack, List.count_eq_zero.mpr hnot]
  decide

variable [DecidableEq τ]

/-- The poller reports channels: that of the connection at most once, and only while it is
registered. -/
theorem Lives.poll {s : State τ} {life : Life} (h : Lives s life) {active : List ℕ}
    {revents : Revents} (he : Offers s (.poll active revents)) :
    ∃ s', exec s (.poll active revents) = .ok s' ∧ Lives s' life := by
  obtain ⟨-, hstack, hnodup, hreported⟩ := he
  refine ⟨_, rfl, h.moved rfl rfl rfl rfl rfl ?_ fun hmem => ?_⟩
  · simp only [State.pending, hstack, List.countP_nil, Nat.zero_add, Phase.channels]
    by_cases hmem : s.world.conn.channel.self ∈ active
    · obtain ⟨events, hevents, -⟩ := hreported hmem
      rw [h.live_of_registered hevents, hnodup.count, if_pos hmem]
      exact Nat.le_refl 1
    · rw [List.count_eq_zero.mpr hmem, Nat.zero_add]
      cases life <;> decide
  · obtain ⟨events, -, hrep⟩ := hreported hmem
    exact closes_handleEvent hrep

theorem Lives.step {s : State τ} {l : Label τ} {life : Life} (h : Lives s life)
    (he : Offers s l) (hdestroys : destroys s l = false) (hlate : late s l = false)
    (hrearms : rearms s l = false) : ∃ s' life', exec s l = .ok s' ∧ Lives s' life' := by
  by_cases hcall : l.IsCall
  · obtain ⟨s', hexec, hq⟩ := exec_call h.shape.steady hcall he hlate
    exact ⟨s', life, hexec, h.quiet hq⟩
  cases l with
  | removeConnectionInLoop =>
      obtain ⟨s', hs', hlives⟩ := h.removeConnectionInLoop he
      refine ⟨s', .removed, ?_, hlives⟩
      rw [exec, ensure_of _ h.alive, ok_bind, hs']
  | destroyServer => cases hdestroys
  | stopRead =>
      obtain ⟨w, hw, hevolves⟩ := h.stopReadInLoop fun hs => by
        by_contra hr
        exact of_decide_eq_false hrearms ⟨hs, by simpa using hr⟩
      exact ⟨s.setWorld w, life, by rw [exec, World.stopRead, hw]; rfl,
        h.quiet (.setWorld s hevolves)⟩
  | poll active revents =>
      obtain ⟨s', hexec, hlives⟩ := h.poll he
      exact ⟨s', life, hexec, hlives⟩
  | nextChannel =>
      rcases exec_nextChannel_cases s with hexec | ⟨channel, rest, hphase, hexec⟩
      · exact ⟨s, life, hexec, h⟩
      · exact ⟨_, life, hexec, h.activate hphase he⟩
  | doPendingFunctors => exact ⟨_, life, rfl, h.moved_of_nil rfl rfl rfl rfl rfl rfl⟩
  | runFunctor r =>
      obtain ⟨hstack, hwithin⟩ := he
      rcases exec_runFunctor_cases s r with hexec | ⟨f, rest, hphase, hnext⟩
      · exact ⟨s, life, hexec, h⟩
      have hrearms' := of_decide_eq_false hrearms
      rw [hnext, not_or] at hrearms'
      obtain ⟨w, life', hw, hlives⟩ := h.runFunctor hphase hstack (hwithin f hnext)
        (fun hf => of_decide_eq_false hdestroys (by rw [hnext, hf]))
        (fun hf hs => of_decide_eq_false hlate ⟨by rw [hnext, hf], hs⟩)
        (fun hf hs => by
          by_contra hr
          exact hrearms'.1 ⟨by rw [hf], hs, by simpa using hr⟩)
        (fun hf hs => by
          by_contra hr
          exact hrearms'.2 ⟨by rw [hf], hs, by simpa using hr⟩)
      exact ⟨_, life', by rw [exec_runFunctor hphase, hw]; rfl, hlives⟩
  | endBatch => exact ⟨_, life, rfl, h.moved_of_nil rfl rfl rfl rfl rfl rfl⟩
  | runCall read r =>
      rcases exec_runCall_cases s read r with hexec | ⟨call, rest, hstack, hexec⟩
      · exact ⟨s, life, hexec, h⟩
      rw [hexec]
      refine h.runCall hstack read (fun hc => he (by rw [hstack, hc]; rfl)) ?_
      rintro (rfl | ⟨rfl, rfl⟩)
      · simpa only [rearms, hstack, List.head?_cons] using hrearms
      · simpa only [rearms, hstack, List.head?_cons] using hrearms
  | _ => exact absurd trivial hcall

/-- Whatever the interleaving, up to its destruction a connection served by another loop
enters `handleClose` at most once and never with a failed assertion, tells its user at
most once that it is down and calls `closeCallback_` at most once, provided no step
comes late and none registers a descriptor that asks for nothing. -/
theorem closed_at_most_once {s : State τ} (hs : Started s) (hapart : s.server.sameLoop = false)
    (ls : List (Label τ))
    (hl : LegalRun exec (fun s l => Enabled s l ∧ destroys s l = false ∧ late s l = false ∧
      rearms s l = false) s ls) :
    ∃ s', run exec s ls = .ok s' ∧ s'.world.trace.count .handleClose ≤ 1 ∧
      s'.world.trace.count (.connection false) ≤ 1 ∧ s'.world.trace.count .closeCallback ≤ 1 := by
  have hstep : ∀ (s : State τ) (l : Label τ), (∃ life, Lives s life) →
      (Enabled s l ∧ destroys s l = false ∧ late s l = false ∧ rearms s l = false) →
      ∃ s', exec s l = .ok s' ∧ ∃ life, Lives s' life := by
    rintro s l ⟨life, h⟩ ⟨⟨-, he⟩, hdestroys, hlate, hrearms⟩
    obtain ⟨s', life', hs', hlives⟩ := h.step he hdestroys hlate hrearms
    exact ⟨s', hs', life', hlives⟩
  obtain ⟨s', hrun, life, h⟩ := run_invariant hstep ⟨.live, hs.lives hapart⟩ hl
  refine ⟨s', hrun, ?_, ?_, ?_⟩
  · rw [h.closed]
    cases life <;> decide
  · rw [h.down]
    cases life <;> decide
  · rw [h.noticed]
    cases life <;> decide

/-- The peer closes while another thread forces the close; the removal comes back from
the loop of the server. -/
theorem closed_at_most_once_twice_asked :
    let ls : List (Label Unit) := [.runCall (.ok []) (.wrote 0), .endBatch,
      .testClose () .forceClose, .setDisconnecting (), .queueClose (),
      .poll [1] ⟨true, false, false, false, true, false, false⟩, .nextChannel,
      .runCall (.ok []) (.wrote 0), .runCall (.ok []) (.wrote 0), .runCall (.ok []) (.wrote 0),
      .doPendingFunctors, .runFunctor (.wrote 0), .endBatch, .removeConnectionInLoop]
    ∃ s', run exec (freshStart false) ls = .ok s' ∧ s'.world.trace.count .handleClose ≤ 1 ∧
      s'.world.trace.count (.connection false) ≤ 1 ∧ s'.world.trace.count .closeCallback ≤ 1 := by
  intro ls
  exact closed_at_most_once (freshStart_started false) rfl ls (by decide +kernel)

/-- Reading is stopped and the connection then closed by force: the close registers the
descriptor again, with no event asked for, and a hang-up enters `handleClose` a second
time, where its assertion fails. -/
theorem closed_twice_after_stopRead :
    let ls : List (Label Unit) := [.stopRead, .forceClose, .runCall (.ok []) (.wrote 0), .endBatch,
      .poll [] ⟨false, false, false, false, false, false, false⟩, .doPendingFunctors,
      .runFunctor (.wrote 0), .runCall (.ok []) (.wrote 0), .runCall (.ok []) (.wrote 0), .endBatch,
      .poll [1] ⟨false, false, false, false, true, false, false⟩, .nextChannel]
    LegalRun exec (fun s l => Enabled s l ∧ destroys s l = false) (freshStart false)
        (ls ++ [.runCall (.ok []) (.wrote 0)]) ∧
      (∃ s, run exec (freshStart false) ls = .ok s ∧
        s.world.trace.count .handleClose = 1 ∧ s.world.stack = [.handleClose]) ∧
      run exec (freshStart false) (ls ++ [.runCall (.ok []) (.wrote 0)]) =
        .error .handleClose := by
  intro ls
  exact ⟨by decide +kernel, by decide +kernel, eq_error_of_outcome (by decide +kernel)⟩

end Muduo.System.Lifecycle
