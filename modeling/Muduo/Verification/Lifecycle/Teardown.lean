import Muduo.Verification.Lifecycle.Steps

/-! Teardown. `connectDestroyed` clears the poll interest in `kConnected` only, so it
succeeds when it meets a connection in that state or one that has been closed and left
alone since. -/

namespace Muduo.System.Lifecycle

open Library Net TcpConnection

variable {τ : Type}

/-- `connectDestroyed` meets a connection that is being shut down, or one that the loop
of its server has still to handle in this iteration. -/
def untimely (s : State τ) : Label τ → Bool
  | .runFunctor _ =>
      s.nextFunctor = some .connectDestroyed ∧ s.world.conn.state = .kDisconnecting
  | .destroyServer => s.server.sameLoop = true ∧ s.server.holds = true ∧
      (s.world.conn.state = .kDisconnecting ∨ ¬ s.world.Removable)
  | _ => false

/-- Every executed `connectDestroyed` has left the connection disconnected and its
channel out of the poller. -/
def TornDown (s : State τ) : Prop :=
  ∀ state inPoller, .destroyed state inPoller ∈ s.world.trace →
    state = .kDisconnected ∧ inPoller = false

/-- Until the channel is removed: a connection that waits for it is shut. -/
structure Standing (s : State τ) : Prop where
  steady : s.world.Steady
  removing : .remove ∈ s.world.stack → s.world.Shut ∧ s.world.Removable
  idle : ∀ rest, s.phase = .batch rest → s.world.loop.eventHandling = false

/-- The invariant. Nothing is said of a connection after its teardown. -/
structure TeardownInv (s : State τ) : Prop where
  standing : s.destroyed = false → Standing s
  tornDown : TornDown s

theorem Standing.not_removing {s : State τ} (h : Standing s) (hopen : s.world.Open) :
    .remove ∉ s.world.stack := fun hmem => hopen.not_shut (h.removing hmem).1.state

theorem removable_congr {w w' : World} (hself : w'.conn.channel.self = w.conn.channel.self)
    (hhandling : w'.loop.eventHandling = w.loop.eventHandling)
    (hactive : w'.loop.activeChannels = w.loop.activeChannels)
    (hcurrent : w'.loop.currentActiveChannel = w.loop.currentActiveChannel)
    (h : w.Removable) : w'.Removable := by
  unfold World.Removable
  rw [hself, hhandling, hactive, hcurrent]
  exact h

/-- Steps that keep the stack keep what it says about removal. -/
theorem Standing.kept {s s' : State τ} (h : Standing s) (hkept : World.Kept s.world s'.world)
    (hsteady : s'.world.Steady) (hshut : s.world.Shut → s'.world.Shut)
    (hphase : s'.phase = s.phase) : Standing s' := by
  refine ⟨hsteady, fun hmem => ?_, fun rest hrest => ?_⟩
  · obtain ⟨hs, hr⟩ := h.removing (hkept.stack ▸ hmem)
    exact ⟨hshut hs, removable_congr hkept.self hkept.eventHandling hkept.activeChannels
      hkept.current hr⟩
  · rw [hkept.eventHandling]
    exact h.idle rest (hphase ▸ hrest)

theorem Standing.quiet {s s' : State τ} (h : Standing s) (hq : Quiet s s') : Standing s' :=
  h.kept hq.toKept (hq.steady h.steady) (fun hs => (hq.shut hs).1) hq.phase

theorem Standing.pop {s : State τ} (h : Standing s) : Standing s.pop := by
  refine ⟨h.steady.congr rfl rfl, fun hmem => ?_, h.idle⟩
  obtain ⟨hs, hr⟩ := h.removing (List.mem_of_mem_tail hmem)
  exact ⟨hs.congr rfl rfl, hr⟩

/-- An open connection is closed; the calls that are pushed do not remove it. -/
theorem Standing.closed {s s' : State τ} {w : World} (hopen : w.Open)
    (hkept : World.Kept s.world w) (hnot : .remove ∉ s.world.stack)
    (hworld : s'.world = w.closed) (hphase : ∀ rest, s'.phase = .batch rest →
      s.world.loop.eventHandling = false) : Standing s' := by
  refine ⟨?_, fun hmem => ?_, fun rest hrest => ?_⟩
  · rw [hworld]
    exact .inr (hopen.shutDown.congr rfl rfl)
  · rw [hworld] at hmem
    have : Call.remove ∈ Call.user :: Call.closeCallback :: w.stack := hmem
    rw [hkept.stack] at this
    simp [hnot] at this
  · rw [hworld]
    exact hkept.eventHandling.trans (hphase rest hrest)

/-! ### The steps of the loop -/

theorem TeardownInv.of_trace {s s' : State τ} (h : Standing s') (ht : TornDown s)
    (htrace : ∀ state inPoller, .destroyed state inPoller ∈ s'.world.trace →
      .destroyed state inPoller ∈ s.world.trace) : TeardownInv s' :=
  ⟨fun _ => h, fun state inPoller hmem => ht state inPoller (htrace state inPoller hmem)⟩

theorem TeardownInv.quiet {s s' : State τ} (h : Standing s) (ht : TornDown s)
    (hq : Quiet s s') : TeardownInv s' :=
  .of_trace (h.quiet hq) ht fun _ _ hmem => hq.trace ▸ hmem

theorem TeardownInv.closed {s s' : State τ} (ht : TornDown s) {w : World} (hopen : w.Open)
    (hkept : World.Kept s.world w) (hnot : .remove ∉ s.world.stack)
    (hworld : s'.world = w.closed) (hphase : ∀ rest, s'.phase = .batch rest →
      s.world.loop.eventHandling = false) : TeardownInv s' := by
  refine .of_trace (.closed hopen hkept hnot hworld hphase) ht fun state inPoller hmem => ?_
  rw [hworld] at hmem
  have : .destroyed state inPoller ∈ w.trace ++ [.handleClose] ++ [.connection false] := hmem
  simpa [hkept.trace] using this

/-- `connectDestroyed` in `kConnected` or after the close: the channel is to be removed
from a connection that asks for no event. -/
theorem Standing.connectDestroyed {s : State τ} (h : Standing s) (ht : TornDown s)
    (hstate : s.world.conn.state ≠ .kDisconnecting) (hr : s.world.Removable) :
    ∃ w, s.world.connectDestroyed = .ok w ∧
      ∀ s' : State τ, s'.world = w → (∀ rest, s'.phase = .batch rest →
        s.world.loop.eventHandling = false) → TeardownInv s' := by
  rcases h.steady with hopen | hshut
  · have hs : s.world.conn.state = .kConnected := hopen.state.resolve_right hstate
    refine ⟨_, hopen.connectDestroyed hs, fun s' hw hphase => ?_⟩
    have hshut : s'.world.Shut := by
      rw [hw]
      exact hopen.shutDown.congr rfl rfl
    refine .of_trace ⟨.inr hshut, fun _ => ⟨hshut, ?_⟩, ?_⟩ ht fun state inPoller hmem => ?_
    · rw [hw]
      exact hr
    · intro rest hrest
      rw [hw]
      exact hphase rest hrest
    · rw [hw] at hmem
      have : .destroyed state inPoller ∈ s.world.trace ++ [.connection false] := hmem
      simpa using this
  · refine ⟨_, hshut.connectDestroyed, fun s' hw hphase => ?_⟩
    have hshut' : s'.world.Shut := by
      rw [hw]
      exact hshut.congr rfl rfl
    refine .of_trace ⟨.inr hshut', fun _ => ⟨hshut', ?_⟩, ?_⟩ ht fun state inPoller hmem => ?_
    · rw [hw]
      exact hr
    · intro rest hrest
      rw [hw]
      exact hphase rest hrest
    · rw [hw] at hmem
      exact hmem

theorem Standing.stopReadInLoop {s : State τ} (h : Standing s) :
    ∃ w, s.world.stopReadInLoop = .ok w ∧ World.Kept s.world w ∧ w.Steady ∧
      (s.world.Shut → w.Shut) := by
  rcases h.steady with hopen | hshut
  · obtain ⟨w, hw, hevolves⟩ := hopen.stopReadInLoop
    exact ⟨w, hw, hevolves.toKept, hevolves.steady h.steady, fun hs => (hevolves.shut hs).1⟩
  · obtain ⟨w, hw, hs, hkept, -⟩ := hshut.stopReadInLoop
    exact ⟨w, hw, hkept, .inr hs, fun _ => hs⟩

theorem Standing.runFunctor {s : State τ} (h : Standing s) (ht : TornDown s) {f : Functor}
    {rest : List Functor} (hphase : s.phase = .batch (f :: rest)) (hstack : s.world.stack = [])
    {r : WriteResult} (hr : r.Within f.offered)
    (hlate : f = .startReadInLoop → s.world.conn.state ≠ .kDisconnected)
    (huntimely : f = .connectDestroyed → s.world.conn.state ≠ .kDisconnecting) :
    ∃ w, s.world.runFunctor r f = .ok w ∧
      TeardownInv { s with world := w, phase := .batch rest } := by
  have hidle : s.world.loop.eventHandling = false := h.idle _ hphase
  have hnot : .remove ∉ s.world.stack := by simp [hstack]
  -- the batch is shorter, and the loop handles no event while it lasts
  have hnext : ∀ w : World, World.Kept s.world w → w.Steady → (s.world.Shut → w.Shut) →
      TeardownInv { s with world := w, phase := .batch rest } := by
    intro w hkept hsteady hshut
    refine .of_trace ⟨hsteady, fun hmem => ?_, fun _ _ => ?_⟩ ht fun _ _ hmem => hkept.trace ▸ hmem
    · exact absurd (hkept.stack ▸ hmem) hnot
    · exact hkept.eventHandling.trans hidle
  by_cases hplain : IsPlain f
  · obtain ⟨w, hw, hevolves⟩ := runFunctor_plain h.steady hplain hr hlate
    exact ⟨w, hw, hnext w hevolves.toKept (hevolves.steady h.steady) fun hs => (hevolves.shut hs).1⟩
  cases f with
  | stopReadInLoop =>
      obtain ⟨w, hw, hkept, hsteady, hshut⟩ := h.stopReadInLoop
      exact ⟨w, hw, hnext w hkept hsteady hshut⟩
  | forceCloseInLoop =>
      rcases h.steady with hopen | hshut
      · refine ⟨_, (if_pos hopen.state).trans hopen.handleClose, ?_⟩
        exact .closed ht hopen (.refl _) hnot rfl fun _ _ => hidle
      · refine ⟨s.world, if_neg (by simp [hshut.state]), ?_⟩
        exact hnext _ (.refl _) h.steady id
  | connectDestroyed =>
      obtain ⟨w, hw, hinv⟩ := h.connectDestroyed ht (huntimely rfl) fun hh => by
        rw [hidle] at hh
        cases hh
      exact ⟨w, hw, hinv _ rfl fun _ _ => hidle⟩
  | _ => exact absurd trivial hplain

/-- The two faults that are not of the teardown: the assertion of `handleClose`, and the
use of a server that has been destructed or has removed the connection before. -/
def Elsewhere (fault : Fault) : Prop := fault = .handleClose ∨ fault = .server

theorem Standing.removeConnectionInLoop {s : State τ} (h : Standing s) (ht : TornDown s) :
    Outcome TeardownInv Elsewhere s.removeConnectionInLoop := by
  unfold State.removeConnectionInLoop
  by_cases hholds : s.server.holds = true
  · rw [ensure_of _ hholds]
    have hevolves := World.Evolves.queueInLoop s.world .connectDestroyed
    exact .ok (.of_trace (h.kept hevolves.toKept (hevolves.steady h.steady)
      (fun hs => (hevolves.shut hs).1) rfl) ht fun _ _ hmem => hmem)
  · rw [ensure_of_not _ hholds]
    exact .error (.inr rfl)

theorem Standing.removeConnection {s : State τ} (h : Standing s) (ht : TornDown s) :
    Outcome TeardownInv Elsewhere s.removeConnection := by
  unfold State.removeConnection
  by_cases halive : s.server.alive = true
  · rw [ensure_of _ halive, ok_bind]
    split
    · exact h.removeConnectionInLoop ht
    · exact .ok ⟨fun _ => ⟨h.steady, h.removing, h.idle⟩, ht⟩
  · rw [ensure_of_not _ halive]
    exact .error (.inr rfl)

/-- What a read that does not end the stream leaves behind. -/
theorem Standing.received {s : State τ} (h : Standing s) (ht : TornDown s) {w : World}
    (hsteady : w.Steady) (hshut : s.world.Shut → w.Shut)
    (hcase : World.Kept s.world w ∨ ∃ n, World.Kept ((s.world.emit (.message n)).call [.user]) w) :
    TeardownInv (s.setWorld w) := by
  rcases hcase with hkept | ⟨n, hkept⟩
  · refine .of_trace (h.kept hkept hsteady hshut rfl) ht ?_
    exact fun _ _ hmem => hkept.trace ▸ hmem
  · refine .of_trace ⟨hsteady, fun hmem => ?_, fun rest hrest => ?_⟩ ht
      fun state inPoller hmem => ?_
    · rw [State.setWorld, hkept.stack] at hmem
      obtain ⟨hs, hr⟩ := h.removing (by simpa [World.call, World.emit] using hmem)
      exact ⟨hshut hs, removable_congr hkept.self hkept.eventHandling hkept.activeChannels
        hkept.current hr⟩
    · exact hkept.eventHandling.trans (h.idle rest hrest)
    · rw [State.setWorld, hkept.trace] at hmem
      simpa [World.call, World.emit] using hmem

/-- The next call on the stack. -/
theorem Standing.runCall {s : State τ} (h : Standing s) (ht : TornDown s) {call : Call}
    {rest : List Call} (hstack : s.world.stack = call :: rest) (read : Except ℕ (List UInt8))
    {r : WriteResult}
    (hr : call = .handleWrite → r.Within s.world.conn.outputBuffer.readableBytes) :
    Outcome TeardownInv Elsewhere (s.pop.runCall read r call) := by
  have hpop : Standing s.pop := h.pop
  have htpop : TornDown s.pop := ht
  have hphase : ∀ rest, s.pop.phase = .batch rest → s.pop.world.loop.eventHandling = false :=
    hpop.idle
  cases call with
  | handleClose =>
      rcases hpop.steady with hopen | hshut
      · rw [State.runCall, hopen.handleClose]
        exact .ok (.closed htpop hopen (.refl _) (hpop.not_removing hopen) rfl hphase)
      · rw [State.runCall, hshut.handleClose]
        exact .error (.inl rfl)
  | handleRead =>
      rcases hpop.steady with hopen | hshut
      · obtain ⟨w, hw, ⟨hopen', hcase⟩ | ⟨-, w₁, hopen₁, hkept, -, rfl⟩⟩ := hopen.handleRead read
        · rw [State.runCall, hw]
          exact .ok (hpop.received htpop (.inl hopen') (fun hs => absurd hs.state hopen.not_shut)
            hcase)
        · rw [State.runCall, hw]
          exact .ok (.closed htpop hopen₁ hkept (hpop.not_removing hopen) rfl hphase)
      · rcases hshut.handleRead read with hw | ⟨w, hw, hshut', hcase⟩
        · rw [State.runCall, hw]
          exact .error (.inl rfl)
        · rw [State.runCall, hw]
          exact .ok (hpop.received htpop (.inr hshut') (fun _ => hshut') hcase)
  | handleWrite =>
      obtain ⟨w, hw, hevolves⟩ := hpop.steady.handleWrite r (hr rfl)
      rw [State.runCall, hw]
      exact .ok (.quiet hpop htpop (.setWorld _ hevolves))
  | user => exact .ok ⟨fun _ => hpop, htpop⟩
  | closeCallback =>
      refine Standing.removeConnection ⟨hpop.steady.congr rfl rfl, fun hmem => ?_, hphase⟩
        fun state inPoller hmem => ?_
      · obtain ⟨hs, hr⟩ := hpop.removing hmem
        exact ⟨hs.congr rfl rfl, hr⟩
      · exact ht state inPoller (by simpa [State.setWorld, State.pop, World.emit] using hmem)
  | remove =>
      obtain ⟨hshut, hremovable⟩ := h.removing (by simp [hstack])
      have hshut' : s.pop.world.Shut := hshut.congr rfl rfl
      rw [State.runCall, hshut'.remove hremovable]
      refine .ok ⟨fun halive => absurd halive (by simp), fun state inPoller hmem => ?_⟩
      rcases List.mem_append.mp hmem with hmem | hmem
      · exact ht state inPoller hmem
      · simpa using hmem

theorem Started.teardownInv {s : State τ} (h : Started s) : TeardownInv s := by
  obtain ⟨hopen, hstack, htrace⟩ := h.world
  refine ⟨fun _ => ⟨.inl hopen, fun hmem => ?_, fun rest hrest => ?_⟩,
    fun state inPoller hmem => ?_⟩
  · simp [hstack] at hmem
  · rcases h.phase with ⟨-, hidle⟩ | ⟨rest', hphase, -⟩
    · exact hidle
    · rw [hphase] at hrest
      cases hrest
  · simp [htrace] at hmem

/-- The server goes away, and tears its connection down itself if they share a loop. -/
theorem Standing.destroyServer {s : State τ} (h : Standing s) (ht : TornDown s)
    (huntimely : untimely s .destroyServer = false) :
    Outcome TeardownInv Elsewhere s.destroyServer := by
  have hsame : Standing { s with server := { s.server with alive := false, holds := false } } :=
    ⟨h.steady, h.removing, h.idle⟩
  rw [State.destroyServer]
  by_cases hholds : s.server.holds = true
  · rw [if_pos hholds]
    by_cases hloop : s.server.sameLoop = true
    · rw [if_pos hloop]
      have htime : ¬ (s.world.conn.state = .kDisconnecting ∨ ¬ s.world.Removable) :=
        fun hc => of_decide_eq_false huntimely ⟨hloop, hholds, hc⟩
      rw [not_or, not_not] at htime
      obtain ⟨w, hw, hinv⟩ := h.connectDestroyed ht htime.1 htime.2
      rw [hw]
      exact .ok (hinv _ rfl h.idle)
    · rw [if_neg hloop]
      exact .ok (.quiet hsame ht (.setWorld _ (.queueInLoop _ _)))
  · rw [if_neg hholds]
    exact .ok ⟨fun _ => hsame, ht⟩

theorem Standing.activate {s : State τ} (h : Standing s) (ht : TornDown s)
    (hstack : s.world.stack = []) (channel : ℕ) (rest : List ℕ) :
    TeardownInv (s.activate channel rest) := by
  refine .of_trace (s := s) ⟨?_, fun hmem => ?_, fun _ hphase => by cases hphase⟩ ht ?_
  · simp only [State.activate]
    split
    · exact h.steady.congr rfl rfl
    · exact h.steady.congr rfl rfl
  · simp only [State.activate] at hmem
    split at hmem
    · simp only [World.call, hstack, List.append_nil] at hmem
      simpa using mem_handleEvent hmem
    · simp [hstack] at hmem
  · intro state inPoller hmem
    simp only [State.activate] at hmem
    split at hmem <;> exact hmem

variable [DecidableEq τ]

/-- One step of a run in which `connectDestroyed` comes neither too early nor too late. -/
theorem TeardownInv.step (s : State τ) (l : Label τ) (h : TeardownInv s)
    (hl : Enabled s l ∧ late s l = false ∧ untimely s l = false) :
    Outcome TeardownInv Elsewhere (exec s l) := by
  obtain ⟨⟨halive, he⟩, hlate, huntimely⟩ := hl
  have hs : Standing s := h.standing halive
  by_cases hcall : l.IsCall
  · obtain ⟨s', hexec, hq⟩ := exec_call hs.steady hcall he hlate
    rw [hexec]
    exact .ok (.quiet hs h.tornDown hq)
  cases l with
  | removeConnectionInLoop =>
      have hsame : Standing { s with
          server := { s.server with removals := s.server.removals - 1 } } :=
        ⟨hs.steady, hs.removing, hs.idle⟩
      rw [exec]
      by_cases hserver : s.server.alive = true
      · rw [ensure_of _ hserver]
        exact hsame.removeConnectionInLoop h.tornDown
      · rw [ensure_of_not _ hserver]
        exact .error (.inr rfl)
  | destroyServer => exact hs.destroyServer h.tornDown huntimely
  | stopRead =>
      obtain ⟨w, hw, hkept, hsteady, hshut⟩ := hs.stopReadInLoop
      rw [exec, World.stopRead, hw]
      exact .ok (.of_trace (hs.kept hkept hsteady hshut rfl) h.tornDown
        fun _ _ hmem => hkept.trace ▸ hmem)
  | poll active revents =>
      obtain ⟨-, hstack, -⟩ := he
      refine .ok (.of_trace (s := s) ⟨hs.steady.congr rfl rfl, fun hmem => ?_,
        fun _ hphase => by cases hphase⟩ h.tornDown fun _ _ hmem => hmem)
      rw [show _ = [] from hstack] at hmem
      cases hmem
  | nextChannel =>
      rcases exec_nextChannel_cases s with hexec | ⟨channel, rest, -, hexec⟩
      · rw [hexec]
        exact .ok h
      · rw [hexec]
        exact .ok (hs.activate h.tornDown he channel rest)
  | doPendingFunctors =>
      refine .ok (.of_trace (s := s) ⟨hs.steady.congr rfl rfl, fun hmem => ?_, fun _ _ => rfl⟩
        h.tornDown fun _ _ hmem => hmem)
      rw [show _ = [] from he.1] at hmem
      cases hmem
  | runFunctor r =>
      obtain ⟨hstack, hwithin⟩ := he
      rcases exec_runFunctor_cases s r with hexec | ⟨f, rest, hphase, hnext⟩
      · rw [hexec]
        exact .ok h
      · obtain ⟨w, hw, hinv⟩ := hs.runFunctor h.tornDown hphase hstack (hwithin f hnext)
          (fun hf hst => of_decide_eq_false hlate ⟨by rw [hnext, hf], hst⟩)
          (fun hf hst => of_decide_eq_false huntimely ⟨by rw [hnext, hf], hst⟩)
        rw [exec_runFunctor hphase, hw]
        exact .ok hinv
  | endBatch =>
      exact .ok ⟨fun _ => ⟨hs.steady, hs.removing, fun _ hphase => by cases hphase⟩, h.tornDown⟩
  | runCall read r =>
      rcases exec_runCall_cases s read r with hexec | ⟨call, rest, hstack, hexec⟩
      · rw [hexec]
        exact .ok h
      · rw [hexec]
        refine hs.runCall h.tornDown hstack read fun hcall => ?_
        exact he (by rw [hstack, hcall]; rfl)
  | _ => exact absurd trivial hcall

/-- In every run, whoever calls `connectDestroyed`, no assertion on the way fails and it
leaves the connection disconnected and its channel out of the poller, provided it does
not meet a half-closed connection or a channel still to be handled, and nothing switches
a closed connection on again. -/
theorem teardown_succeeds {s : State τ} (hs : Started s) (ls : List (Label τ))
    (hl : LegalRun exec (fun s l => Enabled s l ∧ late s l = false ∧ untimely s l = false) s ls) :
    Outcome TornDown Elsewhere (run exec s ls) := by
  have hout := run_outcome TeardownInv.step hs.teardownInv hl
  exact hout.mono fun _ h => h.tornDown

/-- The peer closes, the server in its own loop removes the connection, and the loop of
the connection destroys it. -/
theorem teardown_succeeds_after_close :
    let ls : List (Label Unit) := [.runCall (.ok []) (.wrote 0), .endBatch,
      .poll [1] ⟨true, false, false, false, true, false, false⟩, .nextChannel,
      .runCall (.ok []) (.wrote 0), .runCall (.ok []) (.wrote 0), .runCall (.ok []) (.wrote 0),
      .doPendingFunctors, .endBatch, .removeConnectionInLoop,
      .poll [] ⟨false, false, false, false, false, false, false⟩, .doPendingFunctors,
      .runFunctor (.wrote 0), .runCall (.ok []) (.wrote 0)]
    Outcome TornDown Elsewhere (run exec (freshStart false) ls) ∧
      ∃ s, run exec (freshStart false) ls = .ok s ∧
        .destroyed .kDisconnected false ∈ s.world.trace := by
  intro ls
  constructor
  · apply teardown_succeeds (freshStart_started false) ls
    decide +kernel
  · decide +kernel

/-- The server is destructed while a half-close is pending: `connectDestroyed` finds
`kDisconnecting`, leaves reading on, and `Channel::remove` fails its assertion. -/
theorem teardown_fails_disconnecting :
    let ls : List (Label Unit) := [.runCall (.ok []) (.wrote 0), .endBatch,
      .testClose () .shutdown, .setDisconnecting (), .queueClose (), .destroyServer,
      .poll [] ⟨false, false, false, false, false, false, false⟩, .doPendingFunctors,
      .runFunctor (.wrote 0), .runFunctor (.wrote 0), .runCall (.ok []) (.wrote 0)]
    LegalRun exec Enabled (freshStart false) ls ∧
      run exec (freshStart false) ls = .error (.loop .removeEvents) := by
  intro ls
  exact ⟨by decide +kernel, eq_error_of_outcome (by decide +kernel)⟩

end Muduo.System.Lifecycle
