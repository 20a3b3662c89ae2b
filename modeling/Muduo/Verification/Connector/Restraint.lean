import Muduo.Verification.Connector.Accounting
import Mathlib.Data.Fintype.Basic

/-! When the assertions of a connector hold. A start that finds the connector at rest is the
only one under way until it has become an attempt, a retry or nothing; the proof follows it
from place to place. -/

namespace Muduo.System.Connecting

open Library Net Connector

variable {τ : Type}

/-- No attempt is under way and none is due. -/
structure AtRest (s : State τ) : Prop where
  state : s.world.self.state = .kDisconnected
  channel : s.world.self.channel = none
  timers : s.world.timers = []
  functors : .startInLoop ∉ s.functors
  calls : .startInLoop ∉ s.world.stack ∧ .connect ∉ s.world.stack
  threads : ∀ t, s.pc t ≠ .starting

instance (s : State τ) [Fintype τ] : Decidable (AtRest s) :=
  decidable_of_iff
    (s.world.self.state = .kDisconnected ∧ s.world.self.channel = none ∧ s.world.timers = [] ∧
      .startInLoop ∉ s.functors ∧ (.startInLoop ∉ s.world.stack ∧ .connect ∉ s.world.stack) ∧
      ∀ t, s.pc t ≠ .starting)
    ⟨fun ⟨h₁, h₂, h₃, h₄, h₅, h₆⟩ => ⟨h₁, h₂, h₃, h₄, h₅, h₆⟩,
      fun ⟨h₁, h₂, h₃, h₄, h₅, h₆⟩ => ⟨h₁, h₂, h₃, h₄, h₅, h₆⟩⟩

/-- `start` is called on a connector at rest, and a retry begins after `resetChannel`. The
connector is not restarted. -/
def Restrained (s : State τ) : Label τ → Prop
  | .setStart _ => AtRest s
  | .start => AtRest s
  | .restart => False
  | .fireTimer _ => s.world.self.channel = none
  | _ => True

instance [Fintype τ] (s : State τ) : ∀ l : Label τ, Decidable (Restrained s l)
  | .setStart _ => inferInstanceAs (Decidable (AtRest s))
  | .start => inferInstanceAs (Decidable (AtRest s))
  | .restart => .isFalse id
  | .fireTimer _ => inferInstanceAs (Decidable (_ = _))
  | .queueStart _ => .isTrue trivial
  | .setStop _ => .isTrue trivial
  | .queueStop _ => .isTrue trivial
  | .stop => .isTrue trivial
  | .closeHanded _ => .isTrue trivial
  | .poll _ => .isTrue trivial
  | .nextChannel => .isTrue trivial
  | .doPendingFunctors => .isTrue trivial
  | .runFunctor => .isTrue trivial
  | .endBatch => .isTrue trivial
  | .runCall _ => .isTrue trivial

/-! ### The place of the start -/

inductive Place (τ : Type) where
  | nowhere
  | timer
  | queued
  | called
  | thread (t : τ)

namespace Place

def timers : Place τ → ℕ
  | .timer => 1
  | _ => 0

def functors : Place τ → ℕ
  | .queued => 1
  | _ => 0

def calls : Place τ → ℕ
  | .called => 1
  | _ => 0

end Place

/-- The start is at `place`, and there is no other. -/
structure Placed (s : State τ) (place : Place τ) : Prop where
  timers : s.world.timers.length = place.timers
  functors : s.functors.count .startInLoop = place.functors
  calls : s.world.stack.count .startInLoop + s.world.stack.count .connect = place.calls
  threads : ∀ t, s.pc t = .starting ↔ place = .thread t

/-- A start waits while the connector is disconnected. A retry may have been scheduled before
`resetChannel`. -/
structure Settled (c : Connector) (place : Place τ) : Prop where
  disconnected : place ≠ .nowhere → c.state = .kDisconnected
  released : place ≠ .nowhere → place ≠ .timer → c.channel = none
  attached : ∀ ch ∈ c.channel, ch.addedToLoop = true → c.state = .kConnecting

/-- Once connected, the connector is not called by its channel again. -/
def WritesOnce (w : Connector.World) : Prop :=
  w.stack.count .handleWrite ≤ if w.self.state = .kConnected then 0 else 1

structure Alone (s : State τ) (place : Place τ) : Prop where
  placed : Placed s place
  settled : Settled s.world.self place
  writes : WritesOnce s.world

/-- Without a start only a registered channel matters. -/
theorem settled_nowhere {c : Connector}
    (h : ∀ ch ∈ c.channel, ch.addedToLoop = true → c.state = .kConnecting) :
    Settled c (.nowhere : Place τ) :=
  ⟨fun hne => absurd rfl hne, fun hne => absurd rfl hne, h⟩

theorem alone_start : Alone (start : State τ) .nowhere where
  placed := ⟨rfl, rfl, rfl, fun t => by constructor <;> intro h <;> cases h⟩
  settled := settled_nowhere fun ch h => by cases h
  writes := Nat.zero_le _

variable {s : State τ} {place : Place τ} {slot slot' : Slot} {w' : Connector.World}

theorem AtRest.nowhere (h : AtRest s) (hplaced : Placed s place) : place = .nowhere := by
  cases place with
  | nowhere => rfl
  | timer =>
      have htimers := hplaced.timers
      rw [h.timers] at htimers
      cases htimers
  | queued =>
      have hfunctors := hplaced.functors
      rw [List.count_eq_zero.mpr h.functors] at hfunctors
      cases hfunctors
  | called =>
      have hcalls := hplaced.calls
      rw [List.count_eq_zero.mpr h.calls.1, List.count_eq_zero.mpr h.calls.2] at hcalls
      cases hcalls
  | thread t => exact absurd ((hplaced.threads t).mpr rfl) (h.threads t)

theorem Settled.nowhere {c : Connector} (h : Settled c place) (hstate : c.state = .kConnecting) :
    place = .nowhere := by
  by_contra hplace
  have hdisconnected := h.disconnected hplace
  rw [hstate] at hdisconnected
  cases hdisconnected

/-! ### Steps of the connector -/

/-- The start is at `place'` when the functors and calls that a step adds are counted. -/
theorem Placed.setWorld {place' : Place τ} (h : Placed s place)
    (htimers : w'.timers.length = place'.timers) (functors : List Functor)
    (hpending : w'.loop.pendingFunctors = s.world.loop.pendingFunctors ++ functors)
    (hfunctors : place.functors + functors.count .startInLoop = place'.functors)
    (calls : List Call) (hstack : w'.stack = calls ++ s.world.stack)
    (hcalls : place.calls + (calls.count .startInLoop + calls.count .connect) = place'.calls)
    (hthreads : ∀ t, place = .thread t ↔ place' = .thread t) : Placed (s.setWorld w') place' where
  timers := htimers
  functors := by rw [functors_setWorld hpending, List.count_append, h.functors, hfunctors]
  calls := by
    have hbefore := h.calls
    rw [show (s.setWorld w').world.stack = calls ++ s.world.stack from hstack,
      List.count_append, List.count_append]
    omega
  threads t := (h.threads t).trans (hthreads t)

theorem Placed.unmoved (h : Placed s place) (htimers : w'.timers = s.world.timers)
    (hpending : w'.loop.pendingFunctors = s.world.loop.pendingFunctors)
    (hstack : w'.stack = s.world.stack) : Placed (s.setWorld w') place :=
  h.setWorld ((congrArg _ htimers).trans h.timers) [] (by rw [hpending, List.append_nil]) rfl []
    hstack rfl fun _ => Iff.rfl

/-- A call is made; it may be the start. -/
theorem Placed.call {place' : Place τ} (h : Placed s place) (call : Call)
    (htimers : w'.timers.length = place'.timers)
    (hpending : w'.loop.pendingFunctors = s.world.loop.pendingFunctors)
    (hfunctors : place.functors = place'.functors) (hstack : w'.stack = call :: s.world.stack)
    (hcalls : place.calls + ([call].count .startInLoop + [call].count .connect) = place'.calls)
    (hthreads : ∀ t, place = .thread t ↔ place' = .thread t) : Placed (s.setWorld w') place' :=
  h.setWorld htimers [] (by rw [hpending, List.append_nil]) hfunctors [call] hstack hcalls hthreads

theorem WritesOnce.count_le {w : Connector.World} (h : WritesOnce w) :
    w.stack.count .handleWrite ≤ 1 := by
  unfold WritesOnce at h
  split at h <;> omega

/-- The result of a step that succeeds and leaves at most one start. -/
def Succeeds (x : Except Fault (State τ)) : Prop := ∃ s', x = .ok s' ∧ ∃ place, Alone s' place

theorem Alone.succeeds (h : Alone s place) : Succeeds (.ok s) := ⟨s, rfl, place, h⟩

/-- The loop moves on without touching the connector. -/
theorem Alone.moved {s' : State τ} (h : Alone s place) (hself : s'.world.self = s.world.self)
    (htimers : s'.world.timers = s.world.timers) (hstack : s'.world.stack = s.world.stack)
    (hpc : s'.pc = s.pc)
    (hfunctors : s'.functors.count .startInLoop = s.functors.count .startInLoop) :
    Succeeds (.ok s') := by
  refine ⟨s', rfl, place, ⟨?_, ?_, ?_, ?_⟩, ?_, ?_⟩
  · rw [htimers, h.placed.timers]
  · rw [hfunctors, h.placed.functors]
  · rw [hstack, h.placed.calls]
  · rw [hpc]
    exact h.placed.threads
  · rw [hself]
    exact h.settled
  · rw [WritesOnce, hstack, hself]
    exact h.writes

theorem Alone.queueInLoop (h : Alone s place) {f : Functor} (hf : f ≠ .startInLoop) :
    Alone (s.setWorld (s.world.queueInLoop f)) place where
  placed := by
    refine h.placed.setWorld h.placed.timers [f] rfl ?_ [] rfl rfl fun t => Iff.rfl
    rw [List.count_singleton, if_neg (by simpa using hf)]
    rfl
  settled := h.settled
  writes := h.writes

theorem startInLoop_succeeds (hplaced : Placed s .nowhere)
    (hstate : s.world.self.state = .kDisconnected) (hchannel : s.world.self.channel = none)
    (hwrites : WritesOnce s.world) : Succeeds (s.world.startInLoop.map s.setWorld) := by
  have hattached (ch : Channel) (hch : ch ∈ s.world.self.channel) :
      ch.addedToLoop = true → s.world.self.state = .kConnecting := by
    rw [hchannel] at hch
    cases hch
  rw [World.startInLoop, ensure_of _ hstate, ok_bind]
  split_ifs
  · refine ⟨_, rfl, .called, ?_, ⟨fun _ => hstate, fun _ _ => hchannel, hattached⟩, hwrites⟩
    exact hplaced.call .connect hplaced.timers rfl rfl rfl rfl (by simp)
  · exact ⟨_, rfl, .nowhere, hplaced, settled_nowhere hattached, hwrites⟩

/-- `retry` schedules a start, or there is none. -/
theorem retry_alone (hplaced : Placed s .nowhere) (hwrites : WritesOnce s.world)
    {w : Connector.World} (sockfd : ℤ) (htimers : w.timers = s.world.timers)
    (functors : List Functor)
    (hpending : w.loop.pendingFunctors = s.world.loop.pendingFunctors ++ functors)
    (hfunctors : functors.count .startInLoop = 0) (hstack : w.stack = s.world.stack)
    (hreleased : ∀ ch ∈ w.self.channel, ch.addedToLoop = false) :
    ∃ place, Alone (s.setWorld (w.retry sockfd)) place := by
  have hzero : s.world.timers.length = 0 := hplaced.timers
  have hnone : 0 + functors.count .startInLoop = 0 := by rw [hfunctors]
  have hpending' : (w.retry sockfd).loop.pendingFunctors =
      s.world.loop.pendingFunctors ++ functors := by rw [World.retry_loop, hpending]
  have hstack' : (w.retry sockfd).stack = s.world.stack := by rw [World.retry_stack, hstack]
  have hsettled (place : Place τ) (hplace : place ≠ .nowhere → place = .timer) :
      Settled (w.retry sockfd).self place := by
    refine ⟨fun _ => World.retry_state .., fun hne hne' => absurd (hplace hne) hne', ?_⟩
    intro ch hch hadded
    rw [World.retry_channel] at hch
    rw [hreleased ch hch] at hadded
    cases hadded
  have hwrites' : WritesOnce (w.retry sockfd) := by
    rw [WritesOnce, World.retry_state, World.retry_stack, hstack]
    exact hwrites.count_le
  cases hconnect : w.self.connect with
  | true =>
      refine ⟨.timer, ?_, hsettled .timer fun _ => rfl, hwrites'⟩
      refine hplaced.setWorld ?_ functors hpending' hnone [] hstack' rfl (by simp)
      rw [World.retry_timers, if_pos hconnect, List.length_append, htimers, hzero]
      rfl
  | false =>
      refine ⟨.nowhere, ?_, hsettled .nowhere fun h => absurd rfl h, hwrites'⟩
      refine hplaced.setWorld ?_ functors hpending' hnone [] hstack' rfl (by simp)
      rw [World.retry_timers, if_neg (ne_true_of_eq_false hconnect), htimers]
      exact hzero

theorem connect_succeeds (hplaced : Placed s .nowhere) (hcore : Core s.world .empty [])
    (hwrites : WritesOnce s.world) {r : Replies}
    (hfd : s.world.sockets.names r.sockfd = none) :
    Succeeds ((s.world.connect r.sockfd r.savedErrno).map s.setWorld) := by
  have hnone (ch : Channel) (hch : ch ∈ s.world.self.channel) : False := by
    rw [hcore.channel] at hch
    cases hch
  obtain ⟨w', heq, slot', hattempt⟩ :=
    (hcore.connect hfd r.savedErrno).exists_ok fun e he => he.2 rfl
  rw [heq]
  refine ⟨_, rfl, ?_⟩
  cases hattempt with
  | close =>
      refine ⟨.nowhere, hplaced.unmoved rfl rfl rfl, settled_nowhere ?_, hwrites⟩
      exact fun ch hch => (hnone ch hch).elim
  | retry =>
      exact retry_alone hplaced hwrites r.sockfd rfl [] (List.append_nil _).symm rfl rfl
        fun ch hch => (hnone ch hch).elim
  | connecting =>
      exact ⟨.nowhere, hplaced.unmoved rfl rfl rfl, settled_nowhere fun _ _ _ => rfl,
        hwrites.count_le⟩

theorem Alone.release (h : Alone s place) (hcore : Core s.world slot [])
    (hrelease : Release s.world slot w' slot') : ∃ place', Alone (s.setWorld w') place' := by
  cases hrelease with
  | skip => exact ⟨place, h⟩
  | retry sockfd i =>
      have hstate : s.world.self.state = .kConnecting := h.settled.attached _ hcore.channel rfl
      obtain rfl := h.settled.nowhere hstate
      refine retry_alone h.placed h.writes sockfd rfl [.resetChannel] rfl rfl rfl ?_
      intro ch hch
      obtain rfl := Option.some.inj hch
      rfl

theorem Alone.establish (h : Alone s place) (hcore : Core s.world slot [])
    (hlast : s.world.stack.count .handleWrite = 0)
    (hestablish : Establish s.world slot w' slot') : ∃ place', Alone (s.setWorld w') place' := by
  have hreleased (sockfd : ℤ) (i : ℕ) (ch : Channel) (hch : ch ∈ (Slot.removed sockfd i).channel) :
      ch.addedToLoop = true → States.kConnected = .kConnecting := by
    obtain rfl := Option.some.inj hch
    exact Bool.noConfusion
  cases hestablish with
  | hand sockfd i =>
      obtain rfl := h.settled.nowhere (h.settled.attached _ hcore.channel rfl)
      refine ⟨.nowhere, ?_, settled_nowhere (hreleased sockfd i), ?_⟩
      · exact h.placed.setWorld h.placed.timers [.resetChannel] rfl rfl [.user] rfl rfl (by simp)
      · exact hlast.le
  | close sockfd i =>
      obtain rfl := h.settled.nowhere (h.settled.attached _ hcore.channel rfl)
      refine ⟨.nowhere, ?_, settled_nowhere (hreleased sockfd i), ?_⟩
      · exact h.placed.setWorld h.placed.timers [.resetChannel] rfl rfl [] rfl rfl (by simp)
      · exact hlast.le

/-! ### Steps of the loop -/

/-- A call that is no start leaves the stack. -/
theorem Alone.pop (h : Alone s place) {call : Call} {rest : List Call}
    (hstack : s.world.stack = call :: rest) (hstart : call ≠ .startInLoop)
    (hconnect : call ≠ .connect) : Alone s.pop place where
  placed := by
    refine ⟨h.placed.timers, h.placed.functors, ?_, h.placed.threads⟩
    have hcalls := h.placed.calls
    rw [hstack, List.count_cons_of_ne hstart, List.count_cons_of_ne hconnect] at hcalls
    rwa [State.pop, State.setWorld, hstack]
  settled := h.settled
  writes := by
    refine le_trans ?_ h.writes
    exact (List.tail_sublist _).count_le _

/-- A start is taken from the stack. -/
theorem Placed.pop_start (h : Placed s place) {call : Call} {rest : List Call}
    (hstack : s.world.stack = call :: rest) (hcall : call = .startInLoop ∨ call = .connect) :
    place = .called ∧ Placed s.pop .nowhere := by
  have hcalls := h.calls
  have hcount : rest.count .startInLoop + rest.count .connect + 1 = place.calls := by
    rw [hstack] at hcalls
    rcases hcall with rfl | rfl <;>
      · simp only [List.count_cons, beq_self_eq_true, if_true] at hcalls
        simp at hcalls
        omega
  cases place with
  | called =>
      refine ⟨rfl, h.timers, h.functors, ?_, fun t => (h.threads t).trans (by simp)⟩
      rw [State.pop, State.setWorld, hstack]
      exact Nat.succ.inj hcount
  | _ => cases hcount

theorem Alone.nextFunctor (h : Alone s place) {f : Functor} {rest : List Functor}
    (hphase : s.phase = .batch (f :: rest)) (hf : f ≠ .startInLoop) :
    Alone { s with phase := .batch rest } place where
  placed := by
    refine ⟨h.placed.timers, ?_, h.placed.calls, h.placed.threads⟩
    have hfunctors := h.placed.functors
    rwa [functors_batch hphase, List.cons_append, List.count_cons_of_ne hf] at hfunctors
  settled := h.settled
  writes := h.writes

/-- A start is taken from the batch. -/
theorem Placed.nextFunctor_start (h : Placed s place) {rest : List Functor}
    (hphase : s.phase = .batch (.startInLoop :: rest)) :
    place = .queued ∧ Placed { s with phase := .batch rest } .nowhere := by
  have hfunctors := h.functors
  rw [functors_batch hphase, List.cons_append, List.count_cons_self] at hfunctors
  cases place with
  | queued =>
      exact ⟨rfl, h.timers, Nat.succ.inj hfunctors, h.calls, fun t => (h.threads t).trans (by simp)⟩
  | _ => cases hfunctors

theorem count_handleEvent (revents : Revents) :
    (handleEvent revents).count .startInLoop + (handleEvent revents).count .connect = 0 ∧
      (handleEvent revents).count .handleWrite ≤ 1 := by
  rw [handleEvent]
  split_ifs <;> decide

theorem Alone.activate (h : Alone s place) (hinv : Inv s slot) {channel : ℕ} {revents : Revents}
    {rest : List (ℕ × Revents)} (hstack : s.world.stack = [])
    (hphase : s.phase = .events ((channel, revents) :: rest)) :
    Succeeds (s.activate channel revents rest) := by
  have hfunctors : s.world.loop.pendingFunctors.count .startInLoop = place.functors := by
    have hfunctors := h.placed.functors
    rwa [State.functors, hphase] at hfunctors
  rw [State.activate]
  split_ifs with hzero
  · exact ⟨_, rfl, place, ⟨h.placed.timers, hfunctors, h.placed.calls, h.placed.threads⟩, h.settled,
      h.writes⟩
  · obtain ⟨hregistered, haddress⟩ := (hinv.turns _ hphase).listed _ List.mem_cons_self hzero
    have hchannel : s.world.self.channel.map Channel.self = some channel := by
      rw [hinv.core.channel, Slot.channel_address, haddress]
    have hstate : s.world.self.state = .kConnecting := by
      cases slot with
      | registered sockfd i => exact h.settled.attached _ hinv.core.channel rfl
      | empty => exact hregistered.elim
      | removed sockfd i => exact hregistered.elim
    obtain rfl := h.settled.nowhere hstate
    obtain ⟨hcalls, hwrite⟩ := count_handleEvent revents
    have hpushed : handleEvent revents ++ s.world.stack = handleEvent revents := by
      rw [hstack, List.append_nil]
    rw [ensure_of _ hchannel, ok_bind]
    refine ⟨_, rfl, .nowhere, ⟨h.placed.timers, hfunctors, ?_, h.placed.threads⟩, h.settled, ?_⟩
    · exact (congrArg (fun l => l.count .startInLoop + l.count .connect) hpushed).trans hcalls
    · refine (congrArg (List.count .handleWrite) hpushed).trans_le (hwrite.trans_eq ?_)
      have hne : s.world.self.state ≠ .kConnected := by
        rw [hstate]
        decide
      exact (if_neg hne).symm

variable [DecidableEq τ]

theorem Alone.runCall (h : Alone s place) (hinv : Inv s slot) {r : Replies}
    (henabled : s.world.stack.head? = some .connect →
      0 ≤ r.sockfd ∧ s.world.sockets.names r.sockfd = none) :
    Succeeds (exec s (.runCall r)) := by
  rw [exec]
  split
  next call rest hstack =>
    have hwrites : WritesOnce s.pop.world := ((List.tail_sublist _).count_le _).trans h.writes
    cases call with
    | startInLoop =>
        obtain ⟨rfl, hplaced⟩ := h.placed.pop_start hstack (.inl rfl)
        exact startInLoop_succeeds hplaced (h.settled.disconnected (by simp))
          (h.settled.released (by simp) (by simp)) hwrites
    | connect =>
        obtain ⟨rfl, hplaced⟩ := h.placed.pop_start hstack (.inr rfl)
        have hchannel := h.settled.released (by simp) (by simp)
        obtain rfl : slot = .empty :=
          Slot.channel_eq_none.mp (hinv.core.channel.symm.trans hchannel)
        exact connect_succeeds hplaced hinv.pop.core hwrites (henabled (by rw [hstack]; rfl)).2
    | queueStop =>
        exact ((h.pop hstack (by decide) (by decide)).queueInLoop (by decide)).succeeds
    | handleError =>
        have hpop := h.pop hstack (by decide) (by decide)
        obtain ⟨w', slot', heq, hrelease⟩ :=
          hinv.pop.core.handleError hinv.waits (hinv.turn_of_stack hstack (.inl rfl))
        rw [State.runCall, heq]
        exact ⟨_, rfl, hpop.release hinv.pop.core hrelease⟩
    | handleWrite =>
        have hpop := h.pop hstack (by decide) (by decide)
        -- the call itself is the one that may be left
        have hwrite := h.writes
        rw [WritesOnce, hstack, List.count_cons_self] at hwrite
        have hstate : s.world.self.state ≠ .kConnected := by
          intro hstate
          rw [if_pos hstate] at hwrite
          cases hwrite
        have hlast : s.pop.world.stack.count .handleWrite = 0 := by
          rw [if_neg hstate] at hwrite
          rw [State.pop, State.setWorld, hstack]
          exact Nat.le_zero.mp (Nat.le_of_succ_le_succ hwrite)
        obtain ⟨w', heq, slot', hrelease | hestablish⟩ :=
          (hinv.pop.core.handleWrite hinv.waits (hinv.turn_of_stack hstack (.inr rfl)) r.err
            r.isSelfConnect).exists_ok fun e he => hstate he.2
        · rw [State.runCall, heq]
          exact ⟨_, rfl, hpop.release hinv.pop.core hrelease⟩
        · rw [State.runCall, heq]
          exact ⟨_, rfl, hpop.establish hinv.pop.core hlast hestablish⟩
    | user => exact (h.pop hstack (by decide) (by decide)).succeeds
  next => exact h.succeeds

theorem Alone.runFunctor (h : Alone s place) (hinv : Inv s slot) :
    Succeeds (exec s .runFunctor) := by
  rw [exec]
  split
  next f rest hphase =>
    cases f with
    | startInLoop =>
        obtain ⟨rfl, hplaced⟩ := h.placed.nextFunctor_start hphase
        exact startInLoop_succeeds hplaced (h.settled.disconnected (by simp))
          (h.settled.released (by simp) (by simp)) h.writes
    | stopInLoop =>
        have hnext := hinv.nextFunctor hphase (by decide)
        obtain ⟨w', slot', heq, hrelease⟩ :=
          hnext.core.stopInLoop hnext.waits (hinv.turn_of_batch hphase)
        rw [Connector.World.runFunctor, heq]
        exact ⟨_, rfl, (h.nextFunctor hphase (by decide)).release hnext.core hrelease⟩
    | resetChannel =>
        obtain ⟨sockfd, i, rfl, -⟩ := hinv.resetChannel hphase
        have hnext := h.nextFunctor hphase (by decide)
        rw [Connector.World.runFunctor, hinv.core.resetChannel]
        exact ⟨_, rfl, place, ⟨hnext.placed.timers, hnext.placed.functors, hnext.placed.calls,
          hnext.placed.threads⟩,
          ⟨h.settled.disconnected, fun _ _ => rfl, fun ch hch => by cases hch⟩, h.writes⟩
  next => exact h.succeeds

/-! ### Every step -/

theorem setPc_self (t : τ) (pc : Pc) : (s.setPc t pc).pc t = pc := Function.update_self ..

theorem setPc_of_ne {t t' : τ} (pc : Pc) (h : t' ≠ t) : (s.setPc t pc).pc t' = s.pc t' :=
  Function.update_of_ne h ..

theorem Alone.setPc (h : Alone s place) (t : τ) (pc : Pc) (hpc : pc ≠ .starting)
    (ht : s.pc t ≠ .starting) : Alone (s.setPc t pc) place where
  placed := by
    refine ⟨h.placed.timers, h.placed.functors, h.placed.calls, fun t' => ?_⟩
    by_cases heq : t' = t
    · subst heq
      have hplace : place ≠ .thread t' := fun hplace => ht ((h.placed.threads t').mpr hplace)
      simp [setPc_self, hpc, hplace]
    · rw [setPc_of_ne pc heq]
      exact h.placed.threads t'
  settled := h.settled
  writes := h.writes

theorem Placed.setStart (h : Placed s .nowhere) (t : τ) :
    Placed (s.setPc t .starting) (.thread t) := by
  refine ⟨h.timers, h.functors, h.calls, fun t' => ?_⟩
  by_cases heq : t' = t
  · subst heq
    simp [setPc_self]
  · rw [setPc_of_ne _ heq, h.threads t']
    simp [Ne.symm heq]

theorem Placed.queueStart {t : τ} (h : Placed s (.thread t)) :
    Placed ((s.setPc t .idle).setWorld (s.world.queueInLoop .startInLoop)) .queued := by
  have hidle : Placed (s.setPc t .idle) .nowhere := by
    refine ⟨h.timers, h.functors, h.calls, fun t' => ?_⟩
    by_cases heq : t' = t
    · subst heq
      simp [setPc_self]
    · rw [setPc_of_ne _ heq, h.threads t']
      simp [Ne.symm heq]
  exact hidle.setWorld hidle.timers [.startInLoop] rfl rfl [] rfl rfl (by simp)

theorem exec_succeeds (h : Alone s place) (hinv : Inv s slot) {l : Label τ}
    (henabled : Enabled s l) (hrestrained : Restrained s l) : Succeeds (exec s l) := by
  cases l with
  | setStart t =>
      have hrest : AtRest s := hrestrained
      obtain rfl := hrest.nowhere h.placed
      have hplaced := h.placed.setStart t
      exact ⟨_, rfl, .thread t, ⟨hplaced.timers, hplaced.functors, hplaced.calls, hplaced.threads⟩,
        ⟨fun _ => hrest.state, fun _ _ => hrest.channel, h.settled.attached⟩, h.writes⟩
  | queueStart t =>
      obtain rfl := (h.placed.threads t).mp henabled
      exact ⟨_, rfl, .queued, h.placed.queueStart,
        ⟨fun _ => h.settled.disconnected (by simp),
          fun _ _ => h.settled.released (by simp) (by simp), h.settled.attached⟩,
        h.writes⟩
  | setStop t =>
      have hidle : s.pc t = .idle := henabled
      have hpc := h.setPc t .stopping (by decide) (by simp [hidle])
      exact ⟨_, rfl, place, hpc.placed.unmoved rfl rfl rfl,
        ⟨h.settled.disconnected, h.settled.released, h.settled.attached⟩, h.writes⟩
  | queueStop t =>
      have hstopping : s.pc t = .stopping := henabled
      have hpc := h.setPc t .idle (by decide) (by simp [hstopping])
      exact (hpc.queueInLoop (by decide)).succeeds
  | start =>
      have hrest : AtRest s := hrestrained
      obtain rfl := hrest.nowhere h.placed
      refine ⟨_, rfl, .called, ?_, ⟨fun _ => hrest.state, fun _ _ => hrest.channel,
        h.settled.attached⟩, h.writes⟩
      exact h.placed.call .startInLoop h.placed.timers rfl rfl rfl rfl (by simp)
  | stop =>
      refine ⟨_, rfl, place, ?_, ⟨h.settled.disconnected, h.settled.released, h.settled.attached⟩,
        h.writes⟩
      exact h.placed.call .queueStop h.placed.timers rfl rfl rfl rfl fun t => Iff.rfl
  | restart => exact hrestrained.elim
  | closeHanded sockfd => exact h.moved rfl rfl rfl rfl rfl
  | fireTimer i =>
      obtain ⟨-, -, -, hi⟩ := henabled
      have htimers := h.placed.timers
      cases place with
      | timer =>
          refine ⟨_, rfl, .called, ?_, ⟨fun _ => h.settled.disconnected (by simp),
            fun _ _ => hrestrained, h.settled.attached⟩, h.writes⟩
          refine h.placed.call .startInLoop ?_ rfl rfl rfl rfl (by simp)
          exact (List.length_eraseIdx_of_lt hi).trans (by rw [htimers]; rfl)
      | _ => exact absurd hi (by rw [htimers]; exact Nat.not_lt_zero i)
  | poll active =>
      refine h.moved rfl rfl rfl rfl ?_
      rw [State.functors, State.functors, show s.phase = .poll from henabled.2.1]
  | nextChannel =>
      rw [exec]
      split
      next channel revents rest hphase => exact h.activate hinv henabled.1 hphase
      next => exact h.succeeds
  | doPendingFunctors =>
      refine h.moved rfl rfl rfl rfl ?_
      rw [State.functors, State.functors, henabled.2]
      simp
  | runFunctor => exact h.runFunctor hinv
  | endBatch =>
      refine h.moved rfl rfl rfl rfl ?_
      rw [functors_batch henabled.2]
      rfl
  | runCall r => exact h.runCall hinv henabled

/-! ### Whole runs -/

/-- The socket `i` was created for an attempt that has not ended. -/
def InProgress (w : Connector.World) (i : ℕ) : Prop :=
  i < w.sockets.created ∧ i ∉ w.sockets.closed ∧ i ∉ w.sockets.handed

theorem inProgress_unique {w : Connector.World} (h : Core w slot []) {i j : ℕ}
    (hi : InProgress w i) (hj : InProgress w j) : i = j := by
  have howned {k : ℕ} (hk : InProgress w k) : k ∈ slot.owned.map Prod.snd := by
    obtain ⟨hlt, hclosed, hhanded⟩ := hk
    have hfate := h.sockets.fate k
    rw [if_pos hlt, List.count_eq_zero.mpr hclosed, List.count_eq_zero.mpr hhanded] at hfate
    refine List.count_pos_iff.mp ?_
    rw [List.nil_append] at hfate
    omega
  have hmem := howned hi
  have hmem' := howned hj
  cases slot with
  | registered sockfd k =>
      exact (List.mem_singleton.mp hmem).trans (List.mem_singleton.mp hmem').symm
  | empty => cases hmem
  | removed sockfd k => cases hmem

/-- For every interleaving of starts, stops, retries, events and functors in which a start
finds the connector at rest and a retry finds `channel_` reset, no assertion fails and at most
one attempt is in progress. -/
theorem restrained_use_tolerated {labels : List (Label τ)}
    (hlegal : LegalRun exec (fun s l => Enabled s l ∧ Restrained s l) start labels) :
    ∃ s, run exec start labels = .ok s ∧
      ∀ i j, InProgress s.world i → InProgress s.world j → i = j := by
  have hstep : ∀ (s : State τ) (l : Label τ),
      ((∃ slot, Inv s slot) ∧ ∃ place, Alone s place) → (Enabled s l ∧ Restrained s l) →
      ∃ s', exec s l = .ok s' ∧ (∃ slot, Inv s' slot) ∧ ∃ place, Alone s' place := by
    rintro s l ⟨⟨slot, hinv⟩, place, halone⟩ ⟨henabled, hrestrained⟩
    obtain ⟨s', hexec, halone'⟩ := exec_succeeds halone hinv henabled hrestrained
    have hgoes := (exec_goes hinv henabled).of_eq_ok hexec
    exact ⟨s', hexec, hgoes.1, halone'⟩
  obtain ⟨s, hrun, ⟨slot, hinv⟩, -⟩ :=
    run_invariant hstep ⟨⟨.empty, inv_start⟩, .nowhere, alone_start⟩ hlegal
  exact ⟨s, hrun, fun i j => inProgress_unique hinv.core⟩

/-- A thread starts the connector; the attempt fails, is retried and stopped. Then the connector
is at rest, and is started again from the loop. -/
theorem restrained_use_tolerated_again :
    let labels : List (Label Unit) := [.setStart (), .queueStart (), .poll [], .doPendingFunctors,
      .runFunctor, .runCall (replies .EINPROGRESS 0), .endBatch, .poll [(1, failed)], .nextChannel,
      .runCall (replies .zero 0), .runCall (replies .zero 0), .doPendingFunctors, .runFunctor,
      .endBatch, .poll [(0, writable)], .nextChannel, .fireTimer 0, .runCall (replies .zero 0),
      .runCall (replies .EINPROGRESS 0), .doPendingFunctors, .endBatch, .setStop (), .queueStop (),
      .poll [], .doPendingFunctors, .runFunctor, .endBatch, .poll [], .doPendingFunctors,
      .runFunctor, .start, .runCall (replies .zero 0), .runCall (replies .EINPROGRESS 0)]
    (∃ s, run exec start labels = .ok s ∧ s.world.sockets.created = 3 ∧
      s.world.sockets.closed = [0, 1]) ∧
    ∃ s, run exec start labels = .ok s ∧
      ∀ i j, InProgress s.world i → InProgress s.world j → i = j := by
  intro labels
  exact ⟨by decide +kernel, restrained_use_tolerated (by decide +kernel)⟩

/-- A thread calls `start`, `stop` and `start` again. The two last functors run in one batch:
`stopInLoop` leaves the old channel to `resetChannel`, which is queued for the next batch, and
`startInLoop` comes to `assert(!channel_)` first. And a second `start` during an attempt fails
the assertion of `startInLoop`. -/
theorem start_not_tolerated :
    let stopped : List (Label Unit) := [.setStart (), .queueStart (), .poll [], .doPendingFunctors,
      .runFunctor, .runCall (replies .EINPROGRESS 0), .endBatch, .setStop (), .queueStop (),
      .setStart (), .queueStart (), .poll [], .doPendingFunctors, .runFunctor, .runFunctor,
      .runCall (replies .EINPROGRESS 0)]
    let repeated : List (Label Unit) := [.start, .runCall (replies .zero 0),
      .runCall (replies .EINPROGRESS 0), .start, .runCall (replies .zero 0)]
    (LegalRun exec Enabled start stopped ∧ run exec start stopped = .error .connecting) ∧
      LegalRun exec Enabled start repeated ∧ run exec start repeated = .error .startInLoop := by
  intro stopped repeated
  exact ⟨⟨by decide +kernel, eq_error_of_outcome (by decide +kernel)⟩, by decide +kernel,
    eq_error_of_outcome (by decide +kernel)⟩

end Muduo.System.Connecting
