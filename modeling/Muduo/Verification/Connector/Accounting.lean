import Muduo.Verification.Connector.Slots

/-! The sockets of a connector. Whatever the threads and the kernel do, each socket belongs
to the registered channel, has been closed once, or has been handed over once. -/

namespace Muduo.System.Connecting

open Library Net Connector

variable {τ : Type}

/-! ### The invariant -/

/-- The callbacks of the channel. -/
def IsHandler (call : Call) : Prop := call = .handleError ∨ call = .handleWrite

/-- The channels still to be handled: only the registered one can be a channel of the
connector, and it is handled once. -/
structure Turns (current : Option ℕ) (rest : List (ℕ × Revents)) (slot : Slot) : Prop where
  listed : ∀ a ∈ rest, a.1 ≠ 0 → slot.IsRegistered ∧ slot.address = some a.1
  once : ((current.toList ++ rest.map Prod.fst).filter (· ≠ 0)).Nodup

structure Inv (s : State τ) (slot : Slot) : Prop where
  core : Core s.world slot []
  waits : Waits s.world slot
  resets : s.functors.count .resetChannel = slot.resets
  handling : s.world.loop.eventHandling = s.isHandling
  current : s.isHandling = false → s.world.loop.currentActiveChannel = none
  turns : ∀ rest, s.phase = .events rest → Turns s.world.loop.currentActiveChannel rest slot
  handlers : ∀ call ∈ s.world.stack, IsHandler call → s.isHandling = true ∧
    slot ≠ .empty ∧ s.world.loop.currentActiveChannel = slot.address

theorem inv_start : Inv (start : State τ) .empty where
  core := ⟨rfl, rfl, Descriptors.sound_empty⟩
  waits h := by cases h
  resets := rfl
  handling := rfl
  current _ := rfl
  turns rest h := by cases h
  handlers call h := by cases h

/-- How `channel_` may change in a step of the loop other than `resetChannel`. -/
inductive Move (w : Connector.World) : Slot → Slot → Prop
  | keep (slot : Slot) : Move w slot slot
  | register (sockfd : ℤ) (i : ℕ) : Move w .empty (.registered sockfd i)
  | remove (sockfd : ℤ) (i : ℕ) (h : Turn w (.registered sockfd i)) :
      Move w (.registered sockfd i) (.removed sockfd i)

/-- No socket is handed over while `connect_` is false. -/
def Keeps (w w' : Connector.World) : Prop :=
  w.self.connect = false → w'.sockets.handed = w.sockets.handed

/-- What such a step leaves of the loop and of the stack. -/
structure Advance (w w' : Connector.World) (slot slot' : Slot) : Prop where
  core : Core w' slot' []
  waits : Waits w' slot'
  keeps : Keeps w w'
  move : Move w slot slot'
  handling : w'.loop.eventHandling = w.loop.eventHandling
  current : w'.loop.currentActiveChannel = w.loop.currentActiveChannel
  pending : ∃ functors, w'.loop.pendingFunctors = w.loop.pendingFunctors ++ functors ∧
    functors.count .resetChannel + slot.resets = slot'.resets
  stack : ∃ calls, w'.stack = calls ++ w.stack ∧ ∀ call ∈ calls, ¬ IsHandler call

theorem Turns.move {w : Connector.World} {slot slot' : Slot} {rest : List (ℕ × Revents)}
    (h : Turns w.loop.currentActiveChannel rest slot) (hmove : Move w slot slot')
    (hhandling : w.loop.eventHandling = true) :
    Turns w.loop.currentActiveChannel rest slot' := by
  refine ⟨fun a ha hne => ?_, h.once⟩
  obtain ⟨hregistered, haddress⟩ := h.listed a ha hne
  cases hmove with
  | keep => exact ⟨hregistered, haddress⟩
  | register sockfd i => exact hregistered.elim
  | remove sockfd i hturn =>
      -- the current channel is not listed again
      have honce := h.once
      rw [hturn hhandling, haddress, List.filter_append, List.nodup_append] at honce
      refine absurd rfl (honce.2.2 a.1 (by simp [hne]) a.1 ?_)
      exact List.mem_filter.mpr ⟨List.mem_map_of_mem ha, by simp [hne]⟩

theorem Move.address {w : Connector.World} {slot slot' : Slot} (h : Move w slot slot')
    (hne : slot ≠ .empty) : slot' ≠ .empty ∧ slot'.address = slot.address := by
  cases h with
  | keep => exact ⟨hne, rfl⟩
  | register sockfd i => exact absurd rfl hne
  | remove sockfd i => exact ⟨Slot.noConfusion, rfl⟩

variable {s : State τ} {slot slot' : Slot} {w' : Connector.World}

theorem functors_setWorld {functors : List Functor}
    (h : w'.loop.pendingFunctors = s.world.loop.pendingFunctors ++ functors) :
    (s.setWorld w').functors = s.functors ++ functors := by
  cases hphase : s.phase <;> simp [State.functors, State.setWorld, hphase, h]

theorem functors_batch {rest : List Functor} (h : s.phase = .batch rest) :
    s.functors = rest ++ s.world.loop.pendingFunctors := by
  rw [State.functors, h]

theorem Inv.advance (h : Inv s slot) (hadvance : Advance s.world w' slot slot') :
    Inv (s.setWorld w') slot' where
  core := hadvance.core
  waits := hadvance.waits
  resets := by
    obtain ⟨functors, hpending, hcount⟩ := hadvance.pending
    rw [functors_setWorld hpending, List.count_append, h.resets]
    omega
  handling := hadvance.handling.trans h.handling
  current hidle := hadvance.current.trans (h.current hidle)
  turns rest hphase := by
    have hhandling : s.isHandling = true := by
      rw [State.isHandling, show s.phase = .events rest from hphase]
    have hturns := (h.turns rest hphase).move hadvance.move (h.handling.trans hhandling)
    exact (congrArg (Turns · rest slot') hadvance.current).mpr hturns
  handlers call hcall hhandler := by
    obtain ⟨calls, hstack, hcalls⟩ := hadvance.stack
    rw [show (s.setWorld w').world.stack = calls ++ s.world.stack from hstack] at hcall
    rcases List.mem_append.mp hcall with hcall | hcall
    · exact absurd hhandler (hcalls call hcall)
    · obtain ⟨hhandling, hne, hcurrent⟩ := h.handlers call hcall hhandler
      obtain ⟨hne', haddress⟩ := hadvance.move.address hne
      exact ⟨hhandling, hne', hadvance.current.trans (hcurrent.trans haddress.symm)⟩

/-! ### The functions of the connector -/

namespace Advance

variable {w : Connector.World} {sockfd : ℤ} {i : ℕ}

/-- A step that leaves `channel_`, the loop and the stack alone. -/
theorem of_core (hcore : Core w' slot []) (hwaits : Waits w' slot)
    (hhanded : w'.sockets.handed = w.sockets.handed) (hloop : w'.loop = w.loop)
    (hstack : w'.stack = w.stack) : Advance w w' slot slot where
  core := hcore
  waits := hwaits
  keeps _ := hhanded
  move := .keep slot
  handling := congrArg _ hloop
  current := congrArg _ hloop
  pending := ⟨[], by rw [hloop, List.append_nil], Nat.zero_add _⟩
  stack := ⟨[], hstack, by simp⟩

theorem call (h : Advance w w' slot slot') {calls : List Call}
    (hcalls : ∀ call ∈ calls, ¬ IsHandler call) : Advance w (w'.call calls) slot slot' where
  core := ⟨h.core.channel, h.core.poller, h.core.sockets⟩
  waits := h.waits
  keeps := h.keeps
  move := h.move
  handling := h.handling
  current := h.current
  pending := h.pending
  stack := by
    obtain ⟨calls', hstack, hcalls'⟩ := h.stack
    refine ⟨calls ++ calls', ?_, fun c hc => (List.mem_append.mp hc).elim (hcalls c) (hcalls' c)⟩
    rw [Connector.World.call, hstack, List.append_assoc]

theorem queueInLoop (h : Advance w w' slot slot') {f : Functor} (hf : f ≠ .resetChannel) :
    Advance w (w'.queueInLoop f) slot slot' where
  core := ⟨h.core.channel, h.core.poller, h.core.sockets⟩
  waits := h.waits
  keeps := h.keeps
  move := h.move
  handling := h.handling
  current := h.current
  pending := by
    obtain ⟨functors, hpending, hcount⟩ := h.pending
    refine ⟨functors ++ [f], ?_, ?_⟩
    · rw [Connector.World.queueInLoop, EventLoop.queueInLoop, hpending, List.append_assoc]
    · rw [List.count_append, List.count_singleton, if_neg (by simpa using hf)]
      exact hcount
  stack := h.stack

theorem registered (hcore : Core w' (.registered sockfd i) [])
    (hhanded : w'.sockets.handed = w.sockets.handed)
    (hloop : w'.loop = (w.registered sockfd i).loop) (hstack : w'.stack = w.stack) :
    Advance w w' .empty (.registered sockfd i) where
  core := hcore
  waits _ := trivial
  keeps _ := hhanded
  move := .register sockfd i
  handling := by rw [hloop]; rfl
  current := by rw [hloop]; rfl
  pending := ⟨[], by rw [hloop, List.append_nil]; rfl, rfl⟩
  stack := ⟨[], hstack, by simp⟩

theorem removed (hcore : Core w' (.removed sockfd i) []) (hstate : w'.self.state ≠ .kConnecting)
    (hkeeps : Keeps w w') (hturn : Turn w (.registered sockfd i))
    (hloop : w'.loop = (w.removed sockfd i).loop) (hstack : w'.stack = w.stack) :
    Advance w w' (.registered sockfd i) (.removed sockfd i) where
  core := hcore
  waits h := absurd h hstate
  keeps := hkeeps
  move := .remove sockfd i hturn
  handling := by rw [hloop]; rfl
  current := by rw [hloop]; rfl
  pending := ⟨[.resetChannel], by rw [hloop]; rfl, rfl⟩
  stack := ⟨[], hstack, by simp⟩

end Advance

section Functions

variable {w : Connector.World} {sockfd : ℤ}

theorem advance_of_attempt (hcore : Core w slot []) (hwaits : Waits w slot)
    (hfd : w.sockets.names sockfd = none) (h : Attempt w sockfd slot w' slot') :
    Advance w w' slot slot' := by
  have hcreate := hcore.create hfd
  cases h with
  | close => exact .of_core hcreate.close hwaits (Descriptors.close_handed ..) rfl rfl
  | retry =>
      refine .of_core hcreate.retry (by simp [Waits]) ?_ (World.retry_loop ..)
        (World.retry_stack ..)
      rw [World.retry_sockets, Descriptors.close_handed]
      rfl
  | connecting => exact .registered hcreate.registered rfl rfl rfl

theorem advance_of_release (hcore : Core w slot []) (hwaits : Waits w slot) (hturn : Turn w slot)
    (h : Release w slot w' slot') : Advance w w' slot slot' := by
  cases h with
  | skip => exact .of_core hcore hwaits rfl rfl rfl
  | retry sockfd i =>
      refine .removed hcore.removed.retry (by simp) (fun _ => ?_) hturn (World.retry_loop ..)
        (World.retry_stack ..)
      rw [World.retry_sockets, Descriptors.close_handed]
      rfl

theorem advance_of_establish (hcore : Core w slot []) (hturn : Turn w slot)
    (h : Establish w slot w' slot') : Advance w w' slot slot' := by
  cases h with
  | hand sockfd i hconnect =>
      have hhand := (hcore.removed.setState .kConnected).sockets.hand
      let w₁ := (w.removed sockfd i).setState .kConnected
      have hbefore : Advance w { w₁ with sockets := w₁.sockets.hand sockfd } _ _ :=
        .removed ⟨rfl, rfl, hhand⟩ States.noConfusion
          (fun hfalse => Bool.noConfusion (hconnect.symm.trans hfalse)) hturn rfl rfl
      exact hbefore.call (by simp [IsHandler])
  | close sockfd i =>
      exact .removed (hcore.removed.setState .kConnected).close States.noConfusion
        (fun _ => Descriptors.close_handed ..) hturn rfl rfl

end Functions

/-- The assertions of the connector itself. -/
def IsAssertion (f : Fault) : Prop := f = .startInLoop ∨ f = .connecting ∨ f = .handleWrite

instance : DecidablePred IsAssertion := fun _ => inferInstanceAs (Decidable (_ ∨ _ ∨ _))

/-- The system may go on, or an assertion of the connector has failed. -/
def Goes (s : State τ) : Except Fault (State τ) → Prop :=
  Outcome (fun s' => (∃ slot, Inv s' slot) ∧ Keeps s.world s'.world) IsAssertion

theorem goes_map {x : Except Fault Connector.World} {p : Connector.World → Prop}
    {q : Fault → Prop} (h : Inv s slot) (hx : Outcome p q x)
    (hp : ∀ w', p w' → ∃ slot', Advance s.world w' slot slot') (hq : ∀ e, q e → IsAssertion e) :
    Goes s (x.map s.setWorld) := by
  cases hx with
  | ok hw =>
      obtain ⟨slot', hadvance⟩ := hp _ hw
      exact .ok ⟨⟨slot', h.advance hadvance⟩, hadvance.keeps⟩
  | error he => exact .error (hq _ he)

theorem Inv.goes (h : Inv s slot) : Goes s (.ok s) := .ok ⟨⟨slot, h⟩, fun _ => rfl⟩

theorem Inv.goes_advance (h : Inv s slot) (hadvance : Advance s.world w' slot slot') :
    Goes s (.ok (s.setWorld w')) :=
  .ok ⟨⟨slot', h.advance hadvance⟩, hadvance.keeps⟩

theorem Inv.advance_self (h : Inv s slot) : Advance s.world s.world slot slot :=
  .of_core h.core h.waits rfl rfl rfl

theorem Inv.startInLoop (h : Inv s slot) : Goes s (s.world.startInLoop.map s.setWorld) := by
  rw [World.startInLoop]
  by_cases hstate : s.world.self.state = .kDisconnected
  · rw [ensure_of _ hstate, ok_bind]
    split_ifs
    · exact h.goes_advance (h.advance_self.call (by simp [IsHandler]))
    · exact h.goes_advance h.advance_self
  · rw [ensure_of_not _ hstate]
    exact .error (.inl rfl)

theorem Inv.connect (h : Inv s slot) {r : Replies} (hfd : s.world.sockets.names r.sockfd = none) :
    Goes s ((s.world.connect r.sockfd r.savedErrno).map s.setWorld) := by
  refine goes_map h (h.core.connect hfd r.savedErrno) ?_ fun e he => .inr (.inl he.1)
  rintro w' ⟨slot', hattempt⟩
  exact ⟨slot', advance_of_attempt h.core h.waits hfd hattempt⟩

theorem Inv.handleError (h : Inv s slot) (hturn : Turn s.world slot) :
    Goes s (s.world.handleError.map s.setWorld) := by
  obtain ⟨w', slot', heq, hrelease⟩ := h.core.handleError h.waits hturn
  rw [heq]
  exact h.goes_advance (advance_of_release h.core h.waits hturn hrelease)

theorem Inv.stopInLoop (h : Inv s slot) (hturn : Turn s.world slot) :
    Goes s (s.world.stopInLoop.map s.setWorld) := by
  obtain ⟨w', slot', heq, hrelease⟩ := h.core.stopInLoop h.waits hturn
  rw [heq]
  exact h.goes_advance (advance_of_release h.core h.waits hturn hrelease)

theorem Inv.handleWrite (h : Inv s slot) (hturn : Turn s.world slot) (r : Replies) :
    Goes s ((s.world.handleWrite r.err r.isSelfConnect).map s.setWorld) := by
  refine goes_map h (h.core.handleWrite h.waits hturn r.err r.isSelfConnect) ?_
    fun e he => .inr (.inr he.1)
  rintro w' ⟨slot', hrelease | hestablish⟩
  · exact ⟨slot', advance_of_release h.core h.waits hturn hrelease⟩
  · exact ⟨slot', advance_of_establish h.core hturn hestablish⟩

/-! ### The steps of the loop -/

theorem Inv.pop (h : Inv s slot) : Inv s.pop slot where
  core := ⟨h.core.channel, h.core.poller, h.core.sockets⟩
  waits := h.waits
  resets := h.resets
  handling := h.handling
  current := h.current
  turns := h.turns
  handlers call hcall := h.handlers call (List.mem_of_mem_tail hcall)

theorem Inv.not_handler (h : Inv s slot) (hidle : s.isHandling = false) {call : Call}
    (hcall : call ∈ s.world.stack) : ¬ IsHandler call := by
  intro hhandler
  have hhandling := (h.handlers call hcall hhandler).1
  rw [hidle] at hhandling
  cases hhandling

theorem isHandling_batch {rest : List Functor} (h : s.phase = .batch rest) :
    s.isHandling = false := by
  rw [State.isHandling, h]

/-- A handler runs for the channel that the loop has come to. -/
theorem Inv.turn_of_stack (h : Inv s slot) {call : Call} {rest : List Call}
    (hstack : s.world.stack = call :: rest) (hhandler : IsHandler call) : Turn s.pop.world slot :=
  fun _ => (h.handlers call (hstack ▸ List.mem_cons_self) hhandler).2.2

theorem Inv.turn_of_batch (h : Inv s slot) {rest : List Functor} (hphase : s.phase = .batch rest) :
    Turn s.world slot := by
  intro hhandling
  rw [h.handling, isHandling_batch hphase] at hhandling
  cases hhandling

theorem Inv.nextFunctor (h : Inv s slot) {f : Functor} {rest : List Functor}
    (hphase : s.phase = .batch (f :: rest)) (hf : f ≠ .resetChannel) :
    Inv { s with phase := .batch rest } slot where
  core := h.core
  waits := h.waits
  resets := by
    have hresets := h.resets
    rwa [functors_batch hphase, List.cons_append, List.count_cons_of_ne hf] at hresets
  handling := h.handling.trans (isHandling_batch hphase)
  current _ := h.current (isHandling_batch hphase)
  turns rest h := by cases h
  handlers call hcall hhandler := absurd hhandler (h.not_handler (isHandling_batch hphase) hcall)

theorem Inv.resetChannel (h : Inv s slot) {rest : List Functor}
    (hphase : s.phase = .batch (.resetChannel :: rest)) :
    ∃ sockfd i, slot = .removed sockfd i ∧
      Inv { s with world := s.world.setChannel none, phase := .batch rest } .empty := by
  have hidle := isHandling_batch hphase
  have hresets := h.resets
  rw [functors_batch hphase, List.cons_append, List.count_cons_self] at hresets
  cases slot with
  | empty => cases hresets
  | registered sockfd i => cases hresets
  | removed sockfd i =>
      refine ⟨sockfd, i, rfl, ⟨⟨rfl, h.core.poller, h.core.sockets⟩, h.waits, Nat.succ.inj hresets,
        h.handling.trans hidle, fun _ => h.current hidle, ?_, ?_⟩⟩
      · intro rest hrest
        cases hrest
      · intro call hcall hhandler
        exact absurd hhandler (h.not_handler hidle hcall)

/-- `loop()` comes to the next active channel. -/
theorem Inv.activate (h : Inv s slot) {channel : ℕ} {revents : Revents}
    {rest : List (ℕ × Revents)} (hstack : s.world.stack = [])
    (hphase : s.phase = .events ((channel, revents) :: rest)) :
    Goes s (s.activate channel revents rest) := by
  have hturns := h.turns _ hphase
  have hhandling : s.isHandling = true := by rw [State.isHandling, hphase]
  have hresets : s.world.loop.pendingFunctors.count .resetChannel = slot.resets := by
    have hresets := h.resets
    rwa [State.functors, hphase] at hresets
  have honce : ((channel :: rest.map Prod.fst).filter (· ≠ 0)).Nodup := by
    refine hturns.once.sublist (List.Sublist.filter _ ?_)
    exact List.sublist_append_right _ _
  have hrest : Turns (some channel) rest slot :=
    ⟨fun a ha => hturns.listed a (List.mem_cons_of_mem _ ha), honce⟩
  rw [State.activate]
  split_ifs with hzero
  · refine .ok ⟨⟨slot, ⟨h.core.channel, h.core.poller, h.core.sockets⟩, h.waits, hresets,
      h.handling.trans hhandling, fun hidle => ?_, fun rest' hrest' => ?_, fun call hcall => ?_⟩,
      fun _ => rfl⟩
    · cases hidle
    · cases hrest'
      exact hrest
    · rw [show s.world.stack = [] from hstack] at hcall
      cases hcall
  · obtain ⟨hregistered, haddress⟩ := hturns.listed _ List.mem_cons_self hzero
    have hchannel : s.world.self.channel.map Channel.self = some channel := by
      rw [h.core.channel, Slot.channel_address, haddress]
    rw [ensure_of _ hchannel, ok_bind]
    refine .ok ⟨⟨slot, ⟨h.core.channel, h.core.poller, h.core.sockets⟩, h.waits, hresets,
      h.handling.trans hhandling, fun hidle => ?_, fun rest' hrest' => ?_, fun call hcall _ => ?_⟩,
      fun _ => rfl⟩
    · cases hidle
    · cases hrest'
      exact hrest
    · refine ⟨rfl, ?_, haddress.symm⟩
      rintro rfl
      exact hregistered

variable [DecidableEq τ]

theorem Inv.runCall (h : Inv s slot) {r : Replies}
    (henabled : s.world.stack.head? = some .connect →
      0 ≤ r.sockfd ∧ s.world.sockets.names r.sockfd = none) : Goes s (exec s (.runCall r)) := by
  rw [exec]
  split
  next call rest hstack =>
    cases call with
    | startInLoop => exact h.pop.startInLoop
    | connect => exact h.pop.connect (henabled (by rw [hstack]; rfl)).2
    | queueStop => exact h.pop.goes_advance (h.pop.advance_self.queueInLoop (by decide))
    | handleError => exact h.pop.handleError (h.turn_of_stack hstack (.inl rfl))
    | handleWrite => exact h.pop.handleWrite (h.turn_of_stack hstack (.inr rfl)) r
    | user => exact h.pop.goes
  next => exact h.goes

theorem Inv.runFunctor (h : Inv s slot) : Goes s (exec s .runFunctor) := by
  rw [exec]
  split
  next f rest hphase =>
    cases f with
    | startInLoop => exact (h.nextFunctor hphase (by decide)).startInLoop
    | stopInLoop => exact (h.nextFunctor hphase (by decide)).stopInLoop (h.turn_of_batch hphase)
    | resetChannel =>
        obtain ⟨sockfd, i, rfl, hinv⟩ := h.resetChannel hphase
        rw [Connector.World.runFunctor, h.core.resetChannel]
        exact .ok ⟨⟨.empty, hinv⟩, fun _ => rfl⟩
  next => exact h.goes

theorem Inv.poll (h : Inv s slot) {active : List (ℕ × Revents)}
    (henabled : Enabled s (.poll active)) : Goes s (exec s (.poll active)) := by
  obtain ⟨hstack, hphase, honce, hwatched⟩ := henabled
  have hidle : s.isHandling = false := by rw [State.isHandling, hphase]
  refine .ok ⟨⟨slot, ⟨h.core.channel, h.core.poller, h.core.sockets⟩, h.waits, ?_, rfl,
    fun hidle => ?_, fun rest hrest => ?_, fun call hcall => ?_⟩, fun _ => rfl⟩
  · have hresets := h.resets
    rwa [State.functors, hphase] at hresets
  · cases hidle
  · cases hrest
    refine ⟨fun a ha hne => ?_, ?_⟩
    · obtain ⟨c, hc, haddress, events, hevents, -⟩ := hwatched a ha hne
      rw [← haddress]
      exact h.core.isRegistered hc hevents
    · rw [show s.world.loop.currentActiveChannel = none from h.current hidle]
      exact honce
  · rw [show s.world.stack = [] from hstack] at hcall
    cases hcall

theorem Inv.doPendingFunctors (h : Inv s slot) (hstack : s.world.stack = [])
    (hphase : s.phase = .events []) : Goes s (exec s .doPendingFunctors) := by
  refine .ok ⟨⟨slot, ⟨h.core.channel, h.core.poller, h.core.sockets⟩, h.waits, ?_, rfl,
    fun _ => rfl, fun rest hrest => ?_, fun call hcall => ?_⟩, fun _ => rfl⟩
  · have hresets := h.resets
    rw [State.functors, hphase] at hresets
    simpa [State.functors] using hresets
  · cases hrest
  · rw [show s.world.stack = [] from hstack] at hcall
    cases hcall

theorem Inv.endBatch (h : Inv s slot) (hstack : s.world.stack = [])
    (hphase : s.phase = .batch []) : Goes s (exec s .endBatch) := by
  have hidle := isHandling_batch hphase
  refine .ok ⟨⟨slot, h.core, h.waits, ?_, h.handling.trans hidle, fun _ => h.current hidle,
    fun rest hrest => ?_, fun call hcall => ?_⟩, fun _ => rfl⟩
  · have hresets := h.resets
    rwa [functors_batch hphase] at hresets
  · cases hrest
  · rw [show s.world.stack = [] from hstack] at hcall
    cases hcall

/-! ### Every step -/

theorem Inv.setPc (h : Inv s slot) (t : τ) (pc : Pc) : Inv (s.setPc t pc) slot :=
  ⟨h.core, h.waits, h.resets, h.handling, h.current, h.turns, h.handlers⟩

theorem exec_goes (h : Inv s slot) {l : Label τ} (henabled : Enabled s l) :
    Goes s (exec s l) := by
  have hsetConnect (b : Bool) : Advance s.world (s.world.setConnect b) slot slot :=
    .of_core ⟨h.core.channel, h.core.poller, h.core.sockets⟩ h.waits rfl rfl rfl
  cases l with
  | setStart t => exact (h.setPc t .starting).goes_advance (hsetConnect true)
  | setStop t => exact (h.setPc t .stopping).goes_advance (hsetConnect false)
  | queueStart t =>
      exact (h.setPc t .idle).goes_advance (h.advance_self.queueInLoop (by decide))
  | queueStop t => exact (h.setPc t .idle).goes_advance (h.advance_self.queueInLoop (by decide))
  | start => exact h.goes_advance ((hsetConnect true).call (by simp [IsHandler]))
  | stop => exact h.goes_advance ((hsetConnect false).call (by simp [IsHandler]))
  | restart =>
      refine h.goes_advance (Advance.call (?_ : Advance s.world _ slot slot) ?_)
      · exact .of_core ⟨h.core.channel, h.core.poller, h.core.sockets⟩
          (fun hstate => by cases hstate) rfl rfl rfl
      · simp [IsHandler]
  | closeHanded sockfd =>
      obtain ⟨i, hi, hhanded⟩ := henabled
      have hcore := h.core.sockets.drop hi hhanded
      exact h.goes_advance (.of_core ⟨h.core.channel, h.core.poller, hcore⟩ h.waits rfl rfl rfl)
  | fireTimer i =>
      refine h.goes_advance (Advance.call (?_ : Advance s.world _ slot slot) ?_)
      · exact .of_core ⟨h.core.channel, h.core.poller, h.core.sockets⟩ h.waits rfl rfl rfl
      · simp [IsHandler]
  | poll active => exact h.poll henabled
  | nextChannel =>
      rw [exec]
      split
      next channel revents rest hphase => exact h.activate henabled.1 hphase
      next => exact h.goes
  | doPendingFunctors => exact h.doPendingFunctors henabled.1 henabled.2
  | runFunctor => exact h.runFunctor
  | endBatch => exact h.endBatch henabled.1 henabled.2
  | runCall r => exact h.runCall henabled

/-! ### The sockets -/

/-- The socket `i` is owned by `channel_`, which is registered. -/
def Owned (w : Connector.World) (i : ℕ) : Prop :=
  ∃ c ∈ w.self.channel, w.loop.poller.hasChannel c = true ∧ w.sockets.names c.fd = some i

instance (w : Connector.World) (i : ℕ) : Decidable (Owned w i) :=
  inferInstanceAs (Decidable (∃ c ∈ _, _ ∧ _))

/-- Each socket that was created is owned, was closed once, or was handed over once; and the
connector has used no descriptor that was not open. -/
structure Accounted (w : Connector.World) : Prop where
  fate : ∀ i < w.sockets.created,
    Owned w i ∧ w.sockets.closed.count i = 0 ∧ w.sockets.handed.count i = 0 ∨
    ¬ Owned w i ∧ w.sockets.closed.count i = 1 ∧ w.sockets.handed.count i = 0 ∨
    ¬ Owned w i ∧ w.sockets.closed.count i = 0 ∧ w.sockets.handed.count i = 1
  stray : w.sockets.stray = 0

theorem owned_iff {w : Connector.World} (h : Core w slot []) {i : ℕ} :
    Owned w i ↔ i ∈ slot.owned.map Prod.snd := by
  cases slot with
  | empty => simp [Owned, show w.self.channel = none from h.channel, Slot.owned]
  | removed sockfd j =>
      have hchannel : w.self.channel = some (.init (j + 1) sockfd) := h.channel
      have hpoller : w.loop.poller = .init := h.poller
      simp [Owned, hchannel, hpoller, EPollPoller.hasChannel, EPollPoller.init, Slot.owned]
  | registered sockfd j =>
      have hchannel : w.self.channel = some (Slot.waiting sockfd j) := h.channel
      have hnames : w.sockets.names sockfd = some j :=
        h.sockets.owned (sockfd, j) List.mem_cons_self
      have hhas : w.loop.poller.hasChannel (Slot.waiting sockfd j) = true := by
        rw [h.poller]
        simp [EPollPoller.hasChannel, Slot.poller, EPollPoller.watch]
      rw [show (Slot.registered sockfd j).owned.map Prod.snd = [j] from rfl, List.mem_singleton]
      constructor
      · rintro ⟨c, hc, -, hi⟩
        obtain rfl : Slot.waiting sockfd j = c := Option.some.inj (hchannel.symm.trans hc)
        exact Option.some.inj (hi.symm.trans hnames)
      · rintro rfl
        exact ⟨_, hchannel, hhas, hnames⟩

theorem accounted_of_core {w : Connector.World} (h : Core w slot []) : Accounted w := by
  refine ⟨fun i hi => ?_, h.sockets.stray⟩
  have hfate := h.sockets.fate i
  rw [if_pos hi, List.nil_append] at hfate
  by_cases howned : Owned w i
  · have hcount := List.count_pos_iff.mpr ((owned_iff h).mp howned)
    exact .inl ⟨howned, by omega, by omega⟩
  · have hcount := List.count_eq_zero.mpr (mt (owned_iff h).mpr howned)
    rcases Nat.eq_zero_or_pos (w.sockets.closed.count i) with hclosed | hclosed
    · exact .inr (.inr ⟨howned, hclosed, by omega⟩)
    · exact .inr (.inl ⟨howned, by omega, by omega⟩)

/-- In every run, up to the first failed assertion of the connector, the sockets are accounted
for, and no step hands a socket over while `connect_` is false. No other assertion fails, no
null `channel_` is used, and no handler is called on a destructed channel. -/
theorem sockets_accounted {labels : List (Label τ)}
    (hlegal : LegalRun exec Enabled start labels) :
    Outcome
      (fun s => Accounted s.world ∧
        ∀ l s', Enabled s l → exec s l = .ok s' → s.world.self.connect = false →
          s'.world.sockets.handed = s.world.sockets.handed)
      (fun f => f = .startInLoop ∨ f = .connecting ∨ f = .handleWrite)
      (run exec start labels) := by
  have hstep (s : State τ) (l : Label τ) (hinv : ∃ slot, Inv s slot) (henabled : Enabled s l) :
      Outcome (fun s => ∃ slot, Inv s slot) IsAssertion (exec s l) := by
    obtain ⟨slot, hinv⟩ := hinv
    exact (exec_goes hinv henabled).mono fun s' hs' => hs'.1
  refine (run_outcome hstep ⟨.empty, inv_start⟩ hlegal).mono ?_
  rintro s ⟨slot, hinv⟩
  refine ⟨accounted_of_core hinv.core, fun l s' henabled hexec => ?_⟩
  exact ((exec_goes hinv henabled).of_eq_ok hexec).2

/-- The socket can be written to. -/
def writable : Revents := ⟨false, false, true, false, false, false, false⟩

/-- The socket can be written to, with an error. -/
def failed : Revents := ⟨false, false, true, true, false, false, false⟩

/-- Replies of a kernel that uses the descriptor 3. -/
def replies (savedErrno : Errno) (err : ℕ) : Replies := ⟨3, savedErrno, err, false⟩

/-- The first attempt fails, with `POLLERR` and `POLLOUT` in one event; the second one, on the
same descriptor, succeeds, and the user closes its socket. A third socket is refused. -/
theorem sockets_accounted_retried :
    let labels : List (Label Unit) := [.start, .runCall (replies .zero 0),
      .runCall (replies .EINPROGRESS 0), .poll [(1, failed)], .nextChannel,
      .runCall (replies .zero 0), .runCall (replies .zero 0), .doPendingFunctors, .runFunctor,
      .endBatch, .poll [(0, writable)], .nextChannel, .fireTimer 0, .runCall (replies .zero 0),
      .runCall (replies .EINPROGRESS 0), .doPendingFunctors, .endBatch, .poll [(2, writable)],
      .nextChannel, .runCall (replies .zero 0), .closeHanded 3, .restart,
      .runCall (replies .zero 0), .runCall (replies .EACCES 0)]
    (∃ s, run exec start labels = .ok s ∧ s.world.sockets.created = 3 ∧
      s.world.sockets.closed = [0, 2] ∧ s.world.sockets.handed = [1]) ∧
    Outcome
      (fun s => Accounted s.world ∧
        ∀ l s', Enabled s l → exec s l = .ok s' → s.world.self.connect = false →
          s'.world.sockets.handed = s.world.sockets.handed)
      (fun f => f = .startInLoop ∨ f = .connecting ∨ f = .handleWrite)
      (run exec start labels) := by
  intro labels
  exact ⟨by decide +kernel, sockets_accounted (by decide +kernel)⟩

end Muduo.System.Connecting
