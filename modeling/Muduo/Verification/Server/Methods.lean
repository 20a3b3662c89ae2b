import Muduo.Verification.Server.Steps

/-! What the methods of a connection do to the invariant of the server. -/

namespace Muduo.System.Serving

open Library Net TcpConnection Lifecycle

variable {τ : Type} {s s' : State τ} {stage : ℕ → Stage} {c ℓ : ℕ} {k : Connection}

/-! ### What is logged -/

def Logged (s : State τ) (stage : ℕ → Stage) : Prop :=
  ∀ c, (s.log.filter (fun x => x.1 = c)).map Prod.snd = (stage c).life

theorem Logged.extend {σ : Stage} (h : Logged s stage) (new : List Life)
    (hlog : s'.log = s.log ++ new.map (Prod.mk c)) (hlife : σ.life = (stage c).life ++ new) :
    Logged s' (Function.update stage c σ) := by
  intro d
  rw [hlog, List.filter_append, List.map_append, h d, List.filter_map]
  by_cases hd : d = c
  · subst hd
    rw [Function.update_self, hlife]
    simp [Function.comp_def]
  · rw [Function.update_of_ne hd]
    simpa [Function.comp_def] using fun _ _ heq => hd heq.symm

theorem Logged.taken (h : Logged s stage) (hlog : s'.log = s.log) (c : ℕ) :
    Logged s' (Function.update stage c (stage c).taken) :=
  h.extend [] (by simp [hlog]) (by simp [Stage.taken_life])

/-- No connection is in the middle of a step. -/
def Settled (stage : ℕ → Stage) : Prop :=
  ∀ c, stage c ≠ .opening ∧ stage c ≠ .erasing ∧ stage c ≠ .dropping ∧ stage c ≠ .forgetting

theorem Settled.restage {σ : Stage} (h : Settled stage)
    (hσ : σ ≠ .opening ∧ σ ≠ .erasing ∧ σ ≠ .dropping ∧ σ ≠ .forgetting) :
    Settled (Function.update stage c σ) := by
  intro d
  by_cases hd : d = c
  · subst hd
    rwa [Function.update_self]
  · rw [Function.update_of_ne hd]
    exact h d

structure Inv (s : State τ) (stage : ℕ → Stage) : Prop where
  core : Core s stage
  settled : Settled stage
  logged : Logged s stage

/-! ### The methods of a connection -/

theorem plain_of_isOwn {f : Functor} (h : World.IsOwn f) : Plain f ∧ isRaw f = false := by
  rcases h with h | rfl
  · cases f <;> first | exact h.elim | exact ⟨trivial, rfl⟩
  · exact ⟨trivial, rfl⟩

theorem confined_own {w w' : World} {σ : Stage} (h : World.Confined World.IsOwn w w')
    (hσ : σ.established = true) :
    World.Confined (fun f => Plain f ∧ σ.established = true ∧ (isRaw f = true → σ = .opened))
      w w' := by
  refine ⟨h.fd, h.self, h.reading, h.elsewhere, h.eventHandling, h.activeChannels, h.current, ?_⟩
  obtain ⟨fs, hfs, hown⟩ := h.queued
  refine ⟨fs, hfs, fun f hf => ?_⟩
  obtain ⟨hplain, hraw⟩ := plain_of_isOwn (hown f hf)
  exact ⟨hplain, hσ, by simp [hraw]⟩

section Advance

variable {w : World}

/-- The connection stays in its stage, and no call is made. -/
theorem Advance.same (hconf : World.Confined (fun f => Plain f ∧ (stage c).established = true ∧
      (isRaw f = true → stage c = .opened)) (s.view k) w)
    (hshape : (stage c).Shape w) (hstack : w.stack = []) : Advance s stage c k w (stage c) where
  confined := hconf
  shape := hshape
  held := rfl
  established := id
  inUse := id
  jobs _ := rfl
  due := by simp [hstack]
  calls x hx := by simp [hstack] at hx
  below := .inl hstack
  finished := .inl

theorem Advance.evolves (hobj : Object s stage c k) (huse : (stage c).inUse = true)
    (hevolves : World.Evolves (s.view k) w) (hconf : World.Confined World.IsOwn (s.view k) w) :
    Advance s stage c k w (stage c) :=
  .same (confined_own hconf (Stage.established_of_inUse huse))
    (hobj.shape.evolves hevolves huse) hevolves.stack

theorem Advance.refl (hobj : Object s stage c k) : Advance s stage c k (s.view k) (stage c) :=
  .same (.refl _) hobj.shape rfl

/-- The connection goes to another stage; neither before nor after is a functor queued
that moves it. -/
theorem Advance.move {σ : Stage} (hconf : World.Confined World.IsOwn (s.view k) w)
    (hshape : σ.Shape w) (hheld : σ.held = (stage c).held) (hσ : σ.established = true)
    (huse : (stage c).inUse = true → σ.inUse = true)
    (hjob : (stage c).job c = none) (hjob' : σ.job c = none) (hcall : (stage c).call = none)
    (hdue : w.stack.filter isMove = σ.call.toList)
    (hcalls : ∀ x ∈ w.stack, x = .user ∨ x = .closeCallback ∨
      x = .remove ∧ (s.loops k.ioLoop).loop.eventHandling = false)
    (hbelow : w.stack = [] ∨ ∀ x ∈ (s.loops k.ioLoop).stack, x.2 ≠ .handleRead)
    (hfinished : stage c = .opened → σ = .opened ∨ Finished (s.loops k.ioLoop) c) :
    Advance s stage c k w σ where
  confined := confined_own hconf hσ
  shape := hshape
  held := hheld
  established _ := hσ
  inUse := huse
  jobs ℓ := by rw [Stage.jobsAt_of_job_eq_none hjob, Stage.jobsAt_of_job_eq_none hjob']
  due := by rw [hcall, hdue]; simp
  calls := hcalls
  below := hbelow
  finished := hfinished

theorem Advance.connectEstablished (hobj : Object s stage c k) (hstage : stage c = .opening)
    (hbelow : ∀ x ∈ (s.loops k.ioLoop).stack, x.2 ≠ .handleRead) :
    ∃ w, (s.view k).connectEstablished = .ok w ∧ w.trace.filterMap lifeOf = [] ∧
      Advance s stage c k w .opened := by
  have hfresh : (s.view k).Fresh := hobj.shape_of hstage
  refine ⟨_, hfresh.connectEstablished, rfl, ?_⟩
  refine .move (.connectEstablished hfresh.connectEstablished) (hfresh.open hobj.reading)
    ?_ rfl ?_ ?_ rfl ?_ rfl ?_ (.inr hbelow) ?_ <;> try rw [hstage]
  · rfl
  · exact fun huse => by cases huse
  · rfl
  · rfl
  · intro x hx
    exact .inl (List.mem_singleton.mp hx)
  · exact fun hopened => by cases hopened

/-- Data has been read from an open connection. -/
theorem Advance.message (hstage : stage c = .opened) (hopen : w.Open) {n : ℕ}
    (hkept : World.Kept (((s.view k).emit (.message n)).call [.user]) w)
    (hconf : World.Confined World.IsOwn (s.view k) w)
    (hbelow : ∀ x ∈ (s.loops k.ioLoop).stack, x.2 ≠ .handleRead) :
    Advance s stage c k w .opened := by
  have hstack : w.stack = [.user] := hkept.stack
  refine .move hconf hopen ?_ rfl ?_ ?_ rfl ?_ ?_ ?_ (.inr hbelow) fun _ => .inl rfl <;>
    simp [hstage, hstack, Stage.held, Stage.inUse, Stage.job, Stage.call, isMove]

/-- An open connection is closed, by the end of its stream or by `forceCloseInLoop`. -/
theorem Advance.closed (hobj : Object s stage c k) (hstage : stage c = .opened) {w₁ : World}
    (hopen : w₁.Open) (hkept : World.Kept (s.view k) w₁)
    (hchannel : w₁.conn.channel = k.conn.channel)
    (hconf : World.Confined World.IsOwn (s.view k) w₁.closed)
    (hbelow : ∀ x ∈ (s.loops k.ioLoop).stack, x.2 ≠ .handleRead)
    (hfinished : Finished (s.loops k.ioLoop) c) :
    w₁.closed.trace.filterMap lifeOf = [.handleClose] ∧
      Advance s stage c k w₁.closed .closing := by
  have hview : (s.view k).Open := hobj.shape_of hstage
  -- reading has never been switched off, so the close takes the descriptor out of `epoll`
  have hevents : w₁.conn.channel.isNoneEvent = false := by
    have hreading : k.conn.channel.events.read = true := hview.reading.symm.trans hobj.reading
    rw [hchannel, isNoneEvent_eq, decide_eq_false_iff_not]
    intro hnone
    rw [hnone] at hreading
    cases hreading
  have hstack : w₁.closed.stack = [.user, .closeCallback] := by
    show .user :: .closeCallback :: w₁.stack = _
    rw [hkept.stack]
    rfl
  refine ⟨?_, .move hconf ⟨hopen.shutDown.congr rfl rfl, hopen.shutDown_index hevents⟩ ?_ rfl ?_
    ?_ rfl ?_ ?_ ?_ (.inr hbelow) fun _ => .inr hfinished⟩
  · show (w₁.trace ++ [Event.handleClose] ++ [Event.connection false]).filterMap lifeOf = _
    rw [hkept.trace]
    rfl
  all_goals
    simp [hstage, hstack, Stage.held, Stage.inUse, Stage.job, Stage.call, isMove]

theorem Advance.connectDestroyed (hobj : Object s stage c k) (hstage : stage c = .dropping)
    (hidle : (s.loops k.ioLoop).loop.eventHandling = false)
    (hbelow : ∀ x ∈ (s.loops k.ioLoop).stack, x.2 ≠ .handleRead) :
    ∃ w, (s.view k).connectDestroyed = .ok w ∧ w.trace.filterMap lifeOf = [] ∧
      Advance s stage c k w .destroying := by
  have hshut : (s.view k).Shut ∧ k.conn.channel.index = EPollPoller.kDeleted := hobj.shape_of hstage
  refine ⟨_, hshut.1.connectDestroyed, rfl, ?_⟩
  refine .move (.connectDestroyed hshut.1.connectDestroyed)
    ⟨hshut.1.congr rfl rfl, hshut.2⟩ ?_ rfl ?_ ?_ rfl ?_ rfl ?_ (.inr hbelow) ?_ <;> try rw [hstage]
  · rfl
  · exact fun huse => by cases huse
  · rfl
  · rfl
  · intro x hx
    exact .inr (.inr ⟨List.mem_singleton.mp hx, hidle⟩)
  · exact fun hopened => by cases hopened

theorem Advance.removed (hobj : Object s stage c k) (hstage : stage c = .forgetting)
    (hidle : (s.loops k.ioLoop).loop.eventHandling = false) :
    ∃ w, (s.view k).remove = .ok w ∧ w.trace.filterMap lifeOf = [.channelRemoved] ∧
      Advance s stage c k w .destroyed := by
  have hshut : (s.view k).Shut := (hobj.shape_of hstage).1
  have hremovable : (s.view k).Removable := fun hhandling => by
    rw [show (s.view k).loop.eventHandling = false from hidle] at hhandling
    cases hhandling
  have hremove := hshut.remove hremovable
  refine ⟨_, hremove, rfl, ?_⟩
  refine .move (.remove hremove) hshut.removed_cleared ?_ rfl ?_ ?_ rfl ?_ rfl ?_ (.inl rfl) ?_ <;>
    try rw [hstage]
  · rfl
  · exact fun huse => by cases huse
  · rfl
  · rfl
  · exact fun x hx => absurd hx List.not_mem_nil
  · exact fun hopened => by cases hopened

end Advance

/-! ### Steps of a method -/

theorem apply_eq {method : World → Except TcpConnection.Fault World} {w : World}
    (hk : s.connection c = some k) (hloop : k.ioLoop = ℓ) (hw : method (s.view k) = .ok w) :
    s.apply ℓ c method = .ok (s.absorb c k w) := by
  simp only [State.apply, State.find, hk, ok_bind, ensure_of _ hloop, hw, Except.mapError]
  rfl

theorem touch_eq {method : World → World} (hk : s.connection c = some k) :
    s.touch c method = .ok (s.absorb c k (method (s.view k))) := by
  simp only [State.touch, State.find, hk, ok_bind]
  rfl

/-- A method that keeps a connection in its stage. -/
theorem Inv.absorb_same {w : World} (h : Inv s stage) (hk : s.connection c = some k)
    (ha : Advance s stage c k w (stage c)) (hlife : w.trace.filterMap lifeOf = []) :
    Inv (s.absorb c k w) stage := by
  have hcore := h.core.absorb hk ha
  rw [Function.update_eq_self] at hcore
  refine ⟨hcore, h.settled, fun d => ?_⟩
  rw [← h.logged d]
  simp [State.absorb, hlife]

theorem Inv.evolves {w : World} (h : Inv s stage) (hk : s.connection c = some k)
    (huse : (stage c).inUse = true) (hevolves : World.Evolves (s.view k) w)
    (hconf : World.Confined World.IsOwn (s.view k) w) : Inv (s.absorb c k w) stage := by
  refine h.absorb_same hk (.evolves (h.core.objects.object c k hk) huse hevolves hconf) ?_
  rw [hevolves.trace]
  rfl

theorem Inv.unchanged (h : Inv s stage) (hk : s.connection c = some k) :
    Inv (s.absorb c k (s.view k)) stage :=
  h.absorb_same hk (.refl (h.core.objects.object c k hk)) rfl

/-- Calls of the user in the thread of the loop do nothing to a connection that is not
open. -/
theorem Inv.userCall (h : Inv s stage) (method : World → Except TcpConnection.Fault World)
    (hk : s.connection c = some k) (hloop : k.ioLoop = ℓ)
    (hopen : (s.view k).Steady → ∃ w, method (s.view k) = .ok w ∧ World.Evolves (s.view k) w ∧
      World.Confined World.IsOwn (s.view k) w)
    (hother : (s.view k).conn.state ≠ .kConnected → (s.view k).conn.state ≠ .kDisconnecting →
      method (s.view k) = .ok (s.view k)) :
    ∃ s', s.apply ℓ c method = .ok s' ∧ Inv s' stage := by
  have hobj := h.core.objects.object c k hk
  by_cases huse : (stage c).inUse = true
  · obtain ⟨w, hw, hevolves, hconf⟩ := hopen (hobj.shape.steady huse)
    exact ⟨_, apply_eq hk hloop hw, h.evolves hk huse hevolves hconf⟩
  · have hno : ∀ state, (s.view k).conn.state = state →
        state = .kConnected ∨ state = .kDisconnecting → False := by
      rintro state rfl hs
      rw [hobj.shape.opened_of_state hs] at huse
      exact huse rfl
    have hw := hother (fun hs => hno _ hs (.inl rfl)) fun hs => hno _ hs (.inr rfl)
    exact ⟨_, apply_eq hk hloop hw, h.unchanged hk⟩

end Muduo.System.Serving
