import Muduo.Verification.Server.Methods

/-! The connections of a server are accounted for: no assertion fails, `connections_` holds
what it should, and every connection goes through its life in order. -/

namespace Muduo.System.Serving

open Library Net TcpConnection Lifecycle

variable {τ : Type} {s s' : State τ} {stage : ℕ → Stage} {c ℓ : ℕ} {k : Connection}

/-! ### Functors -/

theorem Inv.connectEstablished (hcore : Core s stage)
    (hsettled : Settled (Function.update stage c .opened)) (hlogged : Logged s stage)
    (hstage : stage c = .opening) (hhome : homeOf s.server c = ℓ)
    (hbelow : ∀ x ∈ (s.loops ℓ).stack, x.2 ≠ .handleRead) :
    ∃ s' stage', s.connectEstablished ℓ c = .ok s' ∧ Inv s' stage' := by
  obtain ⟨k, hk⟩ := hcore.objects.find (c := c) (by rw [hstage]; rfl)
  have hcore' := hcore.note c .connectEstablished
  have hobj := hcore'.objects.object c k hk
  have hloop : k.ioLoop = ℓ := hobj.ioLoop.trans hhome
  obtain ⟨w, hw, hlife, ha⟩ := Advance.connectEstablished hobj hstage (hloop ▸ hbelow)
  refine ⟨_, _, apply_eq hk hloop hw, hcore'.absorb hk ha, hsettled, ?_⟩
  refine hlogged.extend [.connectEstablished] ?_ (by rw [hstage]; rfl)
  simp [State.absorb, State.note, hlife]

theorem Inv.removeConnectionInLoop (hcore : Core s stage)
    (hsettled : Settled (Function.update stage c .removed)) (hlogged : Logged s stage)
    (hstage : stage c = .erasing) :
    ∃ s' stage', s.removeConnectionInLoop 0 c = .ok s' ∧ Inv s' stage' := by
  obtain ⟨s', hs', hlog, hcore'⟩ := hcore.removeConnectionInLoop hstage
  exact ⟨s', _, hs', hcore', hsettled,
    hlogged.extend [.removeConnectionInLoop] hlog (by rw [hstage]; rfl)⟩

theorem Inv.connectDestroyed (hcore : Core s stage)
    (hsettled : Settled (Function.update stage c .destroying)) (hlogged : Logged s stage)
    (hstage : stage c = .dropping) (hhome : homeOf s.server c = ℓ)
    (hidle : (s.loops ℓ).loop.eventHandling = false)
    (hbelow : ∀ x ∈ (s.loops ℓ).stack, x.2 ≠ .handleRead) :
    ∃ s' stage', (s.note c .connectDestroyed).apply ℓ c World.connectDestroyed = .ok s' ∧
      Inv s' stage' := by
  obtain ⟨k, hk⟩ := hcore.objects.find (c := c) (by rw [hstage]; rfl)
  have hcore' := hcore.note c .connectDestroyed
  have hobj := hcore'.objects.object c k hk
  have hloop : k.ioLoop = ℓ := hobj.ioLoop.trans hhome
  obtain ⟨w, hw, hlife, ha⟩ := Advance.connectDestroyed hobj hstage (hloop ▸ hidle)
    (hloop ▸ hbelow)
  refine ⟨_, _, apply_eq hk hloop hw, hcore'.absorb hk ha, hsettled, ?_⟩
  refine hlogged.extend [.connectDestroyed] ?_ (by rw [hstage]; rfl)
  simp [State.absorb, State.note, hlife]

/-- An open connection has been closed. -/
theorem Inv.closed (h : Inv s stage) (hk : s.connection c = some k) (hstage : stage c = .opened)
    {w : World} (hlife : w.trace.filterMap lifeOf = [.handleClose])
    (ha : Advance s stage c k w .closing) :
    Inv (s.absorb c k w) (Function.update stage c .closing) := by
  refine ⟨h.core.absorb hk ha, h.settled.restage (by simp), ?_⟩
  refine h.logged.extend [.handleClose] ?_ (by rw [hstage]; rfl)
  simp [State.absorb, hlife]

theorem Inv.forceCloseInLoop (h : Inv s stage) (hk : s.connection c = some k)
    (hest : (stage c).established = true) (hstack : (s.loops k.ioLoop).stack = [])
    (hphase : ∀ rest, (s.loops k.ioLoop).phase ≠ .events rest) :
    ∃ w stage', (s.view k).forceCloseInLoop = .ok w ∧ Inv (s.absorb c k w) stage' := by
  have hobj := h.core.objects.object c k hk
  have hshape := hobj.shape
  rcases hshape.opened_or hest with hstage | hdead
  · rw [hstage] at hshape
    have hclose : (s.view k).forceCloseInLoop = .ok (s.view k).closed :=
      (if_pos hshape.state).trans hshape.handleClose
    obtain ⟨hlife, ha⟩ := Advance.closed hobj hstage hshape (.refl _) rfl
      (.forceCloseInLoop hclose) (by simp [hstack])
      ⟨by simp [hstack], fun rest hrest => absurd hrest (hphase rest)⟩
    exact ⟨_, _, hclose, h.closed hk hstage hlife ha⟩
  · exact ⟨_, _, if_neg (by simp [hdead]), h.unchanged hk⟩

/-- A functor that does not belong to the life of its connection. -/
theorem Inv.runFunctor {f : Functor} {r : WriteResult} (h : Inv s stage) (hf : Plain f)
    (hhome : homeOf s.server c = ℓ) (hest : (stage c).established = true)
    (hraw : isRaw f = true → (stage c).inUse = true) (hr : r.Within f.offered)
    (hstack : (s.loops ℓ).stack = []) (hphase : ∀ rest, (s.loops ℓ).phase ≠ .events rest) :
    ∃ s' stage', s.apply ℓ c (fun w => w.runFunctor r f) = .ok s' ∧ Inv s' stage' := by
  obtain ⟨k, hk⟩ := h.core.objects.find (Stage.alive_of_established hest)
  have hobj := h.core.objects.object c k hk
  have hloop : k.ioLoop = ℓ := hobj.ioLoop.trans hhome
  cases f with
  | sendInLoop message =>
      obtain ⟨w, hw, hevolves⟩ := (hobj.shape.steady (hraw rfl)).sendInLoop message r hr
      exact ⟨_, _, apply_eq hk hloop hw, h.evolves hk (hraw rfl) hevolves (.sendInLoop hw)⟩
  | shutdownInLoop =>
      exact ⟨_, _, apply_eq hk hloop rfl,
        h.evolves hk (hraw rfl) (.shutdownInLoop _) (.shutdownInLoop _)⟩
  | forceCloseInLoop =>
      subst hloop
      obtain ⟨w, stage', hw, hinv⟩ := h.forceCloseInLoop hk hest hstack hphase
      exact ⟨_, stage', apply_eq hk rfl hw, hinv⟩
  | writeCompleteCallback => exact ⟨_, _, apply_eq hk hloop rfl, h.unchanged hk⟩
  | highWaterMarkCallback size => exact ⟨_, _, apply_eq hk hloop rfl, h.unchanged hk⟩
  | _ => exact hf.elim

/-- Taking a connection to the stage after the next. -/
theorem settled_taken {σ : Stage} (h : Settled stage)
    (hσ : σ ≠ .opening ∧ σ ≠ .erasing ∧ σ ≠ .dropping ∧ σ ≠ .forgetting) (σ' : Stage) :
    Settled (Function.update (Function.update stage c σ') c σ) := by
  rw [Function.update_idem]
  exact h.restage hσ

theorem runJob_onConnection {f : Functor} (hf : f ≠ .connectDestroyed) (s : State τ) (ℓ : ℕ)
    (r : WriteResult) (c : ℕ) :
    s.runJob ℓ r (.onConnection c f) = s.apply ℓ c fun w => w.runFunctor r f := by
  cases f <;> first | rfl | exact absurd rfl hf

theorem Inv.runJob {j : Job} {rest : List Job} {r : WriteResult} (h : Inv s stage)
    (hphase : (s.loops ℓ).phase = .batch (j :: rest)) (hstack : (s.loops ℓ).stack = [])
    (hr : r.Within (s.loops ℓ).offered) :
    ∃ s' stage', (s.setLoop ℓ { s.loops ℓ with phase := .batch rest }).runJob ℓ r j = .ok s' ∧
      Inv s' stage' := by
  have hq := h.core.queued ℓ
  simp only [LoopThread.jobs, hphase, List.cons_append] at hq
  set s₁ := s.setLoop ℓ { s.loops ℓ with phase := .batch rest } with hs₁
  have hloop : s₁.loops ℓ = { s.loops ℓ with phase := .batch rest } := setLoop_self ..
  have hstack₁ : (s₁.loops ℓ).stack = [] := by rw [hloop, ← hstack]
  have hidle : (s₁.loops ℓ).loop.eventHandling = false := by
    rw [hloop]
    exact ((h.core.stacked ℓ).idle (by simp [hphase])).1
  have hbelow : ∀ x ∈ (s₁.loops ℓ).stack, x.2 ≠ .handleRead := by simp [hstack₁]
  cases j with
  | connectEstablished c =>
      obtain ⟨hplace, hjob, -⟩ := hq.head (c := c) rfl
      have hstage : stage c = .accepted := Stage.eq_of_job hjob rfl
      refine Inv.connectEstablished (h.core.popJob hphase hstack rfl)
        (settled_taken h.settled (by simp) _) (h.logged.taken rfl c) ?_ ?_ hbelow
      · rw [Function.update_self, hstage]
        rfl
      · rwa [hstage] at hplace
  | removeConnectionInLoop c =>
      obtain ⟨hplace, hjob, -⟩ := hq.head (c := c) rfl
      have hstage : stage c = .removing := Stage.eq_of_job hjob rfl
      rw [hstage] at hplace
      subst hplace
      refine Inv.removeConnectionInLoop (h.core.popJob hphase hstack rfl)
        (settled_taken h.settled (by simp) _) (h.logged.taken rfl c) ?_
      rw [Function.update_self, hstage]
      rfl
  | onConnection c f =>
      by_cases hf : f = .connectDestroyed
      · subst hf
        obtain ⟨hplace, hjob, -⟩ := hq.head (c := c) rfl
        have hstage : stage c = .removed := Stage.eq_of_job hjob rfl
        refine Inv.connectDestroyed (h.core.popJob hphase hstack rfl)
          (settled_taken h.settled (by simp) _) (h.logged.taken rfl c) ?_ ?_ hidle hbelow
        · rw [Function.update_self, hstage]
          rfl
        · rwa [hstage] at hplace
      · obtain ⟨hplain, hhome, hest, hraw⟩ := hq.plain c f List.mem_cons_self hf
        have hmoves : (Job.onConnection c f).moves = none := by
          cases f <;> first | rfl | exact absurd rfl hf
        have hinv : Inv s₁ stage := ⟨h.core.popJob_plain hphase hmoves, h.settled, h.logged⟩
        rw [runJob_onConnection hf]
        refine hinv.runFunctor hplain hhome hest hraw ?_ hstack₁ (by simp [hloop])
        simpa [LoopThread.offered, hphase] using hr

/-! ### Calls -/

theorem Inv.handleRead {read : Except ℕ (List UInt8)} (h : Inv s stage)
    (hk : s.connection c = some k) (hstage : stage c = .opened)
    (hbelow : ∀ x ∈ (s.loops k.ioLoop).stack, x.2 ≠ .handleRead)
    (hfinished : Finished (s.loops k.ioLoop) c) :
    ∃ w stage', (s.view k).handleRead read = .ok w ∧ Inv (s.absorb c k w) stage' := by
  have hobj := h.core.objects.object c k hk
  have hopen := hobj.shape_of hstage
  obtain ⟨w, hw, hcases⟩ := World.Open.handleRead hopen read
  have hconf := World.Confined.handleRead hw
  rcases hcases with ⟨hopen', hkept | ⟨n, hkept⟩⟩ | ⟨-, w₁, hopen₁, hkept, hchannel, rfl⟩
  · refine ⟨w, stage, hw, h.evolves hk (by rw [hstage]; rfl) (.of_open hopen hkept hopen') hconf⟩
  · refine ⟨w, stage, hw, h.absorb_same hk ?_ ?_⟩
    · rw [hstage]
      exact .message hstage hopen' hkept hconf hbelow
    · rw [hkept.trace]
      rfl
  · obtain ⟨hlife, ha⟩ := Advance.closed hobj hstage hopen₁ hkept hchannel hconf hbelow hfinished
    exact ⟨_, _, hw, h.closed hk hstage hlife ha⟩

theorem Inv.removeConnection (hcore : Core s stage)
    (hsettled : ∀ σ, σ ≠ .opening ∧ σ ≠ .erasing ∧ σ ≠ .dropping ∧ σ ≠ .forgetting →
      Settled (Function.update stage c σ))
    (hlogged : Logged s stage) (hstage : stage c = .erasing) :
    ∃ s' stage', s.removeConnection ℓ c = .ok s' ∧ Inv s' stage' := by
  unfold State.removeConnection
  split
  next hℓ =>
    subst hℓ
    exact Inv.removeConnectionInLoop hcore (hsettled _ (by simp)) hlogged hstage
  next =>
    refine ⟨_, _, rfl, hcore.queueRemoval hstage, hsettled _ (by simp), ?_⟩
    exact hlogged.extend [] (by simp [State.queueInLoop, State.setLoop]) (by rw [hstage]; rfl)

/-- The channel that is being handled does not come again in this iteration. -/
theorem Core.finished_of_handleRead {rest : List (ℕ × Call)} (h : Core s stage)
    (hstack : (s.loops ℓ).stack = (c, .handleRead) :: rest) :
    Finished { s.loops ℓ with stack := rest } c := by
  have hcall := (h.stacked ℓ).calls (c, .handleRead) (by rw [hstack]; exact List.mem_cons_self)
  obtain ⟨hstage, hcurrent⟩ := hcall.reads rfl
  refine ⟨fun hmem => (h.stacked ℓ).rest_reads hstack _ hmem rfl, fun rest' hrest x hx hxc => ?_⟩
  have hpos : c ≠ 0 := by
    rintro rfl
    have hborn := (h.registry.born 0).mpr (by simp)
    rw [hstage] at hborn
    cases hborn
  exact ((h.stacked ℓ).events rest' hrest x hx (hxc ▸ hpos)).later (hxc ▸ hcurrent)

/-- The channel of a connection that has been destroyed leaves its poller. -/
theorem Inv.remove {rest : List (ℕ × Call)} {read : Except ℕ (List UInt8)} {r : WriteResult}
    (h : Inv s stage) (hk : s.connection c = some k) (hloop : k.ioLoop = ℓ)
    (hstack : (s.loops ℓ).stack = (c, .remove) :: rest) :
    ∃ s' stage',
      (s.setLoop ℓ { s.loops ℓ with stack := rest }).runCall ℓ c read r .remove = .ok s' ∧
        Inv s' stage' := by
  have hcall := (h.core.stacked ℓ).calls (c, .remove) (by rw [hstack]; exact List.mem_cons_self)
  set s₁ := s.setLoop ℓ { s.loops ℓ with stack := rest } with hs₁
  have hk₁ : s₁.connection c = some k := hk
  have hcore := h.core.popCall hstack rfl
  have hstage : Function.update stage c (stage c).taken c = .forgetting := by
    rw [Function.update_self, Stage.eq_of_call ((h.core.stacked ℓ).head hstack rfl).1
      (rfl : Stage.destroying.call = _)]
    rfl
  have hidle : (s₁.loops k.ioLoop).loop.eventHandling = false := by
    rw [hloop, hs₁, setLoop_self]
    exact hcall.removes rfl
  obtain ⟨w, hw, hlife, ha⟩ := Advance.removed (hcore.objects.object c k hk₁) hstage hidle
  refine ⟨_, _, apply_eq hk₁ hloop hw, hcore.absorb hk₁ ha,
    settled_taken h.settled (by simp) _, ?_⟩
  have hlogged : Logged s₁ _ := h.logged.taken rfl c
  refine hlogged.extend [.channelRemoved] ?_ ?_
  · simp [State.absorb, hlife]
  · rw [hstage]
    rfl

theorem Inv.runCall {call : Call} {rest : List (ℕ × Call)} {read : Except ℕ (List UInt8)}
    {r : WriteResult} (h : Inv s stage) (hstack : (s.loops ℓ).stack = (c, call) :: rest)
    (hr : r.Within (s.pendingOutput ℓ)) :
    ∃ s' stage', (s.setLoop ℓ { s.loops ℓ with stack := rest }).runCall ℓ c read r call = .ok s' ∧
      Inv s' stage' := by
  have hcall := (h.core.stacked ℓ).calls (c, call) (by rw [hstack]; exact List.mem_cons_self)
  obtain ⟨k, hk⟩ := h.core.objects.find hcall.alive
  have hloop : k.ioLoop = ℓ := (h.core.objects.object c k hk).ioLoop.trans hcall.home
  set s₁ := s.setLoop ℓ { s.loops ℓ with stack := rest } with hs₁
  have hk₁ : s₁.connection c = some k := hk
  have hloop₁ : s₁.loops ℓ = { s.loops ℓ with stack := rest } := setLoop_self ..
  have hplain : isMove call = false → Inv s₁ stage := fun hmove =>
    ⟨h.core.popCall_plain hstack hmove, h.settled, h.logged⟩
  cases call with
  | handleClose => exact absurd rfl hcall.noClose
  | handleRead =>
      have hbelow : ∀ x ∈ (s₁.loops ℓ).stack, x.2 ≠ .handleRead := by
        rw [hloop₁]
        exact (h.core.stacked ℓ).rest_reads hstack
      have hfinished : Finished (s₁.loops ℓ) c := by
        rw [hloop₁]
        exact h.core.finished_of_handleRead hstack
      subst hloop
      obtain ⟨w, stage', hw, hinv⟩ :=
        (hplain rfl).handleRead hk₁ (hcall.reads rfl).1 hbelow hfinished
      refine ⟨_, stage', ?_, hinv⟩
      rw [State.runCall]
      exact apply_eq hk₁ rfl hw
  | handleWrite =>
      have hinv := hplain rfl
      have huse := hcall.writes rfl
      have hwithin : r.Within (s₁.view k).conn.outputBuffer.readableBytes := by
        show r.Within k.conn.outputBuffer.readableBytes
        simpa [State.pendingOutput, hstack, hk] using hr
      obtain ⟨w, hw, hevolves⟩ :=
        ((hinv.core.objects.object c k hk₁).shape.steady huse).handleWrite r hwithin
      refine ⟨_, stage, ?_, hinv.evolves hk₁ huse hevolves (.handleWrite hw)⟩
      rw [State.runCall]
      exact apply_eq hk₁ hloop hw
  | user => exact ⟨_, stage, rfl, hplain rfl⟩
  | closeCallback =>
      have hstage : stage c = .closing :=
        Stage.eq_of_call ((h.core.stacked ℓ).head hstack rfl).1 rfl
      refine Inv.removeConnection (h.core.popCall hstack rfl)
        (fun σ hσ => settled_taken h.settled hσ _) (h.logged.taken rfl c) ?_
      rw [Function.update_self, hstage]
      rfl
  | remove => exact h.remove hk hloop hstack

/-! ### The other threads -/

theorem Inv.setPc [DecidableEq τ] (h : Inv s stage) (t : τ) (pc : Pc)
    (hpc : ∀ c, pc.connection = some c → (stage c).established = true) :
    Inv (s.setPc t pc) stage := by
  refine ⟨⟨h.core.objects.congr rfl (fun _ => rfl) rfl rfl, h.core.registry, h.core.queued,
    h.core.stacked, fun u c hc => ?_⟩, h.settled, h.logged⟩
  by_cases hu : u = t
  · subst hu
    exact hpc c (by simpa [State.setPc] using hc)
  · exact h.core.threads u c (by simpa [State.setPc, hu] using hc)

/-- A test of `state_` that passes finds the connection open. -/
theorem Inv.opened_of_stateOf (h : Inv s stage) {state : StateE} (hs : s.stateOf c = some state)
    (hstate : state = .kConnected ∨ state = .kDisconnecting) : stage c = .opened := by
  unfold State.stateOf at hs
  obtain ⟨k, hk, rfl⟩ := Option.map_eq_some_iff.mp hs
  exact (h.core.objects.object c k hk).shape.opened_of_state hstate

/-- What another thread does to an open connection. -/
theorem Inv.touch (h : Inv s stage) (hstage : stage c = .opened) (method : World → World)
    (hopen : ∀ w : World, w.Open → (method w).Open) (hstack : ∀ w, (method w).stack = w.stack)
    (htrace : ∀ w, (method w).trace = w.trace)
    (hconf : ∀ w, World.Confined (fun f => Plain f) w (method w)) :
    ∃ s', s.touch c method = .ok s' ∧ Inv s' stage := by
  obtain ⟨k, hk⟩ := h.core.objects.find (c := c) (by rw [hstage]; rfl)
  have hshape := (h.core.objects.object c k hk).shape
  have hconf' := hconf (s.view k)
  refine ⟨_, touch_eq hk, h.absorb_same hk (.same ?_ ?_ ?_) ?_⟩
  · obtain ⟨fs, hfs, hplain⟩ := hconf'.queued
    refine ⟨hconf'.fd, hconf'.self, hconf'.reading, hconf'.elsewhere, hconf'.eventHandling,
      hconf'.activeChannels, hconf'.current, fs, hfs, fun f hf => ?_⟩
    rw [hstage]
    exact ⟨hplain f hf, rfl, fun _ => rfl⟩
  · rw [hstage] at hshape ⊢
    exact hopen _ hshape
  · rw [hstack]
    rfl
  · rw [htrace]
    rfl

/-- A strong functor may be queued for any connection that has been established. -/
theorem Inv.queue_strong {f : Functor} (h : Inv s stage) (hf : Plain f) (hraw : isRaw f = false)
    (hest : (stage c).established = true) :
    ∃ s', s.touch c (·.queueInLoop f) = .ok s' ∧ Inv s' stage := by
  obtain ⟨k, hk⟩ := h.core.objects.find (Stage.alive_of_established hest)
  have hshape := (h.core.objects.object c k hk).shape
  refine ⟨_, touch_eq hk, h.absorb_same hk (.same ?_ (hshape.congr ⟨rfl, rfl, rfl, rfl⟩) rfl) rfl⟩
  exact .queueInLoop _ ⟨hf, hest, by simp [hraw]⟩

/-- A step that comes too late: a thread whose test of `state_` passed before the close
sets `kDisconnecting`, or queues a functor that does not own the connection, after it. -/
def late (s : State τ) : Label τ → Bool
  | .setDisconnecting t =>
      match s.pc t with
      | .tested c _ => s.stateOf c = some .kDisconnected
      | _ => false
  | .queueSend t =>
      match s.pc t with
      | .sending c _ => s.stateOf c = some .kDisconnected
      | _ => false
  | .queueClose t =>
      match s.pc t with
      | .set c .shutdown => s.stateOf c = some .kDisconnected
      | _ => false
  | _ => false

theorem Inv.opened_of_not_late (h : Inv s stage) (hest : (stage c).established = true)
    (hlate : s.stateOf c ≠ some .kDisconnected) : stage c = .opened := by
  obtain ⟨k, hk⟩ := h.core.objects.find (Stage.alive_of_established hest)
  rcases (h.core.objects.object c k hk).shape.opened_or hest with hstage | hdead
  · exact hstage
  · refine absurd ?_ hlate
    rw [State.stateOf, hk, Option.map_some]
    exact congrArg some hdead

/-! ### Every step -/

theorem Inv.newConnection {fd : ℤ} {writeComplete highWater : Bool} (h : Inv s stage)
    (haccepting : (s.loops 0).accepting = true) (hlt : s.server.nextConnId < 2 ^ 31)
    (hfd : ∀ c < s.server.nextConnId, ∀ k ∈ s.connection c, k.conn.channel.fd ≠ fd) :
    ∃ s' stage', s.newConnection fd writeComplete highWater = .ok s' ∧ Inv s' stage' := by
  obtain ⟨server, henter, hhome, hname, hregistry⟩ := h.core.registry.enter hlt
  have hunborn : stage s.server.nextConnId = .unborn :=
    (h.core.registry.born _).mpr fun hborn => Nat.lt_irrefl _ hborn.2
  have hfd' : ∀ d k, s.connection d = some k → k.conn.channel.fd ≠ fd := by
    intro d k hk
    exact hfd d (not_not.mp (mt (h.core.registry.born d).mpr (h.core.objects.born hk))).2 k hk
  have hstack : (s.loops 0).stack = [] := by
    unfold LoopThread.accepting at haccepting
    split at haccepting
    · assumption
    · cases haccepting
  set c := s.server.nextConnId with hc
  set k : Connection :=
    { conn := .init c fd writeComplete highWater, socket := ⟨[], none⟩
      ioLoop := homeOf s.server c, name := s.server.connName c } with hk
  set s₁ : State τ :=
    { s with server := server, connection := Function.update s.connection c (some k) } with hs₁
  have hcore : Core s₁ (Function.update stage c .opening) :=
    h.core.create hhome hname hunborn hregistry hfd' rfl rfl rfl rfl
  have hlogged : Logged (s₁.note c .newConnection) (Function.update stage c .opening) :=
    h.logged.extend [.newConnection] rfl (by rw [hunborn]; rfl)
  have hself : Function.update stage c Stage.opening c = .opening := Function.update_self ..
  have heq : s.newConnection fd writeComplete highWater =
      if homeOf s.server c = 0 then (s₁.note c .newConnection).connectEstablished 0 c
      else .ok ((s₁.note c .newConnection).queueInLoop (homeOf s.server c)
        (.connectEstablished c)) := by
    simp only [State.newConnection, henter, ← hk, ← hs₁]
  rw [heq]
  split
  next hbase =>
    refine Inv.connectEstablished (hcore.note c _) (settled_taken h.settled (by simp) _) hlogged
      hself ?_ ?_
    · show homeOf server c = 0
      rw [hhome, hbase]
    · show ∀ x ∈ (s.loops 0).stack, x.2 ≠ .handleRead
      simp [hstack]
  next hpool =>
    refine ⟨_, Function.update (Function.update stage c .opening) c .accepted, rfl, ?_,
      settled_taken h.settled (by simp) _, ?_⟩
    · have hnote := hcore.note c .newConnection
      refine hnote.await (c := c) rfl rfl ?_ ?_ ?_ ?_ ?_ ?_ ?_ ?_ ?_ ?_
      · exact hcore.registry.restage (by rw [hself]; rfl) (by rw [hself]; simp)
      · rw [hself]
        exact fun w hw => hw
      · rw [hself]
        rfl
      · rw [hself]
        rfl
      · rfl
      · show homeOf server c = _
        rw [hhome]
      · rw [hself]
        rfl
      · rw [hself]
        simp
      · rw [hself]
        exact fun hest => by cases hest
      · rw [hself]
        exact fun huse => by cases huse
    · exact hlogged.extend [] (by simp [State.queueInLoop, State.setLoop]) (by rw [hself]; rfl)

/-- A thread that is not late has its connection open. -/
theorem Inv.opened_of_pc {t : τ} (h : Inv s stage) (hpc : (s.pc t).connection = some c)
    (hlate : s.stateOf c ≠ some .kDisconnected) : stage c = .opened :=
  h.opened_of_not_late (h.core.threads t c hpc) hlate

section OtherThreads

variable [DecidableEq τ] {t : τ}

/-- A thread has found the connection open. -/
theorem Inv.setPc_opened (h : Inv s stage) {pc : Pc} (hpc : pc.connection = some c)
    (hstage : stage c = .opened) : Inv (s.setPc t pc) stage :=
  h.setPc t pc fun d hd => by
    rw [← Option.some.inj (hpc.symm.trans hd), hstage]
    rfl

theorem Inv.testSend (h : Inv s stage) (message : List UInt8) :
    ∃ s', exec s (.testSend t c message) = .ok s' ∧ Inv s' stage := by
  refine ⟨_, rfl, ?_⟩
  split
  next hs => exact h.setPc_opened rfl (h.opened_of_stateOf hs (.inl rfl))
  · exact h

theorem Inv.queueSend (h : Inv s stage) (hlate : late s (.queueSend t) = false) :
    ∃ s', exec s (.queueSend t) = .ok s' ∧ Inv s' stage := by
  simp only [exec]
  split
  next c message hpc =>
    have hstage : stage c = .opened :=
      h.opened_of_pc (by rw [hpc]; rfl) (by simpa [late, hpc] using hlate)
    exact (h.setPc t .idle (by simp [Pc.connection])).touch hstage
      (·.queueInLoop (.sendInLoop message)) (fun w hw => hw.congr rfl rfl) (fun _ => rfl)
      (fun _ => rfl) fun w => .queueInLoop w trivial
  · exact ⟨s, rfl, h⟩

theorem Inv.testClose (h : Inv s stage) (closer : Closer) :
    ∃ s', exec s (.testClose t c closer) = .ok s' ∧ Inv s' stage := by
  refine ⟨_, rfl, ?_⟩
  split
  next hs =>
    obtain ⟨state, hstate, htests⟩ := hs
    refine h.setPc_opened rfl (h.opened_of_stateOf hstate ?_)
    cases closer with
    | shutdown => exact .inl htests
    | forceClose => exact htests
  · exact h

theorem Inv.setDisconnecting (h : Inv s stage) (hlate : late s (.setDisconnecting t) = false) :
    ∃ s', exec s (.setDisconnecting t) = .ok s' ∧ Inv s' stage := by
  simp only [exec]
  split
  next c closer hpc =>
    have hstage : stage c = .opened :=
      h.opened_of_pc (by rw [hpc]; rfl) (by simpa [late, hpc] using hlate)
    have hset : Inv (s.setPc t (.set c closer)) stage := h.setPc_opened rfl hstage
    exact hset.touch hstage (·.setState .kDisconnecting) (fun w hw => hw.disconnecting)
      (fun _ => rfl) (fun _ => rfl) fun w => .setState w _
  · exact ⟨s, rfl, h⟩

/-- The functor of `forceClose` owns its connection, so it may come late. -/
theorem Inv.queueClose (h : Inv s stage) (hlate : late s (.queueClose t) = false) :
    ∃ s', exec s (.queueClose t) = .ok s' ∧ Inv s' stage := by
  simp only [exec]
  split
  next c closer hpc =>
    have hidle := h.setPc t .idle (by simp [Pc.connection])
    cases closer with
    | shutdown =>
        have hstage : stage c = .opened :=
          h.opened_of_pc (by rw [hpc]; rfl) (by simpa [late, hpc] using hlate)
        exact hidle.touch hstage (·.queueInLoop .shutdownInLoop) (fun w hw => hw.congr rfl rfl)
          (fun _ => rfl) (fun _ => rfl) fun w => .queueInLoop w trivial
    | forceClose =>
        have hest := h.core.threads t c (by rw [hpc]; rfl)
        exact hidle.queue_strong (f := .forceCloseInLoop) trivial rfl hest
  · exact ⟨s, rfl, h⟩

end OtherThreads

/-- A step after which every connection is in the stage it was in. -/
theorem Inv.same_stage {x : Except Fault (State τ)} (h : ∃ s', x = .ok s' ∧ Inv s' stage) :
    ∃ s', x = .ok s' ∧ ∃ stage', Inv s' stage' := by
  obtain ⟨s', hs', hinv⟩ := h
  exact ⟨s', hs', stage, hinv⟩

theorem exec_inv [DecidableEq τ] {l : Label τ} (h : Inv s stage) (he : Enabled s l)
    (hlate : late s l = false) :
    ∃ s', exec s l = .ok s' ∧ ∃ stage', Inv s' stage' := by
  cases l with
  | testSend t c message => exact Inv.same_stage (h.testSend message)
  | queueSend t => exact Inv.same_stage (h.queueSend hlate)
  | testClose t c closer => exact Inv.same_stage (h.testClose closer)
  | setDisconnecting t => exact Inv.same_stage (h.setDisconnecting hlate)
  | queueClose t => exact Inv.same_stage (h.queueClose hlate)
  | newConnection fd writeComplete highWater =>
      obtain ⟨s', stage', hs', hinv⟩ := h.newConnection he.1 he.2.1 he.2.2
      exact ⟨s', hs', stage', hinv⟩
  | send ℓ c message r =>
      obtain ⟨-, ⟨k, hk, hloop⟩, hr⟩ := he
      exact Inv.same_stage (h.userCall (fun w => w.send message r) hk hloop
        (fun hsteady => by
          obtain ⟨w, hw, hevolves⟩ := hsteady.send message r hr
          exact ⟨w, hw, hevolves, .send hw⟩)
        fun hs _ => if_neg hs)
  | shutdown ℓ c =>
      obtain ⟨-, k, hk, hloop⟩ := he
      exact Inv.same_stage (h.userCall (fun w => .ok w.shutdown) hk hloop
        (fun _ => ⟨_, rfl, .shutdown _, .shutdown _⟩)
        fun hs _ => congrArg Except.ok (if_neg hs))
  | forceClose ℓ c =>
      obtain ⟨-, k, hk, hloop⟩ := he
      exact Inv.same_stage (h.userCall (fun w => .ok w.forceClose) hk hloop
        (fun _ => ⟨_, rfl, .forceClose _, .forceClose _⟩)
        fun hs hs' => congrArg Except.ok (if_neg (not_or.mpr ⟨hs, hs'⟩)))
  | poll ℓ active =>
      obtain ⟨hphase, hstack, hnodup, hready⟩ := he
      exact ⟨_, rfl, stage, h.core.poll hphase hstack hnodup hready, h.settled, h.logged⟩
  | nextChannel ℓ =>
      refine ⟨_, rfl, stage, ?_⟩
      split
      next channel revents rest hphase =>
        exact ⟨h.core.activate hphase he, h.settled, h.logged⟩
      · exact h
  | doPendingFunctors ℓ =>
      exact ⟨_, rfl, stage, h.core.doPendingFunctors he.2 he.1, h.settled, h.logged⟩
  | runFunctor ℓ r =>
      simp only [exec]
      split
      next job rest hphase =>
        obtain ⟨s', stage', hs', hinv⟩ := h.runJob hphase he.1 he.2
        exact ⟨s', hs', stage', hinv⟩
      · exact ⟨s, rfl, stage, h⟩
  | endBatch ℓ => exact ⟨_, rfl, stage, h.core.endBatch he.2, h.settled, h.logged⟩
  | runCall ℓ read r =>
      simp only [exec]
      split
      next c call rest hstack =>
        obtain ⟨s', stage', hs', hinv⟩ := h.runCall hstack he
        exact ⟨s', hs', stage', hinv⟩
      · exact ⟨s, rfl, stage, h⟩
  | destruct c =>
      obtain ⟨hsome, hunowned⟩ := he
      obtain ⟨k, hk⟩ := Option.isSome_iff_exists.mp hsome
      have hstage := h.core.destroyed_of_unowned hk hunowned (h.settled c)
      obtain ⟨s', hs', hlog, hcore⟩ := h.core.destruct hk hunowned hstage
      exact ⟨s', hs', _, hcore, h.settled.restage (by simp),
        h.logged.extend [.fdClosed] hlog (by rw [hstage]; rfl)⟩

/-! ### Every run -/

theorem start_inv (name : List Char) (ipPort : IpPort) (numThreads : ℕ) :
    Inv (start name ipPort numThreads : State τ) fun _ => .unborn where
  core :=
    { objects := by
        refine ⟨fun _ => rfl, fun c k hk => ?_, fun c d k k' hk => ?_, fun ℓ f hf => ?_⟩
        · cases hk
        · cases hk
        · rcases hf with hf | hf <;> exact absurd rfl hf
      registry := by
        refine ⟨fun c => ?_, fun n c => ?_, fun hn => ?_, Nat.one_pos, ?_⟩
        · refine iff_of_true rfl fun hc => ?_
          have hlt : c < 1 := hc.2
          omega
        · exact iff_of_false (fun hn => by cases hn) fun hheld => by cases hheld.1
        · exact (Nat.zero_mod _).symm
        · show 1 ≤ 2 ^ 31
          decide
      queued := fun ℓ => .nil fun c => Stage.jobsAt_of_job_eq_none rfl _ _
      stacked := fun ℓ =>
        { calls := fun x hx => absurd hx List.not_mem_nil
          below := fun x hx => absurd hx List.not_mem_nil
          nodup := fun rest hrest => by cases hrest
          events := fun rest hrest => by cases hrest
          idle := fun _ => ⟨rfl, rfl⟩
          due := fun c => (Stage.callsAt_of_call_eq_none rfl _ _ _).symm }
      threads := fun t c hc => by cases hc }
  settled _ := by simp
  logged _ := rfl

/-- The life of a connection, in order. -/
def wholeLife : List Life :=
  [.newConnection, .connectEstablished, .handleClose, .removeConnectionInLoop, .connectDestroyed,
    .channelRemoved, .fdClosed]

/-- The books of a server are in order. -/
structure Accounted (s : State τ) : Prop where
  -- the connections that have been accepted and not been removed, under their names
  holds : ∀ n c, s.server.connections n = some c ↔
    (c, .newConnection) ∈ s.log ∧ (c, .removeConnectionInLoop) ∉ s.log ∧
      ∃ k, s.connection c = some k ∧ k.name = n
  names : ∀ c d k k', s.connection c = some k → s.connection d = some k' → k.name = k'.name →
    c = d
  -- each step of a life at most once, and in order
  ordered : ∀ c, (s.log.filter (fun x => x.1 = c)).map Prod.snd <+: wholeLife
  -- a poller knows descriptors of existing channels only
  registered : ∀ ℓ f c, (s.loops ℓ).loop.poller.channels f = some c →
    ∃ k, s.connection c = some k ∧ k.ioLoop = ℓ ∧ k.conn.channel.fd = f
  separate : ∀ c d k k', s.connection c = some k → s.connection d = some k' →
    k.ioLoop = k'.ioLoop → k.conn.channel.index ≠ EPollPoller.kNew →
    k'.conn.channel.index ≠ EPollPoller.kNew → k.conn.channel.fd = k'.conn.channel.fd → c = d

theorem Logged.mem_iff (h : Logged s stage) {life : Life} :
    (c, life) ∈ s.log ↔ life ∈ (stage c).life := by
  rw [← h c]
  simp

theorem Inv.accounted (h : Inv s stage) : Accounted s where
  holds n c := by
    have hheld : (stage c).held = true ↔ (c, .newConnection) ∈ s.log ∧
        (c, .removeConnectionInLoop) ∉ s.log := by
      rw [h.logged.mem_iff, h.logged.mem_iff]
      cases stage c <;> simp [Stage.held, Stage.life]
    rw [h.core.registry.holds, hheld, and_assoc]
    refine and_congr_right fun hnew => and_congr_right fun hkept => ?_
    have halive : (stage c).alive = true := by
      have := hheld.mpr ⟨hnew, hkept⟩
      cases hσ : stage c <;> rw [hσ] at this <;> first | rfl | cases this
    obtain ⟨k, hk⟩ := h.core.objects.find halive
    have hname := (h.core.objects.object c k hk).name
    constructor
    · intro hn
      exact ⟨k, hk, hname.trans hn⟩
    · rintro ⟨k', hk', hn⟩
      obtain rfl := Option.some.inj (hk.symm.trans hk')
      exact hname.symm.trans hn
  names c d k k' hk hk' hname := by
    rw [(h.core.objects.object c k hk).name, (h.core.objects.object d k' hk').name] at hname
    exact connName_inj (h.core.registry.lt (h.core.objects.born hk))
      (h.core.registry.lt (h.core.objects.born hk')) hname
  ordered c := by
    rw [h.logged c]
    cases stage c <;> decide
  registered ℓ f c hc := by
    obtain ⟨d, k, hk, rfl, rfl⟩ := h.core.objects.known ℓ f (.inl (by simp [hc]))
    have hobj := h.core.objects.object d k hk
    obtain rfl : d = c := hobj.self.symm.trans (hobj.shape.known hc)
    exact ⟨k, hk, rfl, rfl⟩
  separate c d k k' hk hk' _ _ _ hfd := h.core.objects.apart c d k k' hk hk' hfd

/-- For every interleaving of accepts, events, calls and functors, with any number of
loops, connections and threads, a server keeps its books in order and no assertion fails,
provided that no call of another thread straddles the close of its connection. -/
theorem connections_accounted [DecidableEq τ] (name : List Char) (ipPort : IpPort)
    (numThreads : ℕ) (ls : List (Label τ))
    (hl : LegalRun exec (fun s l => Enabled s l ∧ late s l = false)
      (start name ipPort numThreads) ls) :
    ∃ s, run exec (start name ipPort numThreads) ls = .ok s ∧ Accounted s := by
  have hstep : ∀ (s : State τ) (l : Label τ), (∃ stage, Inv s stage) →
      (Enabled s l ∧ late s l = false) → ∃ s', exec s l = .ok s' ∧ ∃ stage, Inv s' stage := by
    rintro s l ⟨stage, h⟩ ⟨he, hlate⟩
    exact exec_inv h he hlate
  obtain ⟨s, hrun, stage, h⟩ := run_invariant hstep ⟨_, start_inv name ipPort numThreads⟩ hl
  exact ⟨s, hrun, h.accounted⟩

/-- Nothing is reported. -/
def quiet : Revents := ⟨false, false, false, false, false, false, false⟩

/-- The peer has closed. -/
def hangUp : Revents := ⟨true, false, false, false, true, false, false⟩

/-- A connection is accepted, closed by force, removed and destructed; the next one is
given the same descriptor. -/
theorem connections_accounted_reused :
    let ls : List (Label Unit) := [.poll 0 [(0, quiet)], .nextChannel 0, .newConnection 5 true true,
      .poll 1 [], .doPendingFunctors 1, .runFunctor 1 (.wrote 0), .runCall 1 (.ok []) (.wrote 0),
      .endBatch 1, .testClose () 1 .forceClose, .setDisconnecting (), .queueClose (),
      .poll 1 [], .doPendingFunctors 1, .runFunctor 1 (.wrote 0), .runCall 1 (.ok []) (.wrote 0),
      .runCall 1 (.ok []) (.wrote 0), .endBatch 1, .doPendingFunctors 0, .runFunctor 0 (.wrote 0),
      .endBatch 0, .poll 1 [], .doPendingFunctors 1, .runFunctor 1 (.wrote 0),
      .runCall 1 (.ok []) (.wrote 0), .destruct 1, .poll 0 [(0, quiet)], .nextChannel 0,
      .newConnection 5 true true]
    ∃ s, run exec (start ['s'] ⟨['*'], by decide⟩ 1) ls = .ok s ∧ Accounted s := by
  intro ls
  exact connections_accounted ['s'] ⟨['*'], by decide⟩ 1 ls (by decide +kernel)

/-- A thread tests `state_` in `forceClose` just before the peer closes, and sets
`kDisconnecting` after the close. The functor it queues closes the connection again, the
server is asked to remove it a second time, and the assertion `n == 1` fails. -/
theorem removed_twice_after_late_forceClose :
    let ls : List (Label Unit) := [.poll 0 [(0, quiet)], .nextChannel 0, .newConnection 5 true true,
      .poll 1 [], .doPendingFunctors 1, .runFunctor 1 (.wrote 0), .runCall 1 (.ok []) (.wrote 0),
      .endBatch 1, .testClose () 1 .forceClose, .poll 1 [(1, hangUp)], .nextChannel 1,
      .runCall 1 (.ok []) (.wrote 0), .runCall 1 (.ok []) (.wrote 0),
      .runCall 1 (.ok []) (.wrote 0), .setDisconnecting (), .queueClose (), .doPendingFunctors 1,
      .runFunctor 1 (.wrote 0), .runCall 1 (.ok []) (.wrote 0), .runCall 1 (.ok []) (.wrote 0),
      .doPendingFunctors 0, .runFunctor 0 (.wrote 0)]
    LegalRun exec Enabled (start ['s'] ⟨['*'], by decide⟩ 1) (ls ++ [.runFunctor 0 (.wrote 0)]) ∧
      (∃ s, run exec (start ['s'] ⟨['*'], by decide⟩ 1) ls = .ok s ∧
        s.log.count (1, .handleClose) = 2) ∧
      run exec (start ['s'] ⟨['*'], by decide⟩ 1) (ls ++ [.runFunctor 0 (.wrote 0)]) =
        .error .removeConnectionInLoop := by
  intro ls
  exact ⟨by decide +kernel, by decide +kernel, eq_error_of_outcome (by decide +kernel)⟩

end Muduo.System.Serving
