import Muduo.Verification.Server.Invariant

/-! What the loops, the server and the destructors do to the invariant. -/

namespace Muduo.System.Serving

open Library Net TcpConnection Lifecycle

variable {τ : Type} {s : State τ} {stage : ℕ → Stage} {c ℓ : ℕ} {k : Connection}

/-! ### The loops -/

theorem setLoop_self (s : State τ) (ℓ : ℕ) (l : LoopThread) : (s.setLoop ℓ l).loops ℓ = l :=
  Function.update_self ..

theorem setLoop_of_ne (s : State τ) {m : ℕ} (l : LoopThread) (h : m ≠ ℓ) :
    (s.setLoop ℓ l).loops m = s.loops m := Function.update_of_ne h _ _

theorem setLoop_poller (s : State τ) {l : LoopThread}
    (h : l.loop.poller = (s.loops ℓ).loop.poller) (m : ℕ) :
    ((s.setLoop ℓ l).loops m).loop.poller = (s.loops m).loop.poller := by
  by_cases hm : m = ℓ
  · rw [hm, setLoop_self, h]
  · rw [setLoop_of_ne s l hm]

/-- One loop has moved, with its poller as it was, and with it the stage of at most one
connection. -/
theorem Core.setLoop {l : LoopThread} {stage' : ℕ → Stage} (hobjects : Objects s stage')
    (hregistry : Registry s.server stage')
    (hthreads : ∀ t c, (s.pc t).connection = some c → (stage' c).established = true)
    (hpoller : l.loop.poller = (s.loops ℓ).loop.poller)
    (hqueued : ∀ m, m ≠ ℓ → Queued (homeOf s.server) stage' m (s.loops m).jobs)
    (hstacked : ∀ m, m ≠ ℓ → Stacked (homeOf s.server) stage' m (s.loops m))
    (hjobs : Queued (homeOf s.server) stage' ℓ l.jobs)
    (hloop : Stacked (homeOf s.server) stage' ℓ l) : Core (s.setLoop ℓ l) stage' where
  objects := hobjects.congr rfl (setLoop_poller s hpoller) rfl rfl
  registry := hregistry
  queued m := by
    by_cases hm : m = ℓ
    · rw [hm, setLoop_self]
      exact hjobs
    · rw [setLoop_of_ne s l hm]
      exact hqueued m hm
  stacked m := by
    by_cases hm : m = ℓ
    · rw [hm, setLoop_self]
      exact hloop
    · rw [setLoop_of_ne s l hm]
      exact hstacked m hm
  threads := hthreads

/-- The step of a loop that moves no connection. -/
theorem Core.setLoop_same {l : LoopThread} (h : Core s stage)
    (hpoller : l.loop.poller = (s.loops ℓ).loop.poller) (hjobs : l.jobs = (s.loops ℓ).jobs)
    (hloop : Stacked (homeOf s.server) stage ℓ l) : Core (s.setLoop ℓ l) stage :=
  .setLoop h.objects h.registry h.threads hpoller (fun m _ => h.queued m)
    (fun m _ => h.stacked m) (hjobs ▸ h.queued ℓ) hloop

theorem Stacked.setPhase {home : ℕ → ℕ} {l : LoopThread} {phase : Phase}
    (h : Stacked home stage ℓ l) (hold : ∀ rest, l.phase ≠ .events rest)
    (hnew : ∀ rest, phase ≠ .events rest) : Stacked home stage ℓ { l with phase := phase } where
  calls := h.calls
  below := h.below
  nodup rest hrest := absurd hrest (hnew rest)
  events rest hrest := absurd hrest (hnew rest)
  idle _ := h.idle hold
  due := h.due

/-- A functor that moves no connection is taken from the batch. -/
theorem Core.popJob_plain {j : Job} {rest : List Job} (h : Core s stage)
    (hphase : (s.loops ℓ).phase = .batch (j :: rest)) (hj : j.moves = none) :
    Core (s.setLoop ℓ { s.loops ℓ with phase := .batch rest }) stage := by
  have hq := h.queued ℓ
  simp only [LoopThread.jobs, hphase, List.cons_append] at hq
  refine .setLoop h.objects h.registry h.threads rfl (fun m _ => h.queued m)
    (fun m _ => h.stacked m) (hq.pop_plain hj) ?_
  exact (h.stacked ℓ).setPhase (by simp [hphase]) (by simp)

/-- The functor that moves connection `c` is taken from the batch. -/
theorem Core.popJob {j : Job} {rest : List Job} (h : Core s stage)
    (hphase : (s.loops ℓ).phase = .batch (j :: rest)) (hstack : (s.loops ℓ).stack = [])
    (hj : j.moves = some c) :
    Core (s.setLoop ℓ { s.loops ℓ with phase := .batch rest })
      (Function.update stage c (stage c).taken) := by
  have hq := h.queued ℓ
  simp only [LoopThread.jobs, hphase, List.cons_append] at hq
  obtain ⟨hplace, hjob, -⟩ := hq.head hj
  have hstages := Stage.of_job hjob
  have hnocall : (stage c).call = none := by
    rcases hstages with h | h | h <;> rw [h] <;> rfl
  have hcalls : ∀ m, (stage c).taken.callsAt (homeOf s.server c) m c =
      (stage c).callsAt (homeOf s.server c) m c := fun m => by
    rw [Stage.callsAt_of_call_eq_none Stage.taken_call, Stage.callsAt_of_call_eq_none hnocall]
  have hnotopen : stage c ≠ .opened := by
    rcases hstages with h | h | h <;> rw [h] <;> simp
  -- in another loop than the one the functor was in, raw functors may go on waiting
  have hinUse : ∀ m, m ≠ ℓ → homeOf s.server c = m → (stage c).inUse = true →
      (stage c).taken.inUse = true := by
    intro m hm hhome huse
    rcases hstages with h | h | h
    · rw [h] at huse
      cases huse
    · rw [h]
      rfl
    · rw [h] at hplace
      exact absurd (hhome.symm.trans hplace) hm
  have hstacked : ∀ m, (homeOf s.server c = m → (stage c).inUse = true →
      (stage c).taken.inUse = true ∨ (s.loops m).stack = []) →
      Stacked (homeOf s.server) (Function.update stage c (stage c).taken) m (s.loops m) :=
    fun m huse => (h.stacked m).restage (hcalls m)
      (fun _ halive => .inl (Stage.taken_alive.trans halive))
      (fun _ hopened => absurd hopened hnotopen) huse
  refine .setLoop (h.objects.restage (fun w hw => hw.taken) Stage.taken_alive)
    (h.registry.restage Stage.taken_held Stage.taken_eq_unborn)
    (threads_restage h.threads fun hest => Stage.taken_established.trans hest) rfl
    (fun m hm => ?_) (fun m hm => ?_) (hq.pop hj) ?_
  · refine (h.queued m).restage ?_ (fun _ hest => .inl (Stage.taken_established.trans hest))
      (hinUse m hm)
    rw [Stage.jobsAt_of_job_eq_none (Stage.taken_job c), Stage.jobsAt,
      if_neg fun heq => hm (heq.symm.trans hplace)]
  · exact hstacked m fun hhome huse => .inl (hinUse m hm hhome huse)
  · exact (hstacked ℓ fun _ _ => .inr hstack).setPhase (by simp [hphase]) (by simp)

/-- A call that moves no connection is taken from the stack. -/
theorem Core.popCall_plain {x : ℕ × Call} {rest : List (ℕ × Call)} (h : Core s stage)
    (hstack : (s.loops ℓ).stack = x :: rest) (hx : isMove x.2 = false) :
    Core (s.setLoop ℓ { s.loops ℓ with stack := rest }) stage :=
  h.setLoop_same rfl rfl ((h.stacked ℓ).pop_plain hstack hx)

/-- The call that moves connection `c` is taken from the stack. -/
theorem Core.popCall {call : Call} {rest : List (ℕ × Call)} (h : Core s stage)
    (hstack : (s.loops ℓ).stack = (c, call) :: rest) (hcall : isMove call = true) :
    Core (s.setLoop ℓ { s.loops ℓ with stack := rest })
      (Function.update stage c (stage c).taken) := by
  have hstages := Stage.of_call ((h.stacked ℓ).head hstack hcall).1
  have hhome : homeOf s.server c = ℓ :=
    ((h.stacked ℓ).calls (c, call) (by rw [hstack]; exact List.mem_cons_self)).home
  have hnojob : (stage c).job c = none := by
    rcases hstages with h | h <;> rw [h] <;> rfl
  have hinUse : (stage c).inUse = true → (stage c).taken.inUse = true := by
    intro huse
    rcases hstages with h | h <;> rw [h] at huse ⊢
    · rfl
    · cases huse
  have hqueued : ∀ m, Queued (homeOf s.server) (Function.update stage c (stage c).taken) m
      (s.loops m).jobs := fun m => by
    refine (h.queued m).restage ?_ (fun _ hest => .inl (Stage.taken_established.trans hest))
      fun _ => hinUse
    rw [Stage.jobsAt_of_job_eq_none (Stage.taken_job c), Stage.jobsAt_of_job_eq_none hnojob]
  refine .setLoop (h.objects.restage (fun w hw => hw.taken) Stage.taken_alive)
    (h.registry.restage Stage.taken_held Stage.taken_eq_unborn)
    (threads_restage h.threads fun hest => Stage.taken_established.trans hest) rfl
    (fun m _ => hqueued m) (fun m hm => ?_) (hqueued ℓ) ((h.stacked ℓ).pop hstack hcall)
  have hne : homeOf s.server c ≠ m := fun heq => hm (heq.symm.trans hhome)
  refine (h.stacked m).restage ?_ (fun heq => absurd heq hne) (fun heq => absurd heq hne)
    (fun heq => absurd heq hne)
  rw [Stage.callsAt, Stage.callsAt, if_neg hne, if_neg hne]

/-- The kernel reports registered descriptors of the loop, and those are open. -/
theorem Core.ready (h : Core s stage) {revents : Revents} (hready : Ready s ℓ c revents)
    (hcurrent : (s.loops ℓ).loop.currentActiveChannel = none) {loop : EventLoop Job}
    (hloop : loop.currentActiveChannel = (s.loops ℓ).loop.currentActiveChannel) :
    Listed (homeOf s.server) stage ℓ loop (c, revents) := by
  obtain ⟨k, hk, hchannels, events, hinterest, hreported⟩ := hready
  obtain ⟨d, k', hk', hℓ, hfd⟩ := h.objects.known ℓ k.conn.channel.fd (.inl (by simp [hchannels]))
  obtain rfl : d = c := h.objects.apart d c k' k hk' hk hfd
  obtain rfl : k' = k := Option.some.inj (hk'.symm.trans hk)
  have hobj := h.objects.object d k' hk
  subst hℓ
  have hopened : stage d = .opened := hobj.shape.opened_of_watched (by
    show (s.loops k'.ioLoop).loop.poller.interest k'.conn.channel.fd ≠ none
    rw [Option.mem_def.mp hinterest]
    simp)
  refine ⟨hobj.ioLoop.symm, hopened, fun hhup => ?_, by simp [hloop, hcurrent]⟩
  have hopen : (s.view k').Open := hobj.shape_of hopened
  -- the interest that the kernel has is that of the channel, which includes reading
  have hevents : events = k'.conn.channel.events := by
    cases hopen.tracked with
    | new _ _ hkernel => exact absurd (hkernel.symm.trans hinterest) (by simp)
    | added _ _ hkernel => exact Option.some.inj (hinterest.symm.trans hkernel)
    | deleted _ _ hkernel => exact absurd (hkernel.symm.trans hinterest) (by simp)
  refine hreported.2.2.2.2.2 hhup ?_
  rw [hevents]
  exact hopen.reading.symm.trans hobj.reading

theorem Core.poll {active : List (ℕ × Revents)} (h : Core s stage)
    (hphase : (s.loops ℓ).phase = .poll) (hstack : (s.loops ℓ).stack = [])
    (hnodup : ((active.map Prod.fst).filter (· ≠ 0)).Nodup)
    (hready : ∀ x ∈ active, x.1 ≠ 0 → Ready s ℓ x.1 x.2) :
    Core (s.setLoop ℓ
      { s.loops ℓ with
        loop := { (s.loops ℓ).loop with
          eventHandling := true, activeChannels := active.map Prod.fst }
        phase := .events active }) stage := by
  have hcurrent := ((h.stacked ℓ).idle (by simp [hphase])).2
  refine h.setLoop_same rfl (by simp [LoopThread.jobs, hphase]) ⟨⟨?_, ?_, ?_, ?_, ?_⟩, ?_⟩
  · simp [hstack]
  · simp [hstack]
  · intro rest hrest
    rw [← Phase.events.inj hrest]
    exact hnodup
  · intro rest hrest x hx hne
    rw [← Phase.events.inj hrest] at hx
    exact h.ready (hready x hx hne) hcurrent rfl
  · exact fun hno => absurd rfl (hno active)
  · exact (h.stacked ℓ).due

/-- What an event makes the channel of an open connection call. -/
theorem handleEvent_of_pollin {revents : Revents}
    (h : revents.pollhup = true → revents.pollin = true) :
    (∀ call ∈ handleEvent revents, call = .handleRead ∨ call = .handleWrite) ∧
      (∀ call ∈ (handleEvent revents).tail, call = .handleWrite) := by
  have hno : ¬ (revents.pollhup = true ∧ ¬ revents.pollin = true) := fun ⟨hhup, hin⟩ => hin (h hhup)
  unfold handleEvent
  rw [if_neg hno]
  split <;> split <;> simp

theorem Core.activate {channel : ℕ} {revents : Revents} {rest : List (ℕ × Revents)}
    (h : Core s stage) (hphase : (s.loops ℓ).phase = .events ((channel, revents) :: rest))
    (hstack : (s.loops ℓ).stack = []) : Core (s.activate ℓ channel revents rest) stage := by
  have hnodup := (h.stacked ℓ).nodup _ hphase
  have hevents := (h.stacked ℓ).events _ hphase
  rw [List.map_cons, List.filter_cons] at hnodup
  -- the calls of the channel that is handled now
  have hcalls : ∀ x ∈ (if channel = 0 then [] else (handleEvent revents).map (Prod.mk channel)),
      channel ≠ 0 ∧ x.1 = channel ∧ (x.2 = .handleRead ∨ x.2 = .handleWrite) := by
    intro x hx
    split at hx
    · cases hx
    next hne =>
      obtain ⟨call, hcall, rfl⟩ := List.mem_map.mp hx
      have hhup := (hevents (channel, revents) List.mem_cons_self hne).hup
      exact ⟨hne, rfl, (handleEvent_of_pollin hhup).1 call hcall⟩
  refine h.setLoop_same rfl (by simp [LoopThread.jobs, hphase]) ⟨⟨?_, ?_, ?_, ?_, ?_⟩, ?_⟩
  · intro x hx
    simp only [hstack, List.append_nil] at hx
    obtain ⟨hne, hxc, hcall⟩ := hcalls x hx
    have hlisted := hevents (channel, revents) List.mem_cons_self hne
    refine ⟨hxc ▸ hlisted.home, ?_, ?_, fun _ => ⟨?_, by rw [hxc]⟩, fun _ => ?_, ?_⟩
    · rw [hxc, hlisted.opened]
      rfl
    · rcases hcall with h | h <;> simp [h]
    · rw [hxc, hlisted.opened]
    · rw [hxc, hlisted.opened]
      rfl
    · rcases hcall with h | h <;> simp [h]
  · intro x hx
    simp only [hstack, List.append_nil] at hx
    split at hx
    · cases hx
    next hne =>
      rw [← List.map_tail] at hx
      obtain ⟨call, hcall, rfl⟩ := List.mem_map.mp hx
      have hhup := (hevents (channel, revents) List.mem_cons_self hne).hup
      rw [(handleEvent_of_pollin hhup).2 call hcall]
      simp
  · intro rest' hrest
    rw [← Phase.events.inj hrest]
    split at hnodup
    · exact hnodup.of_cons
    · exact hnodup
  · intro rest' hrest x hx hne
    rw [← Phase.events.inj hrest] at hx
    have hlisted := hevents x (List.mem_cons_of_mem _ hx) hne
    refine ⟨hlisted.home, hlisted.opened, hlisted.hup, fun heq => ?_⟩
    -- a channel is active only once
    have hx1 : channel = x.1 := Option.some.inj heq
    rw [if_pos (by simpa [hx1] using hne)] at hnodup
    refine (List.nodup_cons.mp hnodup).1 (List.mem_filter.mpr ⟨?_, by simpa [hx1] using hne⟩)
    exact List.mem_map.mpr ⟨x, hx, hx1.symm⟩
  · exact fun hno => absurd rfl (hno rest)
  · intro d
    have hdue := (h.stacked ℓ).due d
    rw [hstack, List.filter_nil] at hdue
    rw [← hdue, List.filter_eq_nil_iff]
    intro x hx
    simp only [hstack, List.append_nil] at hx
    rcases (hcalls x hx).2.2 with h | h <;> simp [h, isMove]

theorem Core.doPendingFunctors (h : Core s stage) (hphase : (s.loops ℓ).phase = .events [])
    (hstack : (s.loops ℓ).stack = []) :
    Core (s.setLoop ℓ
      { s.loops ℓ with
        loop := { (s.loops ℓ).loop with
          eventHandling := false, currentActiveChannel := none, pendingFunctors := [] }
        phase := .batch (s.loops ℓ).loop.pendingFunctors }) stage := by
  refine h.setLoop_same rfl (by simp [LoopThread.jobs, hphase]) ⟨⟨?_, ?_, ?_, ?_, ?_⟩, ?_⟩
  · simp [hstack]
  · simp [hstack]
  · simp
  · simp
  · exact fun _ => ⟨rfl, rfl⟩
  · exact (h.stacked ℓ).due

theorem Core.endBatch (h : Core s stage) (hphase : (s.loops ℓ).phase = .batch []) :
    Core (s.setLoop ℓ { s.loops ℓ with phase := .poll }) stage :=
  h.setLoop_same rfl (by simp [LoopThread.jobs, hphase])
    ((h.stacked ℓ).setPhase (by simp [hphase]) (by simp))

/-! ### The server -/

theorem queueInLoop_jobs (l : LoopThread) (j : Job) :
    ({ l with loop := l.loop.queueInLoop j } : LoopThread).jobs = l.jobs ++ [j] :=
  jobs_append rfl rfl

/-- A functor is queued that will move the connection, and the connection waits for it. -/
theorem Core.await {server : TcpServer} {j : Job} {σ : Stage} (h : Core s stage)
    (hhome : homeOf server = homeOf s.server) (hname : server.connName = s.server.connName)
    (hregistry : Registry server (Function.update stage c σ))
    (hshape : ∀ w, (stage c).Shape w → σ.Shape w) (halive : σ.alive = (stage c).alive)
    (hnone : (stage c).job c = none) (hjob : σ.job c = some j)
    (hplace : σ.place (homeOf s.server c) = ℓ) (hcall : (stage c).call = none)
    (hopened : stage c ≠ .opened)
    (hestablished : (stage c).established = true → σ.established = true)
    (huse : (stage c).inUse = true → σ.inUse = true) :
    Core ({ s with server := server }.queueInLoop ℓ j) (Function.update stage c σ) := by
  have hcall' : σ.call = none := by
    rcases Stage.of_job hjob with h | h | h <;> rw [h] <;> rfl
  have hstacked : ∀ m, Stacked (homeOf server) (Function.update stage c σ) m (s.loops m) := by
    intro m
    rw [hhome]
    refine (h.stacked m).restage ?_ (fun _ ha => .inl (halive.trans ha))
      (fun _ ho => absurd ho hopened) fun _ hu => .inl (huse hu)
    rw [Stage.callsAt_of_call_eq_none hcall, Stage.callsAt_of_call_eq_none hcall']
  refine .setLoop ((h.objects.restage hshape halive).congr rfl (fun _ => rfl) hhome hname)
    hregistry (threads_restage h.threads hestablished) rfl (fun m hm => ?_)
    (fun m _ => hstacked m) ?_ ((hstacked ℓ).congr rfl rfl rfl rfl)
  · show Queued (homeOf server) _ m (s.loops m).jobs
    rw [hhome]
    refine (h.queued m).restage ?_ (fun _ he => .inl (hestablished he)) fun _ => huse
    rw [Stage.jobsAt_of_job_eq_none hnone, Stage.jobsAt,
      if_neg fun heq => hm (heq.symm.trans hplace)]
  · show Queued (homeOf server) _ ℓ
      ({ s.loops ℓ with loop := (s.loops ℓ).loop.queueInLoop j } : LoopThread).jobs
    rw [queueInLoop_jobs, hhome]
    exact (h.queued ℓ).push hjob hplace hnone hestablished huse

/-- `removeConnection` in another loop than the base loop. -/
theorem Core.queueRemoval (h : Core s stage) (hstage : stage c = .erasing) :
    Core (s.queueInLoop 0 (.removeConnectionInLoop c)) (Function.update stage c .removing) := by
  have hregistry : Registry s.server (Function.update stage c .removing) :=
    h.registry.restage (by rw [hstage]; rfl) (by rw [hstage]; simp)
  refine h.await rfl rfl hregistry ?_ ?_ ?_ rfl rfl ?_ ?_ ?_ ?_ <;>
    rw [hstage] <;> simp [Stage.alive, Stage.job, Stage.call, Stage.established, Stage.inUse,
      Stage.Shape]

theorem Core.removeConnectionInLoop (h : Core s stage) (hstage : stage c = .erasing) :
    ∃ s', s.removeConnectionInLoop 0 c = .ok s' ∧
      s'.log = s.log ++ [(c, .removeConnectionInLoop)] ∧
      Core s' (Function.update stage c .removed) := by
  obtain ⟨k, hk⟩ := h.objects.find (c := c) (by rw [hstage]; rfl)
  have hobj := h.objects.object c k hk
  have herase : (s.server.erase k.name).1 = 1 ∧
      Registry (s.server.erase k.name).2 (Function.update stage c .removed) := by
    rw [hobj.name]
    exact h.registry.erase (by rw [hstage]; rfl) rfl (by simp)
  let queued : State τ := { s with server := (s.server.erase k.name).2 }.queueInLoop k.ioLoop
    (.onConnection c .connectDestroyed)
  refine ⟨queued.note c .removeConnectionInLoop, ?_, rfl, ?_⟩
  · simp only [State.removeConnectionInLoop, State.find, hk, ensure_of _ herase.1, ensure_of,
      ok_bind]
    rfl
  · apply Core.note
    refine h.await rfl rfl herase.2 ?_ ?_ ?_ rfl hobj.ioLoop.symm ?_ ?_ ?_ ?_ <;>
      rw [hstage] <;> simp [Stage.alive, Stage.job, Stage.call, Stage.established, Stage.inUse,
        Stage.Shape]

/-- How `next_` goes round. -/
theorem succ_mod_eq {n c : ℕ} (hn : 0 < n) (hc : 0 < c) :
    (if n ≤ (c - 1) % n + 1 then 0 else (c - 1) % n + 1) = c % n := by
  obtain ⟨m, rfl⟩ : ∃ m, c = m + 1 := ⟨c - 1, by omega⟩
  rw [Nat.add_sub_cancel, ← Nat.mod_add_mod m n 1]
  have hlt := Nat.mod_lt m hn
  split
  next hle => rw [show m % n + 1 = n by omega, Nat.mod_self]
  next hle => exact (Nat.mod_eq_of_lt (by omega)).symm

/-- What `newConnection` does to the server. The loop it takes is the one that is due. -/
theorem Registry.enter {server : TcpServer} (h : Registry server stage)
    (hlt : server.nextConnId < 2 ^ 31) :
    ∃ server', server.enter = ((server.nextConnId, homeOf server server.nextConnId,
        server.connName server.nextConnId), server') ∧
      homeOf server' = homeOf server ∧ server'.connName = server.connName ∧
      Registry server' (Function.update stage server.nextConnId .opening) := by
  set c := server.nextConnId with hc
  have hunborn : stage c = .unborn := (h.born c).mpr fun hborn => Nat.lt_irrefl _ hborn.2
  -- the members other than `next_`
  have hrest : ∀ next', (server.numThreads ≠ 0 → next' = c % server.numThreads) →
      Registry { server with
        next := next', nextConnId := c + 1,
        connections := Function.update server.connections (server.connName c) (some c) }
      (Function.update stage c .opening) := by
    intro next' hnext
    refine ⟨fun d => ?_, fun n d => ?_, fun hn => hnext hn, Nat.succ_pos _, hlt⟩
    · by_cases hd : d = c
      · subst hd
        rw [Function.update_self]
        exact iff_of_false (by simp) (not_not.mpr ⟨h.pos, Nat.lt_succ_self _⟩)
      · rw [Function.update_of_ne hd, h.born]
        show ¬ (0 < d ∧ d < c) ↔ ¬ (0 < d ∧ d < c + 1)
        omega
    · show Function.update server.connections _ (some c) n = some d ↔ _ ∧ server.connName d = n
      by_cases hd : d = c
      · subst hd
        rw [Function.update_self]
        refine ⟨fun hsome => ⟨rfl, ?_⟩, fun hname => by rw [← hname.2, Function.update_self]⟩
        by_cases hn : n = server.connName c
        · exact hn.symm
        · rw [Function.update_of_ne hn] at hsome
          exact absurd hunborn (held_ne_unborn ((h.holds n c).mp hsome).1)
      · rw [Function.update_of_ne hd]
        by_cases hn : n = server.connName c
        · subst hn
          rw [Function.update_self]
          refine iff_of_false (fun heq => hd (Option.some.inj heq).symm) ?_
          rintro ⟨hheld, hname⟩
          exact hd (connName_inj (h.lt (held_ne_unborn hheld)) hlt hname)
        · rw [Function.update_of_ne hn]
          exact h.holds n d
  by_cases hn : server.numThreads = 0
  · refine ⟨_, ?_, ?_, ?_, hrest server.next fun hne => absurd hn hne⟩
    · simp only [TcpServer.enter, TcpServer.getNextLoop, homeOf, if_pos hn, ← hc]
    · rfl
    · rfl
  · have hnext := h.next hn
    refine ⟨_, ?_, ?_, ?_, hrest (c % server.numThreads) fun _ => rfl⟩
    · rw [← succ_mod_eq (Nat.pos_of_ne_zero hn) h.pos]
      simp only [TcpServer.enter, TcpServer.getNextLoop, homeOf, if_neg hn, hnext]
      rfl
    · rfl
    · rfl

/-- No poller has heard of a descriptor that no connection has. -/
theorem Objects.clear {fd : ℤ} (h : Objects s stage)
    (hfd : ∀ d k, s.connection d = some k → k.conn.channel.fd ≠ fd) (ℓ : ℕ) :
    (s.loops ℓ).loop.poller.channels fd = none ∧ (s.loops ℓ).loop.poller.interest fd = none := by
  by_contra hno
  obtain ⟨d, k, hk, -, hfd'⟩ := h.known ℓ fd (not_and_or.mp hno)
  exact hfd d k hk hfd'

/-- The object is constructed on a descriptor that no other connection has. -/
theorem Objects.create {server : TcpServer} {fd : ℤ} {writeComplete highWater : Bool}
    (h : Objects s stage) (hhome : homeOf server = homeOf s.server)
    (hname : server.connName = s.server.connName) (hunborn : stage c = .unborn)
    (hfd : ∀ d k, s.connection d = some k → k.conn.channel.fd ≠ fd)
    (hconn : k.conn = .init c fd writeComplete highWater) (hsocket : k.socket = ⟨[], none⟩)
    (hloop : k.ioLoop = homeOf s.server c) (hkname : k.name = s.server.connName c) :
    Objects { s with server := server, connection := Function.update s.connection c (some k) }
      (Function.update stage c .opening) := by
  set s' : State τ :=
    { s with server := server, connection := Function.update s.connection c (some k) } with hs'
  have hself : s'.connection c = some k := Function.update_self ..
  have hother : ∀ d, d ≠ c → s'.connection d = s.connection d :=
    fun d hd => Function.update_of_ne hd _ _
  have hdead : s.connection c = none := by
    have := h.live c
    rw [hunborn] at this
    simpa [Stage.alive] using this
  have hfdk : k.conn.channel.fd = fd := by rw [hconn]; rfl
  have hfresh : (s'.view k).Fresh := by
    refine ⟨?_, ?_, ?_, ?_, ?_, ?_, hsocket⟩ <;> simp only [State.view, hconn]
    · rfl
    · rfl
    · rfl
    · rfl
    · exact (h.clear hfd k.ioLoop).1
    · exact (h.clear hfd k.ioLoop).2
  refine ⟨fun d => ?_, fun d k' hk' => ?_, fun d e k₁ k₂ hk₁ hk₂ heq => ?_, fun ℓ f hf => ?_⟩
  · by_cases hd : d = c
    · subst hd
      rw [hself, Function.update_self]
      rfl
    · rw [hother d hd, Function.update_of_ne hd, h.live]
  · by_cases hd : d = c
    · subst hd
      obtain rfl := Option.some.inj (hself.symm.trans hk')
      refine ⟨by rw [Function.update_self]; exact hfresh, by rw [hconn]; rfl,
        by rw [hconn]; rfl, ?_, ?_⟩
      · rw [hloop, ← hhome]
      · rw [hkname, ← hname]
    · rw [hother d hd] at hk'
      have hobj := h.object d k' hk'
      refine ⟨?_, hobj.self, hobj.reading, ?_, ?_⟩
      · rw [Function.update_of_ne hd]
        exact hobj.shape
      · rw [hobj.ioLoop, ← hhome]
      · rw [hobj.name, ← hname]
  · by_cases hd : d = c <;> by_cases he : e = c
    · rw [hd, he]
    · rw [hother e he] at hk₂
      rw [hd, hself] at hk₁
      obtain rfl := Option.some.inj hk₁
      exact absurd (heq.symm.trans hfdk) (hfd e k₂ hk₂)
    · rw [hother d hd] at hk₁
      rw [he, hself] at hk₂
      obtain rfl := Option.some.inj hk₂
      exact absurd (heq.trans hfdk) (hfd d k₁ hk₁)
    · rw [hother d hd] at hk₁
      rw [hother e he] at hk₂
      exact h.apart d e k₁ k₂ hk₁ hk₂ heq
  · obtain ⟨d, k', hk', hrest⟩ := h.known ℓ f hf
    have hd : d ≠ c := by
      rintro rfl
      rw [hdead] at hk'
      cases hk'
    exact ⟨d, k', (hother d hd).trans hk', hrest⟩

theorem Core.create {server : TcpServer} {fd : ℤ} {writeComplete highWater : Bool}
    (h : Core s stage) (hhome : homeOf server = homeOf s.server)
    (hname : server.connName = s.server.connName) (hunborn : stage c = .unborn)
    (hregistry : Registry server (Function.update stage c .opening))
    (hfd : ∀ d k, s.connection d = some k → k.conn.channel.fd ≠ fd)
    (hconn : k.conn = .init c fd writeComplete highWater) (hsocket : k.socket = ⟨[], none⟩)
    (hloop : k.ioLoop = homeOf s.server c) (hkname : k.name = s.server.connName c) :
    Core { s with server := server, connection := Function.update s.connection c (some k) }
      (Function.update stage c .opening) := by
  refine ⟨h.objects.create hhome hname hunborn hfd hconn hsocket hloop hkname, hregistry,
    fun ℓ => ?_, fun ℓ => ?_, ?_⟩
  · show Queued (homeOf server) _ ℓ (s.loops ℓ).jobs
    rw [hhome]
    refine (h.queued ℓ).restage ?_ ?_ ?_ <;> rw [hunborn]
    · rw [Stage.jobsAt_of_job_eq_none rfl, Stage.jobsAt_of_job_eq_none rfl]
    · exact fun _ hest => by cases hest
    · exact fun _ huse => by cases huse
  · show Stacked (homeOf server) _ ℓ (s.loops ℓ)
    rw [hhome]
    refine (h.stacked ℓ).restage ?_ ?_ ?_ ?_ <;> rw [hunborn]
    · rw [Stage.callsAt_of_call_eq_none rfl, Stage.callsAt_of_call_eq_none rfl]
    · exact fun _ halive => by cases halive
    · exact fun _ hopened => by cases hopened
    · exact fun _ huse => by cases huse
  · refine threads_restage h.threads ?_
    rw [hunborn]
    exact fun hest => by cases hest

/-! ### The destructors -/

theorem homeOf_lt (server : TcpServer) (c : ℕ) : homeOf server c < server.numThreads + 1 := by
  unfold homeOf
  split
  · omega
  next hn =>
    have := Nat.mod_lt (c - 1) (Nat.pos_of_ne_zero hn)
    omega

/-- A connection that nothing owns any more has gone through all its stages. -/
theorem Core.destroyed_of_unowned (h : Core s stage) (hk : s.connection c = some k)
    (hu : Unowned s c) (hidle : stage c ≠ .opening ∧ stage c ≠ .erasing ∧ stage c ≠ .dropping ∧
      stage c ≠ .forgetting) : stage c = .destroyed := by
  have hobj := h.objects.object c k hk
  have hheld : (stage c).held = false := by
    by_contra hheld
    have hfind := (h.registry.holds (s.server.connName c) c).mpr
      ⟨Bool.eq_true_of_not_eq_false hheld, rfl⟩
    exact hu.erased k hk (hobj.name ▸ hfind)
  have hhome := homeOf_lt s.server c
  cases hstage : stage c with
  | destroyed => rfl
  | dropping => exact absurd hstage hidle.2.2.1
  | forgetting => exact absurd hstage hidle.2.2.2
  | removed =>
      have hdue := (h.queued (homeOf s.server c)).due c
      rw [hstage] at hdue
      have hmem : Job.onConnection c .connectDestroyed ∈ (s.loops (homeOf s.server c)).jobs := by
        have : Job.onConnection c .connectDestroyed ∈
            (s.loops (homeOf s.server c)).jobs.filter (fun j => j.moves = some c) := by
          rw [hdue]
          simp [Stage.jobsAt, Stage.place, Stage.job]
        exact (List.mem_filter.mp this).1
      have := hu.jobs _ hhome _ hmem
      simp [Job.holds, isRaw] at this
  | destroying =>
      have hdue := (h.stacked (homeOf s.server c)).due c
      rw [hstage] at hdue
      have hmem : (c, Call.remove) ∈ (s.loops (homeOf s.server c)).stack := by
        have : (c, Call.remove) ∈ (s.loops (homeOf s.server c)).stack.filter
            (fun x => x.1 = c ∧ isMove x.2) := by
          rw [hdue]
          simp [Stage.callsAt, Stage.call]
        exact (List.mem_filter.mp this).1
      exact absurd rfl (hu.calls _ hhome _ hmem)
  | unborn =>
      exact (hobj.shape_of hstage).elim
  | gone =>
      exact (hobj.shape_of hstage).elim
  | _ =>
      rw [hstage] at hheld
      cases hheld

/-- The object is gone, and the poller has forgotten its descriptor before. -/
theorem Objects.destruct (h : Objects s stage) (hk : s.connection c = some k)
    (hclear : (s.view k).Cleared) :
    Objects { s with connection := Function.update s.connection c none }
      (Function.update stage c .gone) := by
  let s' : State τ := { s with connection := Function.update s.connection c none }
  have hself : s'.connection c = none := Function.update_self ..
  have hother : ∀ d, d ≠ c → s'.connection d = s.connection d :=
    fun d hd => Function.update_of_ne hd _ _
  have hne : ∀ d k', s'.connection d = some k' → d ≠ c := by
    rintro d k' hk' rfl
    rw [hself] at hk'
    cases hk'
  refine ⟨fun d => ?_, fun d k' hk' => ?_, fun d e k₁ k₂ hk₁ hk₂ => ?_, fun ℓ f hf => ?_⟩
  · by_cases hd : d = c
    · subst hd
      rw [hself, Function.update_self]
      rfl
    · rw [hother d hd, Function.update_of_ne hd, h.live]
  · have hd := hne d k' hk'
    have hobj' := h.object d k' ((hother d hd).symm.trans hk')
    refine ⟨?_, hobj'.self, hobj'.reading, hobj'.ioLoop, hobj'.name⟩
    rw [Function.update_of_ne hd]
    exact hobj'.shape
  · exact h.apart d e k₁ k₂ ((hother d (hne d k₁ hk₁)).symm.trans hk₁)
      ((hother e (hne e k₂ hk₂)).symm.trans hk₂)
  · obtain ⟨d, k', hk', hℓ, hfd⟩ := h.known ℓ f hf
    have hd : d ≠ c := by
      rintro rfl
      -- the poller has forgotten the descriptor that is closed
      obtain rfl := Option.some.inj (hk.symm.trans hk')
      subst hℓ hfd
      rcases hf with hf | hf
      · exact hf hclear.unknown
      · exact hf hclear.unwatched
    exact ⟨d, k', (hother d hd).trans hk', hℓ, hfd⟩

theorem Core.destruct (h : Core s stage) (hk : s.connection c = some k) (hu : Unowned s c)
    (hstage : stage c = .destroyed) :
    ∃ s', s.destruct c = .ok s' ∧ s'.log = s.log ++ [(c, .fdClosed)] ∧
      Core s' (Function.update stage c .gone) := by
  have hclear : (s.view k).Cleared := (h.objects.object c k hk).shape_of hstage
  have hpoller : (s.loops k.ioLoop).loop.poller.hasChannel k.conn.channel = false := by
    have hunknown : (s.loops k.ioLoop).loop.poller.channels k.conn.channel.fd = none :=
      hclear.unknown
    simp [EPollPoller.hasChannel, hunknown]
  have hhome := homeOf_lt s.server c
  let s' : State τ := { s with connection := Function.update s.connection c none }
  refine ⟨s'.note c .fdClosed, ?_, rfl, ?_⟩
  · have hstate : k.conn.state = .kDisconnected := hclear.state
    have hadded : k.conn.channel.addedToLoop = false := hclear.added
    simp only [State.destruct, State.find, hk, ok_bind, ensure_of _ hstate, ensure_of _ hadded,
      ensure_of _ hpoller]
    rfl
  apply Core.note
  refine ⟨h.objects.destruct hk hclear,
    h.registry.restage (by rw [hstage]; rfl) (by rw [hstage]; simp), fun ℓ => ?_, fun ℓ => ?_,
    fun t d hd => ?_⟩
  · refine (h.queued ℓ).restage ?_ (fun hℓ _ => .inr fun f hf => ?_) ?_
    · rw [hstage, Stage.jobsAt_of_job_eq_none rfl, Stage.jobsAt_of_job_eq_none rfl]
    · have hholds := hu.jobs ℓ (hℓ ▸ hhome) _ hf
      by_cases hraw : isRaw f = true
      · have hdestroyed : f ≠ .connectDestroyed := by
          rintro rfl
          cases hraw
        have := ((h.queued ℓ).plain c f hf hdestroyed).2.2.2 hraw
        rw [hstage] at this
        cases this
      · simp [Job.holds, hraw] at hholds
    · rw [hstage]
      exact fun _ huse => by cases huse
  · refine (h.stacked ℓ).restage ?_ (fun hℓ _ => .inr (hu.calls ℓ (hℓ ▸ hhome))) ?_ ?_
    · rw [hstage, Stage.callsAt_of_call_eq_none rfl, Stage.callsAt_of_call_eq_none rfl]
    · rw [hstage]
      exact fun _ hopened => by cases hopened
    · rw [hstage]
      exact fun _ huse => by cases huse
  · have hdc : d ≠ c := by
      rintro rfl
      exact hu.threads t hd
    rw [Function.update_of_ne hdc]
    exact h.threads t d hd

end Muduo.System.Serving
