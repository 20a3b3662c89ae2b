import Muduo.Verification.Server.Stages
import Mathlib.Data.Nat.Digits.Defs

/-! The invariant of a server at work, and what the parts of a step do to it. -/

namespace Muduo.System.Serving

open Library Net TcpConnection Lifecycle

/-- The loop that `getNextLoop` gives to connection `c`. -/
def homeOf (server : TcpServer) (c : ℕ) : ℕ :=
  if server.numThreads = 0 then 0 else (c - 1) % server.numThreads + 1

/-! ### Names -/

/-- The whole text fits into `buf`. -/
theorem connName_eq (server : TcpServer) {c : ℕ} (h : c < 2 ^ 31) :
    server.connName c = server.name ++ ('-' :: server.ipPort.1 ++ '#' :: Nat.toDigits 10 c) := by
  have hdigits : (Nat.toDigits 10 c).length ≤ 10 := Nat.toDigits_length 10 c 10 (by decide)
    (Nat.lt_trans h (by decide))
  have hip := server.ipPort.2
  rw [TcpServer.connName, List.take_of_length_le]
  simp only [List.length_append, List.length_cons]
  omega

theorem connName_inj {server : TcpServer} {c d : ℕ} (hc : c < 2 ^ 31) (hd : d < 2 ^ 31)
    (h : server.connName c = server.connName d) : c = d := by
  rw [connName_eq server hc, connName_eq server hd] at h
  have hdigits : Nat.toDigits 10 c = Nat.toDigits 10 d := by
    simpa using h
  rw [← Nat.ofDigitChars_ten_toDigits (n := c), hdigits, Nat.ofDigitChars_ten_toDigits]

variable {τ : Type} {s s' : State τ} {stage : ℕ → Stage} {c ℓ : ℕ} {k : Connection}

/-! ### The objects -/

/-- Connection `c` while it exists. -/
structure Object (s : State τ) (stage : ℕ → Stage) (c : ℕ) (k : Connection) : Prop where
  shape : (stage c).Shape (s.view k)
  self : k.conn.channel.self = c
  reading : k.conn.reading = true
  ioLoop : k.ioLoop = homeOf s.server c
  name : k.name = s.server.connName c

/-- What a connection looks like at a stage that is known. -/
theorem Object.shape_of (h : Object s stage c k) {x : Stage} (hstage : stage c = x) :
    x.Shape (s.view k) := hstage ▸ h.shape

structure Objects (s : State τ) (stage : ℕ → Stage) : Prop where
  live : ∀ c, (s.connection c).isSome = (stage c).alive
  object : ∀ c k, s.connection c = some k → Object s stage c k
  apart : ∀ c d k k', s.connection c = some k → s.connection d = some k' →
    k.conn.channel.fd = k'.conn.channel.fd → c = d
  known : ∀ ℓ f, (s.loops ℓ).loop.poller.channels f ≠ none ∨
      (s.loops ℓ).loop.poller.interest f ≠ none →
    ∃ c k, s.connection c = some k ∧ k.ioLoop = ℓ ∧ k.conn.channel.fd = f

theorem Objects.find (h : Objects s stage) (hc : (stage c).alive = true) :
    ∃ k, s.connection c = some k := Option.isSome_iff_exists.mp ((h.live c).trans hc)

theorem Objects.born (h : Objects s stage) (hk : s.connection c = some k) : stage c ≠ .unborn :=
  fun hc => (h.object c k hk).shape_of hc

/-- The objects and the pollers have not changed. -/
theorem Objects.congr (h : Objects s stage) (hconn : s'.connection = s.connection)
    (hpoller : ∀ ℓ, (s'.loops ℓ).loop.poller = (s.loops ℓ).loop.poller)
    (hhome : homeOf s'.server = homeOf s.server)
    (hname : s'.server.connName = s.server.connName) : Objects s' stage where
  live c := by rw [hconn, h.live]
  object c k hk := by
    have hobj := h.object c k (hconn ▸ hk)
    refine ⟨hobj.shape.congr ⟨rfl, rfl, ?_, ?_⟩, hobj.self, hobj.reading, ?_, ?_⟩
    · simp only [State.view, hpoller]
    · simp only [State.view, hpoller]
    · rw [hobj.ioLoop, hhome]
    · rw [hobj.name, hname]
  apart := hconn ▸ h.apart
  known ℓ f := by
    rw [hpoller, hconn]
    exact h.known ℓ f

/-- One connection goes to a stage of the same shape. -/
theorem Objects.restage {σ : Stage} (h : Objects s stage)
    (hshape : ∀ w, (stage c).Shape w → σ.Shape w) (halive : σ.alive = (stage c).alive) :
    Objects s (Function.update stage c σ) where
  live d := by
    by_cases hd : d = c
    · subst hd
      rw [Function.update_self, h.live, halive]
    · rw [Function.update_of_ne hd, h.live]
  object d k hk := by
    have hobj := h.object d k hk
    refine ⟨?_, hobj.self, hobj.reading, hobj.ioLoop, hobj.name⟩
    by_cases hd : d = c
    · subst hd
      rw [Function.update_self]
      exact hshape _ hobj.shape
    · rw [Function.update_of_ne hd]
      exact hobj.shape
  apart := h.apart
  known := h.known

section Absorb

variable {Queues : Functor → Prop} {w : World} {σ : Stage}

theorem absorb_server (s : State τ) (c : ℕ) (k : Connection) (w : World) :
    (s.absorb c k w).server = s.server := rfl

theorem absorb_connection_self (s : State τ) (c : ℕ) (k : Connection) (w : World) :
    (s.absorb c k w).connection c = some { k with conn := w.conn, socket := w.socket } :=
  Function.update_self ..

theorem absorb_connection_of_ne (s : State τ) {c d : ℕ} (k : Connection) (w : World) (h : d ≠ c) :
    (s.absorb c k w).connection d = s.connection d := Function.update_of_ne h _ _

theorem absorb_poller_self (s : State τ) (c : ℕ) (k : Connection) (w : World) :
    ((s.absorb c k w).loops k.ioLoop).loop.poller = w.loop.poller := by
  simp [State.absorb]

theorem absorb_loops_of_ne (s : State τ) (c : ℕ) {k : Connection} (w : World) (h : ℓ ≠ k.ioLoop) :
    (s.absorb c k w).loops ℓ = s.loops ℓ := Function.update_of_ne h _ _

/-- The poller of the loop changes at the descriptor of the connection only. -/
theorem absorb_elsewhere (hconf : World.Confined Queues (s.view k) w) (ℓ : ℕ) {f : ℤ}
    (hf : ℓ = k.ioLoop → f ≠ k.conn.channel.fd) :
    ((s.absorb c k w).loops ℓ).loop.poller.channels f = (s.loops ℓ).loop.poller.channels f ∧
    ((s.absorb c k w).loops ℓ).loop.poller.interest f = (s.loops ℓ).loop.poller.interest f := by
  by_cases hℓ : ℓ = k.ioLoop
  · subst hℓ
    rw [absorb_poller_self]
    exact ⟨hconf.elsewhere.channels f (hf rfl), hconf.elsewhere.interest f (hf rfl)⟩
  · rw [absorb_loops_of_ne s c w hℓ]
    exact ⟨rfl, rfl⟩

theorem Objects.absorb (h : Objects s stage) (hk : s.connection c = some k)
    (hconf : World.Confined Queues (s.view k) w) (hshape : σ.Shape w) :
    Objects (s.absorb c k w) (Function.update stage c σ) where
  live d := by
    by_cases hd : d = c
    · subst hd
      rw [absorb_connection_self, Function.update_self, hshape.alive]
      rfl
    · rw [absorb_connection_of_ne s k w hd, Function.update_of_ne hd, h.live]
  object d k' hk' := by
    by_cases hd : d = c
    · subst hd
      obtain rfl := Option.some.inj ((absorb_connection_self s d k w).symm.trans hk')
      have hobj := h.object d k hk
      refine ⟨?_, hconf.self.trans hobj.self, hconf.reading.trans hobj.reading, hobj.ioLoop,
        hobj.name⟩
      rw [Function.update_self]
      refine hshape.congr ⟨rfl, rfl, ?_, ?_⟩
      · exact congrFun (congrArg EPollPoller.channels (absorb_poller_self s d k w)) _
      · exact congrFun (congrArg EPollPoller.interest (absorb_poller_self s d k w)) _
    · rw [absorb_connection_of_ne s k w hd] at hk'
      have hobj := h.object d k' hk'
      -- another connection of the loop has another descriptor
      have hfd : k'.conn.channel.fd ≠ k.conn.channel.fd := fun heq =>
        hd (h.apart d c k' k hk' hk heq)
      have helse := absorb_elsewhere (c := c) hconf k'.ioLoop fun _ => hfd
      refine ⟨?_, hobj.self, hobj.reading, hobj.ioLoop, hobj.name⟩
      rw [Function.update_of_ne hd]
      exact hobj.shape.congr ⟨rfl, rfl, helse.1, helse.2⟩
  apart d e k₁ k₂ hk₁ hk₂ := by
    have hfd : ∀ d k', (s.absorb c k w).connection d = some k' →
        ∃ k'', s.connection d = some k'' ∧ k'.conn.channel.fd = k''.conn.channel.fd := by
      intro d k' hk'
      by_cases hd : d = c
      · subst hd
        obtain rfl := Option.some.inj ((absorb_connection_self s d k w).symm.trans hk')
        exact ⟨k, hk, hconf.fd⟩
      · rw [absorb_connection_of_ne s k w hd] at hk'
        exact ⟨k', hk', rfl⟩
    obtain ⟨k₁', hk₁', hfd₁⟩ := hfd d k₁ hk₁
    obtain ⟨k₂', hk₂', hfd₂⟩ := hfd e k₂ hk₂
    rw [hfd₁, hfd₂]
    exact h.apart d e k₁' k₂' hk₁' hk₂'
  known ℓ f hf := by
    by_cases hown : ℓ = k.ioLoop ∧ f = k.conn.channel.fd
    · obtain ⟨rfl, rfl⟩ := hown
      exact ⟨c, _, absorb_connection_self s c k w, rfl, hconf.fd⟩
    · have helse := absorb_elsewhere (c := c) hconf ℓ fun hℓ hfd => hown ⟨hℓ, hfd⟩
      rw [helse.1, helse.2] at hf
      obtain ⟨d, k', hk', hloop, hfd⟩ := h.known ℓ f hf
      have hd : d ≠ c := by
        rintro rfl
        obtain rfl := Option.some.inj (hk.symm.trans hk')
        exact hown ⟨hloop.symm, hfd.symm⟩
      exact ⟨d, k', (absorb_connection_of_ne s k w hd).trans hk', hloop, hfd⟩

end Absorb

/-! ### The server -/

structure Registry (server : TcpServer) (stage : ℕ → Stage) : Prop where
  born : ∀ c, stage c = .unborn ↔ ¬ (0 < c ∧ c < server.nextConnId)
  holds : ∀ n c, server.connections n = some c ↔ (stage c).held = true ∧ server.connName c = n
  next : server.numThreads ≠ 0 → server.next = (server.nextConnId - 1) % server.numThreads
  pos : 0 < server.nextConnId
  bound : server.nextConnId ≤ 2 ^ 31

section Registry

variable {server : TcpServer} {σ : Stage}

theorem Registry.lt (h : Registry server stage) (hc : stage c ≠ .unborn) : c < 2 ^ 31 := by
  have hborn := not_not.mp (mt (h.born c).mpr hc)
  exact Nat.lt_of_lt_of_le hborn.2 h.bound

theorem held_ne_unborn (h : (stage c).held = true) : stage c ≠ .unborn := by
  intro hc
  rw [hc] at h
  cases h

theorem Registry.restage (h : Registry server stage) (hheld : σ.held = (stage c).held)
    (hborn : σ = .unborn ↔ stage c = .unborn) :
    Registry server (Function.update stage c σ) where
  born d := by
    by_cases hd : d = c
    · subst hd
      rw [Function.update_self, hborn, h.born]
    · rw [Function.update_of_ne hd, h.born]
  holds n d := by
    by_cases hd : d = c
    · subst hd
      rw [Function.update_self, hheld, h.holds]
    · rw [Function.update_of_ne hd, h.holds]
  next := h.next
  pos := h.pos
  bound := h.bound

/-- The connection is found under its name, and nothing else is. -/
theorem Registry.erase (h : Registry server stage) (hc : (stage c).held = true)
    (hσ : σ.held = false) (hborn : σ ≠ .unborn) :
    (server.erase (server.connName c)).1 = 1 ∧
      Registry (server.erase (server.connName c)).2 (Function.update stage c σ) := by
  have hfind := (h.holds (server.connName c) c).mpr ⟨hc, rfl⟩
  refine ⟨by simp [TcpServer.erase, hfind], fun d => ?_, fun n d => ?_, h.next, h.pos, h.bound⟩
  · by_cases hd : d = c
    · subst hd
      rw [Function.update_self]
      exact iff_of_false hborn (mt (h.born d).mpr (held_ne_unborn hc))
    · rw [Function.update_of_ne hd]
      exact h.born d
  · show Function.update server.connections _ none n = some d ↔ _ ∧ server.connName d = n
    by_cases hd : d = c
    · subst hd
      rw [Function.update_self, hσ]
      refine iff_of_false (fun hsome => ?_) (by simp)
      by_cases hn : n = server.connName d
      · subst hn
        rw [Function.update_self] at hsome
        cases hsome
      · rw [Function.update_of_ne hn] at hsome
        exact hn ((h.holds n d).mp hsome).2.symm
    · rw [Function.update_of_ne hd]
      by_cases hn : n = server.connName c
      · subst hn
        rw [Function.update_self]
        refine iff_of_false (by simp) fun ⟨hheld, hname⟩ => hd ?_
        exact connName_inj (h.lt (held_ne_unborn hheld)) (h.lt (held_ne_unborn hc)) hname
      · rw [Function.update_of_ne hn]
        exact h.holds n d

end Registry

/-! ### The whole -/

structure Core (s : State τ) (stage : ℕ → Stage) : Prop where
  objects : Objects s stage
  registry : Registry s.server stage
  queued : ∀ ℓ, Queued (homeOf s.server) stage ℓ (s.loops ℓ).jobs
  stacked : ∀ ℓ, Stacked (homeOf s.server) stage ℓ (s.loops ℓ)
  threads : ∀ t c, (s.pc t).connection = some c → (stage c).established = true

theorem Core.note (h : Core s stage) (c : ℕ) (life : Life) : Core (s.note c life) stage :=
  ⟨h.objects.congr rfl (fun _ => rfl) rfl rfl, h.registry, h.queued, h.stacked, h.threads⟩

theorem threads_restage {σ : Stage} {pc : τ → Pc}
    (h : ∀ t c, (pc t).connection = some c → (stage c).established = true)
    (hσ : (stage c).established = true → σ.established = true) (t : τ) (d : ℕ)
    (hd : (pc t).connection = some d) :
    (Function.update stage c σ d).established = true := by
  by_cases hdc : d = c
  · subst hdc
    rw [Function.update_self]
    exact hσ (h t d hd)
  · rw [Function.update_of_ne hdc]
    exact h t d hd

theorem jobs_append {l l' : LoopThread} {new : List Job} (hphase : l'.phase = l.phase)
    (hpending : l'.loop.pendingFunctors = l.loop.pendingFunctors ++ new) :
    l'.jobs = l.jobs ++ new := by
  unfold LoopThread.jobs
  rw [hphase, hpending]
  split <;> simp

/-! ### A method of a connection -/

/-- What a method of connection `c` may do, and the stage to which it takes the
connection. -/
structure Advance (s : State τ) (stage : ℕ → Stage) (c : ℕ) (k : Connection) (w : World)
    (σ : Stage) : Prop where
  confined : World.Confined (fun f => Plain f ∧ σ.established = true ∧
    (isRaw f = true → σ = .opened)) (s.view k) w
  shape : σ.Shape w
  held : σ.held = (stage c).held
  established : (stage c).established = true → σ.established = true
  inUse : (stage c).inUse = true → σ.inUse = true
  jobs : ∀ ℓ, σ.jobsAt k.ioLoop ℓ c = (stage c).jobsAt k.ioLoop ℓ c
  due : w.stack.filter isMove ++ (stage c).call.toList = σ.call.toList
  calls : ∀ x ∈ w.stack, x = .user ∨ x = .closeCallback ∨
    x = .remove ∧ (s.loops k.ioLoop).loop.eventHandling = false
  below : w.stack = [] ∨ ∀ x ∈ (s.loops k.ioLoop).stack, x.2 ≠ .handleRead
  finished : stage c = .opened → σ = .opened ∨ Finished (s.loops k.ioLoop) c

theorem Queued.push_all {home : ℕ → ℕ} {jobs : List Job} {fs : List Functor}
    (h : Queued home stage ℓ jobs) (hhome : home c = ℓ)
    (hfs : ∀ f ∈ fs, Plain f ∧ (stage c).established = true ∧
      (isRaw f = true → stage c = .opened)) :
    Queued home stage ℓ (jobs ++ fs.map (Job.onConnection c)) := by
  induction fs generalizing jobs with
  | nil => simpa using h
  | cons f fs ih =>
      obtain ⟨hplain, hest, hraw⟩ := hfs f List.mem_cons_self
      have hpush := h.push_plain hplain hhome hest hraw
      have hrest := ih hpush fun g hg => hfs g (List.mem_cons_of_mem _ hg)
      rwa [List.append_assoc] at hrest

theorem filter_moves_map (c d : ℕ) (cs : List Call) :
    (cs.map (Prod.mk c)).filter (fun x => x.1 = d ∧ isMove x.2) =
      if c = d then (cs.filter isMove).map (Prod.mk c) else [] := by
  rw [List.filter_map]
  split
  next h => simp [Function.comp_def, h]
  next h => simp [Function.comp_def, h]

theorem Core.absorb {w : World} {σ : Stage} (h : Core s stage) (hk : s.connection c = some k)
    (ha : Advance s stage c k w σ) : Core (s.absorb c k w) (Function.update stage c σ) where
  objects := h.objects.absorb hk ha.confined ha.shape
  registry := by
    refine h.registry.restage ha.held ?_
    have hold := (h.objects.object c k hk).shape.alive
    have hnew := ha.shape.alive
    constructor <;> intro heq
    · rw [heq] at hnew
      cases hnew
    · rw [heq] at hold
      cases hold
  queued ℓ := by
    have hhome := (h.objects.object c k hk).ioLoop
    have hrestage := (h.queued ℓ).restage (c := c) (hhome ▸ ha.jobs ℓ)
      (fun _ hest => .inl (ha.established hest)) fun _ => ha.inUse
    by_cases hℓ : ℓ = k.ioLoop
    · subst hℓ
      obtain ⟨fs, hfs, hplain⟩ := ha.confined.queued
      have hjobs : ((s.absorb c k w).loops k.ioLoop).jobs =
          (s.loops k.ioLoop).jobs ++ fs.map (Job.onConnection c) := by
        rw [show fs = w.loop.pendingFunctors from hfs.symm]
        apply jobs_append <;> simp [State.absorb]
      rw [hjobs]
      refine hrestage.push_all hhome.symm fun f hf => ?_
      rw [Function.update_self]
      exact hplain f hf
    · rw [absorb_loops_of_ne s c w hℓ]
      exact hrestage
  stacked ℓ := by
    have hhome := (h.objects.object c k hk).ioLoop
    have hord : Orderly (homeOf s.server) (Function.update stage c σ) ℓ (s.loops ℓ) := by
      apply (h.stacked ℓ).toOrderly.restage
      · exact fun _ _ => .inl ha.shape.alive
      · intro hℓ hopened
        rw [← hℓ, ← hhome]
        exact ha.finished hopened
      · exact fun _ huse => .inl (ha.inUse huse)
    by_cases hℓ : ℓ = k.ioLoop
    · subst hℓ
      have hstack : ((s.absorb c k w).loops k.ioLoop).stack =
          w.stack.map (Prod.mk c) ++ (s.loops k.ioLoop).stack := by simp [State.absorb]
      refine ⟨hord.push hstack ?_ ?_ ?_ (fun _ => hhome.symm) ?_ ha.calls ha.below, fun d => ?_⟩
      · simp [State.absorb]
      · simpa [State.absorb, State.view] using ha.confined.eventHandling
      · simpa [State.absorb, State.view] using ha.confined.current
      · rw [Function.update_self]
        exact ha.shape.alive
      · rw [hstack, List.filter_append, (h.stacked k.ioLoop).due, filter_moves_map]
        by_cases hd : d = c
        · subst hd
          rw [if_pos rfl, Function.update_self, Stage.callsAt, Stage.callsAt, absorb_server,
            if_pos hhome.symm, if_pos hhome.symm, ← List.map_append, ha.due]
        · rw [if_neg fun heq => hd heq.symm, Function.update_of_ne hd]
          rfl
    · rw [absorb_loops_of_ne s c w hℓ]
      refine ⟨hord, fun d => ?_⟩
      rw [(h.stacked ℓ).due]
      by_cases hd : d = c
      · subst hd
        have hne : homeOf s.server d ≠ ℓ := fun heq => hℓ (heq.symm.trans hhome.symm)
        rw [Function.update_self, Stage.callsAt, Stage.callsAt, absorb_server, if_neg hne,
          if_neg hne]
      · rw [Function.update_of_ne hd]
        rfl
  threads t d hd := threads_restage h.threads ha.established t d hd

end Muduo.System.Serving
