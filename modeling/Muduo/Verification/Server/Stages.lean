import Muduo.System.Serving
import Muduo.Verification.Connection.Confined

/-! The stages in the life of a connection. Which stage it is in says where the one functor
or call is that will take the connection further, and what the connection looks like. -/

namespace Muduo.System.Serving

open Library Net TcpConnection Lifecycle

/-- How far a connection has come. Stages in the progressive form are left within the
step that enters them, except `closing`, `removing` and `destroying`. -/
inductive Stage where
  | unborn
  | accepted
  | opening
  | opened
  | closing
  | removing
  | erasing
  | removed
  | dropping
  | destroying
  | forgetting
  | destroyed
  | gone
  deriving DecidableEq, Repr

/-- The functors that take a connection to another stage, and the connection. -/
def Job.moves : Job → Option ℕ
  | .connectEstablished c => some c
  | .removeConnectionInLoop c => some c
  | .onConnection c .connectDestroyed => some c
  | _ => none

/-- The calls that do. -/
def isMove : Call → Bool
  | .closeCallback => true
  | .remove => true
  | _ => false

namespace Stage

/-- The functor that waits for the connection. -/
def job (c : ℕ) : Stage → Option Job
  | .accepted => some (.connectEstablished c)
  | .removing => some (.removeConnectionInLoop c)
  | .removed => some (.onConnection c .connectDestroyed)
  | _ => none

/-- The loop it waits in: `removeConnectionInLoop` is a functor of the base loop. -/
def place (home : ℕ) : Stage → ℕ
  | .removing => 0
  | _ => home

/-- The functor that waits in loop `ℓ`, if there is one. -/
def jobsAt (home ℓ c : ℕ) (σ : Stage) : List Job :=
  if σ.place home = ℓ then (σ.job c).toList else []

/-- The call that is on the stack of the loop of the connection. -/
def call : Stage → Option Call
  | .closing => some .closeCallback
  | .destroying => some .remove
  | _ => none

def callsAt (home ℓ c : ℕ) (σ : Stage) : List (ℕ × Call) :=
  if home = ℓ then (σ.call).toList.map (Prod.mk c) else []

/-- The stage after the functor or the call has been taken off. -/
def taken : Stage → Stage
  | .accepted => .opening
  | .closing => .erasing
  | .removing => .erasing
  | .removed => .dropping
  | .destroying => .forgetting
  | σ => σ

/-- The object exists. -/
def alive : Stage → Bool
  | .unborn => false
  | .gone => false
  | _ => true

/-- `connectEstablished` has been executed, and the object exists. -/
def established : Stage → Bool
  | .unborn => false
  | .accepted => false
  | .opening => false
  | .gone => false
  | _ => true

/-- `connectEstablished` has been executed, and `connectDestroyed` has not. -/
def inUse : Stage → Bool
  | .opened => true
  | .closing => true
  | .removing => true
  | .erasing => true
  | .removed => true
  | _ => false

/-- The connection is in `connections_`. -/
def held : Stage → Bool
  | .accepted => true
  | .opening => true
  | .opened => true
  | .closing => true
  | .removing => true
  | .erasing => true
  | _ => false

/-- What has happened to the connection. -/
def life : Stage → List Life
  | .unborn => []
  | .accepted => [.newConnection]
  | .opening => [.newConnection]
  | .opened => [.newConnection, .connectEstablished]
  | .closing => [.newConnection, .connectEstablished, .handleClose]
  | .removing => [.newConnection, .connectEstablished, .handleClose]
  | .erasing => [.newConnection, .connectEstablished, .handleClose]
  | .removed => [.newConnection, .connectEstablished, .handleClose, .removeConnectionInLoop]
  | .dropping => [.newConnection, .connectEstablished, .handleClose, .removeConnectionInLoop]
  | .destroying => [.newConnection, .connectEstablished, .handleClose, .removeConnectionInLoop,
      .connectDestroyed]
  | .forgetting => [.newConnection, .connectEstablished, .handleClose, .removeConnectionInLoop,
      .connectDestroyed]
  | .destroyed => [.newConnection, .connectEstablished, .handleClose, .removeConnectionInLoop,
      .connectDestroyed, .channelRemoved]
  | .gone => [.newConnection, .connectEstablished, .handleClose, .removeConnectionInLoop,
      .connectDestroyed, .channelRemoved, .fdClosed]

/-- What the connection looks like. -/
def Shape : Stage → World → Prop
  | .unborn, _ => False
  | .accepted, w => w.Fresh
  | .opening, w => w.Fresh
  | .opened, w => w.Open
  | .destroyed, w => w.Cleared
  | .gone, _ => False
  | _, w => w.Shut ∧ w.conn.channel.index = EPollPoller.kDeleted

variable {σ : Stage} {w w' : World}

theorem taken_alive : σ.taken.alive = σ.alive := by cases σ <;> rfl

theorem taken_held : σ.taken.held = σ.held := by cases σ <;> rfl

theorem taken_established : σ.taken.established = σ.established := by cases σ <;> rfl

theorem taken_life : σ.taken.life = σ.life := by cases σ <;> rfl

theorem taken_eq_unborn : σ.taken = .unborn ↔ σ = .unborn := by cases σ <;> simp [taken]

theorem taken_job (c : ℕ) : σ.taken.job c = none := by cases σ <;> rfl

theorem taken_call : σ.taken.call = none := by cases σ <;> rfl

theorem jobsAt_of_job_eq_none {c : ℕ} (h : σ.job c = none) (home ℓ : ℕ) :
    σ.jobsAt home ℓ c = [] := by
  unfold jobsAt
  split <;> simp [h]

theorem callsAt_of_call_eq_none (h : σ.call = none) (home ℓ c : ℕ) :
    σ.callsAt home ℓ c = [] := by
  unfold callsAt
  split <;> simp [h]

theorem of_job {c : ℕ} {j : Job} (h : σ.job c = some j) :
    σ = .accepted ∨ σ = .removing ∨ σ = .removed := by
  cases σ <;> simp [job] at h ⊢

theorem of_call {call : Call} (h : σ.call = some call) : σ = .closing ∨ σ = .destroying := by
  cases σ <;> simp [Stage.call] at h ⊢

/-- A functor or a call that is due belongs to one stage. -/
theorem eq_of_job {σ' : Stage} {c : ℕ} {j : Job} (h : σ.job c = some j) (h' : σ'.job c = some j) :
    σ = σ' := by
  cases σ' <;> cases h' <;> cases σ <;> cases h <;> rfl

theorem eq_of_call {σ' : Stage} {call : Call} (h : σ.call = some call) (h' : σ'.call = some call) :
    σ = σ' := by
  cases σ' <;> cases h' <;> cases σ <;> cases h <;> rfl

theorem alive_of_established (h : σ.established = true) : σ.alive = true := by
  cases σ <;> first | rfl | cases h

theorem established_of_inUse (h : σ.inUse = true) : σ.established = true := by
  cases σ <;> first | rfl | cases h

theorem Shape.taken (h : σ.Shape w) : σ.taken.Shape w := by
  cases σ <;> exact h

theorem Shape.congr (h : σ.Shape w) (hsame : World.SameHere w w') : σ.Shape w' := by
  cases σ with
  | unborn => exact h
  | accepted => exact hsame.fresh h
  | opening => exact hsame.fresh h
  | opened => exact hsame.isOpen h
  | destroyed => exact hsame.cleared h
  | gone => exact h
  | _ => exact ⟨hsame.shut h.1, by rw [hsame.conn, h.2]⟩

theorem Shape.alive (h : σ.Shape w) : σ.alive = true := by
  cases σ <;> first | rfl | exact h.elim

/-- Before `connectDestroyed` an established connection is open or shut. -/
theorem Shape.steady (h : σ.Shape w) (hσ : σ.inUse = true) : w.Steady := by
  cases σ with
  | opened => exact .inl h
  | closing => exact .inr h.1
  | removing => exact .inr h.1
  | erasing => exact .inr h.1
  | removed => exact .inr h.1
  | _ => cases hσ

theorem Shape.evolves (h : σ.Shape w) (he : World.Evolves w w') (hσ : σ.inUse = true) :
    σ.Shape w' := by
  cases σ with
  | opened => exact he.opened h
  | closing => exact ⟨(he.shut h.1).1, (he.shut h.1).2.trans h.2⟩
  | removing => exact ⟨(he.shut h.1).1, (he.shut h.1).2.trans h.2⟩
  | erasing => exact ⟨(he.shut h.1).1, (he.shut h.1).2.trans h.2⟩
  | removed => exact ⟨(he.shut h.1).1, (he.shut h.1).2.trans h.2⟩
  | _ => cases hσ

/-- A connection that has been established is open or in `kDisconnected`. -/
theorem Shape.opened_or (h : σ.Shape w) (hσ : σ.established = true) :
    σ = .opened ∨ w.conn.state = .kDisconnected := by
  cases σ with
  | opened => exact .inl rfl
  | destroyed => exact .inr h.state
  | closing => exact .inr h.1.state
  | removing => exact .inr h.1.state
  | erasing => exact .inr h.1.state
  | removed => exact .inr h.1.state
  | dropping => exact .inr h.1.state
  | destroying => exact .inr h.1.state
  | forgetting => exact .inr h.1.state
  | _ => cases hσ

/-- `state_` tells that a connection is open. -/
theorem Shape.opened_of_state (h : σ.Shape w)
    (hs : w.conn.state = .kConnected ∨ w.conn.state = .kDisconnecting) : σ = .opened := by
  by_cases hest : σ.established = true
  · rcases h.opened_or hest with hσ | hd
    · exact hσ
    · rcases hs with hs | hs <;> rw [hs] at hd <;> cases hd
  · cases σ with
    | accepted => rcases hs with hs | hs <;> exact absurd (h.state.symm.trans hs) (by simp)
    | opening => rcases hs with hs | hs <;> exact absurd (h.state.symm.trans hs) (by simp)
    | unborn => exact h.elim
    | gone => exact h.elim
    | _ => exact absurd rfl hest

/-- The poller knows the descriptor by the channel of the connection. -/
theorem Shape.known (h : σ.Shape w) {a : ℕ}
    (ha : w.loop.poller.channels w.conn.channel.fd = some a) : w.conn.channel.self = a := by
  have htracked : w.Tracked → w.conn.channel.self = a := by
    intro ht
    cases ht with
    | new _ hmap _ => exact absurd (hmap.symm.trans ha) (by simp)
    | added _ hmap _ => exact Option.some.inj (hmap.symm.trans ha)
    | deleted _ hmap _ => exact Option.some.inj (hmap.symm.trans ha)
  cases σ with
  | unborn => exact h.elim
  | accepted => exact htracked h.tracked
  | opening => exact htracked h.tracked
  | opened => exact htracked h.tracked
  | destroyed => exact absurd (h.unknown.symm.trans ha) (by simp)
  | gone => exact h.elim
  | _ => exact htracked h.1.tracked

/-- The kernel watches open connections only. -/
theorem Shape.opened_of_watched (h : σ.Shape w)
    (hw : w.loop.poller.interest w.conn.channel.fd ≠ none) : σ = .opened := by
  have hshut : w.Shut ∧ w.conn.channel.index = EPollPoller.kDeleted → False := by
    rintro ⟨hs, hindex⟩
    cases hs.tracked with
    | new hi => exact hs.known hi
    | added hi => simp [hindex, EPollPoller.kAdded, EPollPoller.kDeleted] at hi
    | deleted _ _ hkernel => exact hw hkernel
  cases σ with
  | opened => rfl
  | accepted => exact absurd h.unwatched hw
  | opening => exact absurd h.unwatched hw
  | destroyed => exact absurd h.unwatched hw
  | unborn => exact h.elim
  | gone => exact h.elim
  | _ => exact (hshut h).elim

end Stage

/-! ### One queue -/

/-- The functors of a connection that change nothing about its stage, except that
`forceCloseInLoop` may close it. -/
def Plain : Functor → Prop
  | .startReadInLoop => False
  | .stopReadInLoop => False
  | .connectDestroyed => False
  | _ => True

/-- What a loop has still to run is in step with the stages. -/
structure Queued (home : ℕ → ℕ) (stage : ℕ → Stage) (ℓ : ℕ) (jobs : List Job) : Prop where
  due : ∀ c, jobs.filter (fun j => j.moves = some c) = (stage c).jobsAt (home c) ℓ c
  plain : ∀ c f, .onConnection c f ∈ jobs → f ≠ .connectDestroyed →
    Plain f ∧ home c = ℓ ∧ (stage c).established = true ∧
      (isRaw f = true → (stage c).inUse = true)
  -- a functor that does not own the connection runs before `connectDestroyed`
  order : jobs.Pairwise fun j j' => ∀ c, j = .onConnection c .connectDestroyed →
    j'.borrows c = false

section Queued

variable {home : ℕ → ℕ} {stage : ℕ → Stage} {ℓ c : ℕ} {jobs rest : List Job} {j : Job} {σ : Stage}

theorem Queued.nil (h : ∀ c, (stage c).jobsAt (home c) ℓ c = []) : Queued home stage ℓ [] where
  due c := (h c).symm
  plain _ _ hf := absurd hf List.not_mem_nil
  order := .nil

theorem mem_of_borrows (h : j.borrows c = true) : ∃ f, j = .onConnection c f ∧ isRaw f = true := by
  cases j with
  | onConnection d f =>
      obtain ⟨rfl, hf⟩ : d = c ∧ isRaw f = true := by simpa [Job.borrows] using h
      exact ⟨f, rfl, hf⟩
  | _ => cases h

/-- The functor that is due tells the stage, and there is no second one. -/
theorem Queued.head (h : Queued home stage ℓ (j :: rest)) (hj : j.moves = some c) :
    (stage c).place (home c) = ℓ ∧ (stage c).job c = some j ∧
      rest.filter (fun j => j.moves = some c) = [] := by
  have hdue := h.due c
  rw [List.filter_cons_of_pos (by simpa using hj), Stage.jobsAt] at hdue
  split at hdue
  next hplace =>
    cases hjob : (stage c).job c with
    | none => simp [hjob] at hdue
    | some j' =>
        rw [hjob, Option.toList_some, List.cons.injEq] at hdue
        exact ⟨hplace, by rw [hdue.1], hdue.2⟩
  next => cases hdue

/-- One connection goes to another stage. -/
theorem Queued.restage (h : Queued home stage ℓ jobs)
    (hdue : σ.jobsAt (home c) ℓ c = (stage c).jobsAt (home c) ℓ c)
    (hestablished : home c = ℓ → (stage c).established = true → σ.established = true ∨
      ∀ f, .onConnection c f ∉ jobs)
    (hraw : home c = ℓ → (stage c).inUse = true → σ.inUse = true) :
    Queued home (Function.update stage c σ) ℓ jobs where
  due d := by
    by_cases hd : d = c
    · subst hd
      rw [Function.update_self, h.due, hdue]
    · rw [Function.update_of_ne hd, h.due]
  plain d f hf hne := by
    obtain ⟨hplain, hhome, hest, huse⟩ := h.plain d f hf hne
    by_cases hd : d = c
    · subst hd
      rw [Function.update_self]
      refine ⟨hplain, hhome, ?_, fun hr => hraw hhome (huse hr)⟩
      rcases hestablished hhome hest with hσ | hno
      · exact hσ
      · exact absurd hf (hno f)
    · rw [Function.update_of_ne hd]
      exact ⟨hplain, hhome, hest, huse⟩
  order := h.order

theorem Queued.pop_plain (h : Queued home stage ℓ (j :: rest)) (hj : j.moves = none) :
    Queued home stage ℓ rest where
  due c := by rw [← h.due c, List.filter_cons_of_neg (by simp [hj])]
  plain c f hf := h.plain c f (List.mem_cons_of_mem _ hf)
  order := h.order.of_cons

/-- The functor that moves a connection is taken off its queue. -/
theorem Queued.pop (h : Queued home stage ℓ (j :: rest)) (hj : j.moves = some c) :
    Queued home (Function.update stage c (stage c).taken) ℓ rest where
  due d := by
    by_cases hd : d = c
    · subst hd
      rw [Function.update_self, (h.head hj).2.2,
        Stage.jobsAt_of_job_eq_none (Stage.taken_job d)]
    · rw [Function.update_of_ne hd, ← h.due d, List.filter_cons_of_neg]
      simpa [hj] using fun heq => hd heq.symm
  plain d f hf hne := by
    obtain ⟨hplain, hhome, hest, huse⟩ := h.plain d f (List.mem_cons_of_mem _ hf) hne
    by_cases hd : d = c
    · subst hd
      rw [Function.update_self, Stage.taken_established]
      refine ⟨hplain, hhome, hest, fun hr => ?_⟩
      have hjob := (h.head hj).2.1
      -- only `connectDestroyed` ends the time in which raw functors may wait
      cases hstage : stage d with
      | accepted => simp [hstage, Stage.established] at hest
      | removing => rfl
      | removed =>
          rw [hstage] at hjob
          have := List.rel_of_pairwise_cons h.order hf d (Option.some.inj hjob).symm
          simp [Job.borrows, hr] at this
      | _ => simp [hstage, Stage.job] at hjob
    · rw [Function.update_of_ne hd]
      exact ⟨hplain, hhome, hest, huse⟩
  order := h.order.of_cons

/-- A functor that moves no connection is queued. -/
theorem Queued.push_plain {f : Functor} (h : Queued home stage ℓ jobs) (hf : Plain f)
    (hhome : home c = ℓ) (hest : (stage c).established = true)
    (hraw : isRaw f = true → stage c = .opened) :
    Queued home stage ℓ (jobs ++ [.onConnection c f]) where
  due d := by
    rw [List.filter_append, h.due]
    cases f <;> first | exact hf.elim | simp [Job.moves]
  plain d g hg hne := by
    rcases List.mem_append.mp hg with hg | hg
    · exact h.plain d g hg hne
    · obtain ⟨rfl, rfl⟩ : d = c ∧ g = f := by simpa using hg
      exact ⟨hf, hhome, hest, fun hr => by rw [hraw hr]; rfl⟩
  order := by
    refine List.pairwise_append.mpr ⟨h.order, List.pairwise_singleton _ _, ?_⟩
    rintro j hj _ hmem d rfl
    rw [List.mem_singleton.mp hmem]
    by_contra hb
    obtain ⟨g, heq, hr⟩ := mem_of_borrows (Bool.eq_true_of_not_eq_false hb)
    obtain ⟨rfl, rfl⟩ := Job.onConnection.inj heq
    -- a raw functor is queued on an open connection, which has no functor due
    have hdue := h.due c
    rw [hraw hr, Stage.jobsAt_of_job_eq_none rfl] at hdue
    have : Job.onConnection c .connectDestroyed ∈ jobs.filter (fun j => j.moves = some c) :=
      List.mem_filter.mpr ⟨hj, by simp [Job.moves]⟩
    rw [hdue] at this
    cases this

/-- The functor that will move a connection is queued, and the connection waits for it. -/
theorem Queued.push (h : Queued home stage ℓ jobs) (hjob : σ.job c = some j)
    (hplace : σ.place (home c) = ℓ) (hnone : (stage c).job c = none)
    (hestablished : (stage c).established = true → σ.established = true)
    (huse : (stage c).inUse = true → σ.inUse = true) :
    Queued home (Function.update stage c σ) ℓ (jobs ++ [j]) := by
  have hmoves : j.moves = some c := by
    cases σ <;> simp only [Stage.job, Option.some.injEq, reduceCtorEq] at hjob <;>
      subst hjob <;> rfl
  have hplain : ∀ d f, Job.onConnection d f = j → f = .connectDestroyed := by
    rintro d f rfl
    cases f <;> first | rfl | cases hmoves
  refine ⟨fun d => ?_, fun d f hf hne => ?_, ?_⟩
  · rw [List.filter_append, h.due]
    by_cases hd : d = c
    · subst hd
      rw [Stage.jobsAt_of_job_eq_none hnone, Function.update_self, Stage.jobsAt, if_pos hplace,
        hjob]
      simp [hmoves]
    · rw [Function.update_of_ne hd, List.filter_cons_of_neg]
      · simp
      · simpa [hmoves] using fun heq => hd heq.symm
  · have hf' : .onConnection d f ∈ jobs := by
      rcases List.mem_append.mp hf with hf | hf
      · exact hf
      · exact absurd (hplain d f (List.mem_singleton.mp hf)) hne
    obtain ⟨hp, hhome, hest, hraw⟩ := h.plain d f hf' hne
    by_cases hd : d = c
    · subst hd
      rw [Function.update_self]
      exact ⟨hp, hhome, hestablished hest, fun hr => huse (hraw hr)⟩
    · rw [Function.update_of_ne hd]
      exact ⟨hp, hhome, hest, hraw⟩
  · refine List.pairwise_append.mpr ⟨h.order, List.pairwise_singleton _ _, ?_⟩
    rintro j' - _ hmem d -
    rw [List.mem_singleton.mp hmem]
    by_contra hb
    obtain ⟨f, heq, hr⟩ := mem_of_borrows (Bool.eq_true_of_not_eq_false hb)
    rw [hplain d f heq.symm] at hr
    cases hr

end Queued

/-! ### One thread -/

/-- What may stand on the stack of loop `ℓ`. -/
structure Callable (home : ℕ → ℕ) (stage : ℕ → Stage) (ℓ : ℕ) (loop : EventLoop Job)
    (x : ℕ × Call) : Prop where
  home : home x.1 = ℓ
  alive : (stage x.1).alive = true
  noClose : x.2 ≠ .handleClose
  reads : x.2 = .handleRead → stage x.1 = .opened ∧ loop.currentActiveChannel = some x.1
  writes : x.2 = .handleWrite → (stage x.1).inUse = true
  removes : x.2 = .remove → loop.eventHandling = false

/-- What may be left of the active channels of loop `ℓ`. -/
structure Listed (home : ℕ → ℕ) (stage : ℕ → Stage) (ℓ : ℕ) (loop : EventLoop Job)
    (x : ℕ × Revents) : Prop where
  home : home x.1 = ℓ
  opened : stage x.1 = .opened
  hup : x.2.pollhup = true → x.2.pollin = true
  later : loop.currentActiveChannel ≠ some x.1

structure Orderly (home : ℕ → ℕ) (stage : ℕ → Stage) (ℓ : ℕ) (l : LoopThread) : Prop where
  calls : ∀ x ∈ l.stack, Callable home stage ℓ l.loop x
  below : ∀ x ∈ l.stack.tail, x.2 ≠ .handleRead
  nodup : ∀ rest, l.phase = .events rest → ((rest.map Prod.fst).filter (· ≠ 0)).Nodup
  events : ∀ rest, l.phase = .events rest → ∀ x ∈ rest, x.1 ≠ 0 →
    Listed home stage ℓ l.loop x
  idle : (∀ rest, l.phase ≠ .events rest) →
    l.loop.eventHandling = false ∧ l.loop.currentActiveChannel = none

/-- What a loop is doing is in step with the stages. -/
structure Stacked (home : ℕ → ℕ) (stage : ℕ → Stage) (ℓ : ℕ) (l : LoopThread) : Prop
    extends Orderly home stage ℓ l where
  due : ∀ c, l.stack.filter (fun x => x.1 = c ∧ isMove x.2) = (stage c).callsAt (home c) ℓ c

section Stacked

variable {home : ℕ → ℕ} {stage : ℕ → Stage} {ℓ c : ℕ} {l l' : LoopThread} {σ : Stage}

/-- An open connection that may leave its stage: loop `ℓ` is not going to read from it. -/
def Finished (l : LoopThread) (c : ℕ) : Prop :=
  (c, .handleRead) ∉ l.stack ∧ ∀ rest, l.phase = .events rest → ∀ x ∈ rest, x.1 ≠ c

theorem Orderly.restage (h : Orderly home stage ℓ l)
    (halive : home c = ℓ → (stage c).alive = true → σ.alive = true ∨ ∀ x ∈ l.stack, x.1 ≠ c)
    (hopened : home c = ℓ → stage c = .opened → σ = .opened ∨ Finished l c)
    (huse : home c = ℓ → (stage c).inUse = true → σ.inUse = true ∨ l.stack = []) :
    Orderly home (Function.update stage c σ) ℓ l where
  calls x hx := by
    have hcall := h.calls x hx
    by_cases hc : x.1 = c
    · subst hc
      refine ⟨hcall.home, ?_, hcall.noClose, fun hr => ?_, fun hw => ?_, hcall.removes⟩ <;>
        rw [Function.update_self]
      · rcases halive hcall.home hcall.alive with hσ | hno
        · exact hσ
        · exact absurd rfl (hno x hx)
      · refine ⟨?_, (hcall.reads hr).2⟩
        rcases hopened hcall.home (hcall.reads hr).1 with hσ | hfin
        · exact hσ
        · exact absurd (show (x.1, Call.handleRead) ∈ l.stack from hr ▸ hx) hfin.1
      · rcases huse hcall.home (hcall.writes hw) with hσ | hnil
        · exact hσ
        · rw [hnil] at hx
          cases hx
    · refine ⟨hcall.home, ?_, hcall.noClose, ?_, ?_, hcall.removes⟩ <;>
        rw [Function.update_of_ne hc]
      · exact hcall.alive
      · exact hcall.reads
      · exact hcall.writes
  below := h.below
  nodup := h.nodup
  events rest hrest x hx hne := by
    have hlisted := h.events rest hrest x hx hne
    refine ⟨hlisted.home, ?_, hlisted.hup, hlisted.later⟩
    by_cases hc : x.1 = c
    · subst hc
      rw [Function.update_self]
      rcases hopened hlisted.home hlisted.opened with hσ | hfin
      · exact hσ
      · exact absurd rfl (hfin.2 rest hrest x hx)
    · rw [Function.update_of_ne hc]
      exact hlisted.opened
  idle := h.idle

/-- A method of connection `c` returns, and leaves the calls `cs` to be made. -/
theorem Orderly.push {cs : List Call} (h : Orderly home stage ℓ l)
    (hstack : l'.stack = cs.map (Prod.mk c) ++ l.stack) (hphase : l'.phase = l.phase)
    (hhandling : l'.loop.eventHandling = l.loop.eventHandling)
    (hcurrent : l'.loop.currentActiveChannel = l.loop.currentActiveChannel)
    (hhome : cs ≠ [] → home c = ℓ) (halive : (stage c).alive = true)
    (hcs : ∀ x ∈ cs, x = .user ∨ x = .closeCallback ∨
      x = .remove ∧ l.loop.eventHandling = false)
    (hbelow : cs = [] ∨ ∀ x ∈ l.stack, x.2 ≠ .handleRead) :
    Orderly home stage ℓ l' where
  calls x hx := by
    rw [hstack] at hx
    rcases List.mem_append.mp hx with hx | hx
    · obtain ⟨call, hcall, rfl⟩ := List.mem_map.mp hx
      refine ⟨hhome (List.ne_nil_of_mem hcall), halive, ?_, ?_, ?_, ?_⟩ <;>
        rcases hcs call hcall with rfl | rfl | ⟨rfl, hfalse⟩ <;> simp
      exact hhandling.trans hfalse
    · have hcall := h.calls x hx
      refine ⟨hcall.home, hcall.alive, hcall.noClose, ?_, hcall.writes, ?_⟩
      · rw [hcurrent]
        exact hcall.reads
      · rw [hhandling]
        exact hcall.removes
  below x hx := by
    rw [hstack] at hx
    rcases hbelow with rfl | hno
    · exact h.below x hx
    · rcases List.mem_append.mp (List.mem_of_mem_tail hx) with hx | hx
      · obtain ⟨call, hcall, rfl⟩ := List.mem_map.mp hx
        rcases hcs call hcall with rfl | rfl | ⟨rfl, -⟩ <;> simp
      · exact hno x hx
  nodup rest hrest := h.nodup rest (hphase ▸ hrest)
  events rest hrest x hx hne := by
    have hlisted := h.events rest (hphase ▸ hrest) x hx hne
    exact ⟨hlisted.home, hlisted.opened, hlisted.hup, hcurrent ▸ hlisted.later⟩
  idle hno := by
    rw [hphase] at hno
    rw [hhandling, hcurrent]
    exact h.idle hno

/-- The loop is the same but for its poller and its queue. -/
theorem Stacked.congr (h : Stacked home stage ℓ l) (hstack : l'.stack = l.stack)
    (hphase : l'.phase = l.phase) (hhandling : l'.loop.eventHandling = l.loop.eventHandling)
    (hcurrent : l'.loop.currentActiveChannel = l.loop.currentActiveChannel) :
    Stacked home stage ℓ l' where
  calls x hx := by
    have hcall := h.calls x (hstack ▸ hx)
    exact ⟨hcall.home, hcall.alive, hcall.noClose, hcurrent ▸ hcall.reads, hcall.writes,
      hhandling ▸ hcall.removes⟩
  below := hstack ▸ h.below
  nodup rest hrest := h.nodup rest (hphase ▸ hrest)
  events rest hrest x hx hne := by
    have hlisted := h.events rest (hphase ▸ hrest) x hx hne
    exact ⟨hlisted.home, hlisted.opened, hlisted.hup, hcurrent ▸ hlisted.later⟩
  idle hno := by
    rw [hphase] at hno
    rw [hhandling, hcurrent]
    exact h.idle hno
  due c := by rw [hstack, h.due]

theorem Orderly.pop {x : ℕ × Call} {rest : List (ℕ × Call)} (h : Orderly home stage ℓ l)
    (hstack : l.stack = x :: rest) : Orderly home stage ℓ { l with stack := rest } where
  calls y hy := h.calls y (by rw [hstack]; exact List.mem_cons_of_mem _ hy)
  below y hy := h.below y (by rw [hstack]; exact List.mem_of_mem_tail hy)
  nodup := h.nodup
  events := h.events
  idle := h.idle

/-- Nothing below the call that is due reads. -/
theorem Orderly.rest_reads {x : ℕ × Call} {rest : List (ℕ × Call)} (h : Orderly home stage ℓ l)
    (hstack : l.stack = x :: rest) : ∀ y ∈ rest, y.2 ≠ .handleRead := fun y hy =>
  h.below y (by rw [hstack]; exact hy)

theorem Stacked.pop_plain {x : ℕ × Call} {rest : List (ℕ × Call)} (h : Stacked home stage ℓ l)
    (hstack : l.stack = x :: rest) (hx : isMove x.2 = false) :
    Stacked home stage ℓ { l with stack := rest } where
  toOrderly := h.toOrderly.pop hstack
  due c := by
    rw [← h.due c, hstack, List.filter_cons_of_neg]
    simp [hx]

/-- The call that is due tells the stage, and there is no second one. -/
theorem Stacked.head {call : Call} {rest : List (ℕ × Call)} (h : Stacked home stage ℓ l)
    (hstack : l.stack = (c, call) :: rest) (hcall : isMove call = true) :
    (stage c).call = some call ∧ rest.filter (fun x => x.1 = c ∧ isMove x.2) = [] := by
  have hdue := h.due c
  rw [hstack, List.filter_cons_of_pos (by simpa using hcall), Stage.callsAt] at hdue
  split at hdue
  next =>
    cases hstage : (stage c).call with
    | none => simp [hstage] at hdue
    | some call' =>
        rw [hstage, Option.toList_some, List.map_singleton, List.cons.injEq,
          Prod.mk.injEq] at hdue
        exact ⟨by rw [hdue.1.2], hdue.2⟩
  next => cases hdue

theorem Stacked.pop {call : Call} {rest : List (ℕ × Call)} (h : Stacked home stage ℓ l)
    (hstack : l.stack = (c, call) :: rest) (hcall : isMove call = true) :
    Stacked home (Function.update stage c (stage c).taken) ℓ { l with stack := rest } where
  toOrderly := by
    obtain ⟨hstage, -⟩ := h.head hstack hcall
    apply (h.toOrderly.pop hstack).restage
    · intro _ halive
      exact .inl (Stage.taken_alive.trans halive)
    · intro _ hopened
      rw [hopened] at hstage
      cases hstage
    · intro _ huse
      cases hσ : stage c with
      | closing => exact .inl rfl
      | destroying =>
          rw [hσ] at huse
          cases huse
      | _ =>
          rw [hσ] at hstage
          cases hstage
  due d := by
    by_cases hd : d = c
    · subst hd
      rw [Function.update_self, Stage.callsAt_of_call_eq_none Stage.taken_call]
      exact (h.head hstack hcall).2
    · rw [Function.update_of_ne hd, ← h.due d, hstack, List.filter_cons_of_neg]
      simpa using fun heq => absurd heq.symm hd

/-- One connection goes to another stage, without a call. -/
theorem Stacked.restage (h : Stacked home stage ℓ l)
    (hdue : σ.callsAt (home c) ℓ c = (stage c).callsAt (home c) ℓ c)
    (halive : home c = ℓ → (stage c).alive = true → σ.alive = true ∨ ∀ x ∈ l.stack, x.1 ≠ c)
    (hopened : home c = ℓ → stage c = .opened → σ = .opened ∨ Finished l c)
    (huse : home c = ℓ → (stage c).inUse = true → σ.inUse = true ∨ l.stack = []) :
    Stacked home (Function.update stage c σ) ℓ l where
  toOrderly := h.toOrderly.restage halive hopened huse
  due d := by
    by_cases hd : d = c
    · subst hd
      rw [Function.update_self, h.due, hdue]
    · rw [Function.update_of_ne hd, h.due]

end Stacked

end Muduo.System.Serving
