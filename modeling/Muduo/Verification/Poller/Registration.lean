import Muduo.Verification.Poller.Standing

/-! The epoll poller and the kernel: every `epoll_ctl` call that is made succeeds. -/

namespace Muduo.System.Polling

open Library Net EPollPoller

/-! ### The calls of `epoll_ctl` -/

/-- The operation that `updateChannel` passes to `update`. -/
def updateOperation (c : Channel) : Operation :=
  if c.index = kNew ∨ c.index = kDeleted then .add
  else if c.isNoneEvent then .del else .mod

/-- The operation that `removeChannel` passes to `update`, if it calls it. -/
def removeOperation (c : Channel) : Option Operation :=
  if c.index = kAdded then some .del else none

theorem interest_update {p p' : EPollPoller} {op : Operation} {c : Channel}
    (h : p.update op c = .ok p') :
    p'.interest = (epollCtl p.interest c.fd c.events op).getD p.interest := by
  unfold EPollPoller.update at h
  cases hctl : epollCtl p.interest c.fd c.events op with
  | some interest =>
      rw [hctl] at h
      obtain rfl := Except.ok.inj h
      rfl
  | none =>
      rw [hctl] at h
      by_cases hdel : op = .del
      · rw [if_pos hdel] at h
        obtain rfl := Except.ok.inj h
        rfl
      · rw [if_neg hdel] at h
        cases h

theorem interest_update_bind {p p' : EPollPoller} {op : Operation} {c d c' : Channel}
    (h : (p.update op c >>= fun q => pure (q, d)) = .ok (p', c')) :
    p'.interest = (epollCtl p.interest c.fd c.events op).getD p.interest := by
  obtain ⟨q, hupdate, h⟩ := of_bind h
  obtain ⟨rfl, -⟩ := Prod.mk.inj (Except.ok.inj h)
  exact interest_update hupdate

/-- `updateChannel` changes the kernel set by one call of `update`. -/
theorem interest_updateChannel {p p' : EPollPoller} {c c' : Channel}
    (h : p.updateChannel c = .ok (p', c')) :
    p'.interest = (epollCtl p.interest c.fd c.events (updateOperation c)).getD p.interest := by
  unfold EPollPoller.updateChannel at h
  unfold updateOperation
  by_cases hadd : c.index = kNew ∨ c.index = kDeleted
  · rw [if_pos hadd] at h ⊢
    dsimp only at h
    by_cases hnew : c.index = kNew
    · rw [if_pos hnew] at h
      obtain ⟨-, h⟩ := of_ensure_bind h
      rw [pure_bind] at h
      have hkernel := interest_update_bind h
      exact hkernel
    · rw [if_neg hnew] at h
      obtain ⟨-, h⟩ := of_ensure_bind h
      rw [pure_bind] at h
      exact interest_update_bind h
  · rw [if_neg hadd] at h ⊢
    obtain ⟨-, h⟩ := of_ensure_bind h
    obtain ⟨-, h⟩ := of_ensure_bind h
    by_cases hnone : c.isNoneEvent = true
    · rw [if_pos hnone] at h ⊢
      exact interest_update_bind h
    · rw [if_neg hnone] at h ⊢
      exact interest_update_bind h

/-- `removeChannel` changes the kernel set by at most one call of `update`. -/
theorem interest_removeChannel {p p' : EPollPoller} {c c' : Channel}
    (h : p.removeChannel c = .ok (p', c')) :
    p'.interest = (removeOperation c).elim p.interest fun op =>
      (epollCtl p.interest c.fd c.events op).getD p.interest := by
  unfold EPollPoller.removeChannel at h
  unfold removeOperation
  obtain ⟨-, h⟩ := of_ensure_bind h
  obtain ⟨-, h⟩ := of_ensure_bind h
  obtain ⟨-, h⟩ := of_ensure_bind h
  dsimp only at h
  by_cases hadded : c.index = kAdded
  · rw [if_pos hadded] at h ⊢
    have hkernel := interest_update_bind h
    exact hkernel
  · rw [if_neg hadded] at h ⊢
    obtain ⟨rfl, -⟩ := Prod.mk.inj (Except.ok.inj h)
    rfl

/-- The channel as an operation hands it to the poller. -/
def handed (s : State EPollPoller) : Label → Channel
  | .update u a => { s.heap a with events := u.mask (s.heap a).events, addedToLoop := true }
  | .remove a => { s.heap a with addedToLoop := false }

/-- The `epoll_ctl` operation that a step issues on the descriptor of its channel. -/
def issued (s : State EPollPoller) (l : Label) : Option Operation :=
  match l with
  | .update _ _ => some (updateOperation (handed s l))
  | .remove _ => removeOperation (handed s l)

theorem of_exec_update {s s' : State EPollPoller} {u : Update} {a : ℕ}
    (h : exec epoll s (.update u a) = .ok s') :
    ∃ c, s.poller.updateChannel (handed s (.update u a)) = .ok (s'.poller, c) := by
  simp only [exec, epoll, Function.update_self] at h
  obtain ⟨⟨p, heap⟩, hpoller, h⟩ := of_bind h
  obtain ⟨⟨p₁, c⟩, hupdate, hpair⟩ := of_bind (of_mapError hpoller)
  obtain ⟨rfl, -⟩ := Prod.mk.inj (Except.ok.inj hpair)
  obtain rfl := Except.ok.inj h
  exact ⟨c, hupdate⟩

theorem of_exec_remove {s s' : State EPollPoller} {a : ℕ} (h : exec epoll s (.remove a) = .ok s') :
    ∃ c, s.poller.removeChannel (handed s (.remove a)) = .ok (s'.poller, c) := by
  simp only [exec, epoll, Function.update_self] at h
  obtain ⟨-, h⟩ := of_ensure_bind h
  obtain ⟨⟨p, heap⟩, hpoller, h⟩ := of_bind h
  obtain ⟨⟨p₁, c⟩, hremove, hpair⟩ := of_bind (of_mapError hpoller)
  obtain ⟨rfl, -⟩ := Prod.mk.inj (Except.ok.inj hpair)
  obtain rfl := Except.ok.inj h
  exact ⟨c, hremove⟩

/-- What a step does to the kernel set is what it issues. -/
theorem interest_exec {s s' : State EPollPoller} {l : Label} (h : exec epoll s l = .ok s') :
    s'.poller.interest = (issued s l).elim s.poller.interest fun op =>
      (epollCtl s.poller.interest (handed s l).fd (handed s l).events op).getD
        s.poller.interest := by
  cases l with
  | update u a =>
      obtain ⟨c, hupdate⟩ := of_exec_update h
      exact interest_updateChannel hupdate
  | remove a =>
      obtain ⟨c, hremove⟩ := of_exec_remove h
      exact interest_removeChannel hremove

/-! ### The states between the steps -/

variable {live : ℕ → Prop} {fd : ℕ → ℤ}

/-- The channels, the map and the kernel set agree. -/
structure InStep (live : ℕ → Prop) (fd : ℕ → ℤ) (s : State EPollPoller) : Prop where
  added : ∀ a, live a → ((s.heap a).index = kAdded ↔ s.poller.interest (fd a) ≠ none)
  new : ∀ a, live a → ((s.heap a).index = kNew ↔ s.poller.channels (fd a) = none)
  known : ∀ a, live a → s.poller.channels (fd a) ≠ none → s.poller.channels (fd a) = some a
  mask : ∀ f e, s.poller.interest f = some e →
    ∃ a, live a ∧ fd a = f ∧ (s.heap a).events = e

/-- The `epoll_ctl` call of a step, if it makes one, is one that the kernel grants. -/
def Granted (s : State EPollPoller) (l : Label) : Prop :=
  ∀ op, issued s l = some op →
    (op = .add → s.poller.interest (handed s l).fd = none) ∧
    (op = .mod ∨ op = .del → s.poller.interest (handed s l).fd ≠ none)

/-- The kernel performs the call that the step issues, and nothing else happens to the set. -/
def Performed (s s' : State EPollPoller) (l : Label) : Prop :=
  (issued s l).elim (s'.poller.interest = s.poller.interest) fun op =>
    epollCtl s.poller.interest (handed s l).fd (handed s l).events op = some s'.poller.interest

theorem Granted.performed {s s' : State EPollPoller} {l : Label} (h : Granted s l)
    (hexec : exec epoll s l = .ok s') : Performed s s' l := by
  have hinterest := interest_exec hexec
  unfold Performed
  cases hop : issued s l with
  | none =>
      rw [hop] at hinterest
      exact hinterest
  | some op =>
      rw [hop] at hinterest
      obtain ⟨hadd, hother⟩ := h op hop
      simp only [Option.elim_some] at hinterest ⊢
      rw [hinterest]
      cases op with
      | add => simp [epollCtl, hadd rfl]
      | mod => simp [epollCtl, hother (.inl rfl)]
      | del => simp [epollCtl, hother (.inr rfl)]

section

variable {st : ℕ → Standing} {s : State EPollPoller}

theorem EPolled.inStep (h : EPolled live fd st s) : InStep live fd s where
  added a ha := by
    have hkept := h.kept a ha
    rw [hkept.index_eq_kAdded, ← (h.placed a ha).2]
    cases hst : st a <;> rw [hst] at hkept <;> simp only [Kept] at hkept <;> simp [hkept]
  new a ha := by
    have hkept := h.kept a ha
    rw [hkept.index_eq_kNew, ← (h.placed a ha).2]
    cases hst : st a <;> rw [hst] at hkept <;> simp only [Kept] at hkept <;> simp [hkept]
  known a ha := by
    have hkept := h.kept a ha
    rw [← (h.placed a ha).2]
    cases hst : st a <;> rw [hst] at hkept <;> simp only [Kept] at hkept <;>
      simp [hkept, (h.placed a ha).1]
  mask f e he := by
    obtain ⟨a, ha, -, hf, hevents⟩ := h.interest_iff.mp he
    exact ⟨a, ha, hf, hevents⟩

theorem EPolled.index_mem (h : EPolled live fd st s) {a : ℕ} (ha : live a) :
    (s.heap a).index = kNew ∨ (s.heap a).index = kDeleted ∨ (s.heap a).index = kAdded := by
  have hkept := h.kept a ha
  rw [hkept.index_eq_kNew, hkept.index_eq_kDeleted, hkept.index_eq_kAdded]
  cases st a <;> simp

/-- Only a channel with the index `kAdded` is registered with the kernel, and only for one
with another index the operation is `ADD`. -/
theorem EPolled.granted (h : EPolled live fd st s) {l : Label} (hl : live l.channel) :
    Granted s l := by
  have hadded := h.inStep.added l.channel hl
  have hfd : (handed s l).fd = fd l.channel := by
    cases l <;> exact (h.placed _ hl).2
  have hindex : (handed s l).index = (s.heap l.channel).index := by cases l <;> rfl
  have hop : ∀ op, issued s l = some op → (op = .add ↔ (s.heap l.channel).index ≠ kAdded) := by
    have hmem := h.index_mem hl
    intro op hop
    cases l with
    | update u a =>
        obtain rfl := Option.some.inj hop
        rw [updateOperation, hindex]
        split_ifs with hnew hnone
        · rcases hnew with hnew | hnew <;> simp [hnew, kNew, kAdded, kDeleted]
        · simpa using hmem.resolve_left (not_or.mp hnew).1 |>.resolve_left (not_or.mp hnew).2
        · simpa using hmem.resolve_left (not_or.mp hnew).1 |>.resolve_left (not_or.mp hnew).2
    | remove a =>
        obtain ⟨hin, hdel⟩ := Option.ite_none_right_eq_some.mp hop
        obtain rfl := Option.some.inj hdel
        rw [hindex] at hin
        simp [hin]
  intro op hissued
  rw [hfd]
  constructor
  · intro hadd
    exact not_not.mp (mt hadded.mpr ((hop op hissued).mp hadd))
  · intro hother
    refine hadded.mp (not_not.mp (mt (hop op hissued).mpr ?_))
    rcases hother with rfl | rfl <;> decide

/-- The registered channels are the ones the poller knows. -/
structure Registered (live : ℕ → Prop) (fd : ℕ → ℤ) (st : ℕ → Standing)
    (s : Session EPollPoller) : Prop where
  epolled : EPolled live fd st s.state
  registered : ∀ a, live a → (s.registered a = true ↔ st a = .watched ∨ st a = .ignored)

theorem Registered.step {s : Session EPollPoller} (h : Registered live fd st s)
    (hfd : Distinct live fd) {l : Label} (hl : s.Legal live l) :
    ∃ s', s.exec epoll l = .ok s' ∧ ∃ st', Registered live fd st' s' := by
  cases l with
  | update u a =>
      obtain ⟨s', hs, hepolled, -⟩ := h.epolled.update hfd hl u
      obtain ⟨hfresh, hremoved⟩ := Standing.after_ne (u.mask (s.state.heap a).events) (st a)
      exact ⟨⟨s', _⟩, by rw [Session.exec, hs]; rfl, _, hepolled,
        registered_update h.registered (Standing.isKnown_of_ne hfresh hremoved) u⟩
  | remove a =>
      obtain ⟨ha, hreg, hnone⟩ := hl
      have hknown : (s.state.heap a).index ≠ kNew := by
        rw [Ne, (h.epolled.kept a ha).index_eq_kNew]
        rcases (h.registered a ha).mp hreg with hst | hst <;> simp [hst]
      rw [isNoneEvent_eq, decide_eq_true_eq] at hnone
      obtain ⟨s', hs, hepolled, -⟩ := h.epolled.remove hfd ha hknown hnone
      exact ⟨⟨s', _⟩, by rw [Session.exec, hs]; rfl, _, hepolled, registered_remove h.registered⟩

theorem of_session_exec {s s' : Session EPollPoller} {l : Label} (h : s.exec epoll l = .ok s') :
    exec epoll s.state l = .ok s'.state := by
  obtain ⟨state, hexec, h⟩ := of_bind h
  obtain rfl := Except.ok.inj h
  exact hexec

/-- Whatever channels are updated and removed, no assertion fails, the poller stays in step
with the kernel, and the kernel performs the next `epoll_ctl` call. -/
theorem epoll_registration (hfd : Distinct live fd) {ls : List Label}
    (hl : LegalRun (Session.exec epoll) (Session.Legal live) (.start .init fd) ls) :
    ∃ s, run (Session.exec epoll) (.start .init fd) ls = .ok s ∧ InStep live fd s.state ∧
      ∀ l, s.Legal live l → Granted s.state l ∧
        ∃ s', s.exec epoll l = .ok s' ∧ Performed s.state s'.state l := by
  have hinit : Registered live fd (fun _ => .fresh) (.start .init fd) :=
    ⟨start_epolled live fd, fun _ _ => by simp [Session.start]⟩
  have hstep : ∀ (s : Session EPollPoller) (l : Label), (∃ st, Registered live fd st s) →
      s.Legal live l → ∃ s', s.exec epoll l = .ok s' ∧ ∃ st', Registered live fd st' s' := by
    rintro s l ⟨st, h⟩ hlegal
    exact h.step hfd hlegal
  obtain ⟨s, hrun, st, hs⟩ := run_invariant hstep ⟨_, hinit⟩ hl
  refine ⟨s, hrun, hs.epolled.inStep, fun l hlegal => ?_⟩
  have hgranted : Granted s.state l := by
    refine hs.epolled.granted ?_
    cases l with
    | update u a => exact hlegal
    | remove a => exact hlegal.1
  obtain ⟨s', hexec, -⟩ := hs.step hfd hlegal
  exact ⟨hgranted, s', hexec, hgranted.performed (of_session_exec hexec)⟩

/-- A channel is added with an empty mask, ignored, added again, removed and reused. -/
def reusedChannel : List Label :=
  [.update .disableAll 3, .update .disableAll 3, .update .disableWriting 3, .remove 3,
    .update .enableReading 3, .update .enableWriting 4, .update .enableWriting 3,
    .update .disableAll 3, .remove 3]

theorem epoll_registration_reused :
    LegalRun (Session.exec epoll) (Session.Legal (· < 8))
        (.start .init fun a => (a : ℤ) + 5) reusedChannel ∧
      ∃ s, run (Session.exec epoll) (.start .init fun a => (a : ℤ) + 5) reusedChannel = .ok s ∧
        InStep (· < 8) (fun a => (a : ℤ) + 5) s.state ∧
        ∀ l, s.Legal (· < 8) l → Granted s.state l ∧
          ∃ s', s.exec epoll l = .ok s' ∧ Performed s.state s'.state l :=
  have hlegal : LegalRun (Session.exec epoll) (Session.Legal (· < 8))
      (.start .init fun a => (a : ℤ) + 5) reusedChannel := by
    decide +kernel
  ⟨hlegal, epoll_registration ⟨fun a b _ _ h => by omega, fun a _ => by omega⟩ hlegal⟩

end

end Muduo.System.Polling
