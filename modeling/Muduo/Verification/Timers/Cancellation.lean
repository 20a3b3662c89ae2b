import Muduo.Verification.Timers.Frame

/-! When `cancelInLoop` keeps a callback from being started again. -/

namespace Muduo.System.Timers

open Library Net TimerQueue

/-- The second event is the start of the timer that the first has cancelled. -/
def Event.startsCancelled : Event → Event → Bool
  | .cancelled id, .started id' => id = id'
  | _, _ => false

/-- No callback is started after its timer has been cancelled. -/
def Effective (trace : List Event) : Prop :=
  trace.Pairwise fun e f => e.startsCancelled f = false

instance (trace : List Event) : Decidable (Effective trace) :=
  inferInstanceAs (Decidable (trace.Pairwise _))

/-- A cancellation comes neither before the timer has been added nor between the start
of `handleRead` and the timer's own turn in the batch. -/
def timely (s : State) : Label → Bool
  | .cancelInLoop id =>
      id ∉ s.queued.map s.queue.ident ∧ id ∉ s.phase.due.map fun e => s.queue.ident e.timer
  | _ => true

/-- A timer that will not be started: it does not wait, is not under way and not due, and
if it is in the batch it will not be inserted again. -/
structure Barred (s : State) (id : ActiveTimer) : Prop where
  created : id.sequence ≤ s.numCreated
  inactive : id ∉ s.queue.activeTimers
  queued : ∀ a ∈ s.queued, s.queue.ident a ≠ id
  due : ∀ e ∈ s.phase.due, s.queue.ident e.timer ≠ id
  held : ∀ e ∈ s.phase.held, s.queue.ident e.timer = id → id ∈ s.queue.cancelingTimers

section Step

variable {s : State} {place : ℕ → Place} {id : ActiveTimer}

/-- A timer that is under way or in the batch. -/
theorem Inv.place_of_kept (h : Inv s place) {a : ℕ}
    (ha : a ∈ s.queued ∨ a ∈ s.phase.held.map Entry.timer) :
    place a = .queued ∨ place a = .held := ha.imp (h.queued a).mp (h.held a).mp

theorem ident_discard {a b : ℕ} (hne : b ≠ a) :
    (s.queue.discard a).ident b = s.queue.ident b := ident_congr (Function.update_of_ne hne _ _)

theorem ident_restart {a b : ℕ} {t : Timer} (ht : s.queue.heap a = some t) (now : Timestamp) :
    (s.queue.put a (t.restart now)).ident b = s.queue.ident b := by
  by_cases hb : b = a
  · subst hb
    rw [ident_eq ht, ident_eq (put_self _ _ _)]
    rfl
  · exact ident_congr (put_other hb)

theorem Inv.ident_drop (h : Inv s place) {id' : ActiveTimer} (hid : id' ∈ s.queue.activeTimers)
    {a : ℕ} (ha : a ∈ s.queued ∨ a ∈ s.phase.held.map Entry.timer) :
    (s.queue.drop id'.timer).ident a = s.queue.ident a := by
  refine ident_discard ?_
  rintro rfl
  have hplace : place id'.timer = .waiting := ((h.rep.active id').mp hid).1
  rcases h.place_of_kept ha with hp | hp <;> simp [hplace] at hp

theorem Barred.handleRead (h : Barred s id) (hinv : Inv s place) {now : Timestamp}
    {expired : List Entry} {timers : OrderedSet Entry} {active : OrderedSet ActiveTimer}
    (hexpired : ∀ e, e ∈ expired ↔ e ∈ s.queue.timers ∧ e.when ≤ now)
    (hactive : ∀ id, id ∈ active ↔
      id ∈ s.queue.activeTimers ∧ now < (s.queue.entry id.timer).when) :
    Barred { s with
      queue := { s.queue.readTimerfd with
        timers := timers
        activeTimers := active
        callingExpiredTimers := true
        cancelingTimers := .empty }
      phase := .calling now expired expired } id := by
  -- a timer that expires has waited until now, and a barred one does not wait
  have hnone : ∀ e ∈ expired, s.queue.ident e.timer ≠ id := by
    rintro e he rfl
    refine h.inactive ((hinv.rep.active _).mpr ⟨?_, rfl⟩)
    exact ((hinv.rep.timers e).mp ((hexpired e).mp he).1).1
  refine ⟨h.created, fun hmem => h.inactive ((hactive id).mp hmem).1, h.queued, hnone, ?_⟩
  intro e he heq
  exact absurd heq (hnone e he)

/-- A barred timer is neither added nor inserted again. -/
theorem Barred.inactive_step {l : Label} {s' : State} (h : Barred s id) (he : Effect s l s') :
    id ∉ s'.queue.activeTimers := by
  intro hmem
  cases he with
  | @add a now t changed ht hqueued hchanged =>
      have hmem : id = s.queue.ident a ∨ id ∈ s.queue.activeTimers := by
        cases changed <;> exact OrderedSet.mem_insert.mp hmem
      rcases hmem with rfl | hmem
      · exact h.queued a hqueued rfl
      · exact h.inactive hmem
  | cancelActive hid => exact h.inactive (OrderedSet.mem_erase.mp hmem).1
  | cancelOther hid huser hcreated =>
      rw [State.emit_queue, State.setQueue_queue, (Untouched.bar s.queue _).activeTimers] at hmem
      exact h.inactive hmem
  | handleRead hidle hexpired htimers hactive hnodup => exact h.inactive ((hactive id).mp hmem).1
  | @restart now it rest t hphase ht hrepeats hkept =>
      rcases OrderedSet.mem_insert.mp hmem with rfl | hmem
      · rw [ident_restart ht now] at h
        exact hkept (h.held it (by rw [hphase]; exact List.mem_cons_self) rfl)
      · exact h.inactive hmem
  | @rearm _ now hphase =>
      rw [(Untouched.wake s.queue now).activeTimers] at hmem
      exact h.inactive hmem
  | _ => exact h.inactive hmem

theorem Barred.step {l : Label} {s' : State} (h : Barred s id) (hinv : Inv s place)
    (he : Effect s l s') : Barred s' id := by
  by_cases hread : ∃ now, l = .handleRead now
  · obtain ⟨now, rfl⟩ := hread
    cases he with
    | handleRead hidle hexpired htimers hactive hnodup => exact h.handleRead hinv hexpired hactive
  · have hother : ∀ now, l ≠ .handleRead now := fun now heq => hread ⟨now, heq⟩
    obtain ⟨hcreated, hqueued⟩ := hinv.not_queued he h.created h.queued
    refine ⟨hcreated, h.inactive_step he, hqueued, fun e hdue => ?_, fun e hmem heq => ?_⟩
    · have hbefore := he.due_subset hother hdue
      rw [hinv.ident_due he hbefore]
      exact h.due e hbefore
    · obtain ⟨hbefore, hheap⟩ := hinv.heap_held he hother hmem
      rw [ident_congr hheap] at heq
      exact he.canceling hother (h.held e hbefore heq)

/-- A timely cancellation bars its timer. -/
theorem Inv.bars {s' : State} (h : Inv s place) (he : Effect s (.cancelInLoop id) s')
    (ht : timely s (.cancelInLoop id) = true) : Barred s' id := by
  simp only [timely, List.mem_map, not_exists, not_and, decide_eq_true_eq] at ht
  obtain ⟨hqueued, hdue⟩ := ht
  cases he with
  | cancelActive hid =>
      obtain ⟨hw, hident⟩ := (h.rep.active id).mp hid
      obtain ⟨t, ht⟩ := Option.ne_none_iff_exists'.mp (h.rep.live _ hw)
      refine ⟨?_, ?_, ?_, ?_, ?_⟩
      · rw [← hident, ident_eq ht]
        exact h.created _ t ht
      · intro hmem
        exact (OrderedSet.mem_erase.mp hmem).2 hident.symm
      · intro a ha
        rw [State.emit_queue, State.setQueue_queue, h.ident_drop hid (.inl ha)]
        exact hqueued a ha
      · intro e he
        rw [State.emit_queue, State.setQueue_queue,
          h.ident_drop hid (.inr (List.mem_map_of_mem (h.due he)))]
        exact hdue e he
      · intro e he heq
        rw [State.emit_queue, State.setQueue_queue,
          h.ident_drop hid (.inr (List.mem_map_of_mem he))] at heq
        have hplace := h.place_of_held he
        rw [show e.timer = id.timer from congrArg ActiveTimer.timer heq,
          show place id.timer = .waiting from hw] at hplace
        cases hplace
  | cancelOther hid huser hcreated =>
      have hbar := Untouched.bar s.queue id
      have hident : ∀ a, (s.queue.bar id).ident a = s.queue.ident a := fun a =>
        ident_congr (congrFun hbar.heap a)
      refine ⟨hcreated, ?_, ?_, ?_, ?_⟩
      · rw [State.emit_queue, State.setQueue_queue, hbar.activeTimers]
        exact hid
      · intro a ha
        rw [State.emit_queue, State.setQueue_queue, hident a]
        exact hqueued a ha
      · intro e he
        rw [State.emit_queue, State.setQueue_queue, hident _]
        exact hdue e he
      · intro e he _
        -- code of the user that runs while there is a batch is a callback
        have hcalling : s.queue.callingExpiredTimers = true := by
          rw [h.calling]
          cases hphase : s.phase with
          | idle =>
              rw [show ((s.setQueue (s.queue.bar id)).emit (.cancelled id)).phase = s.phase
                from rfl, hphase] at he
              exact absurd he List.not_mem_nil
          | calling _ _ _ => rfl
          | resetting _ _ => simp [State.inUser, hphase] at huser
        simp only [State.emit_queue, State.setQueue_queue, bar, if_pos hcalling]
        exact OrderedSet.mem_insert.mpr (.inl rfl)

end Step

/-- A step adds one event to the trace or none. Only a cancellation is recorded as one,
and only a timer whose turn it is has its callback started. -/
theorem Effect.trace {s s' : State} {l : Label} (he : Effect s l s') :
    s'.trace = s.trace ∨ ∃ e, s'.trace = s.trace ++ [e] ∧
      (∀ id, e = .cancelled id → l = .cancelInLoop id) ∧
      (∀ id, e = .started id → ∃ it ∈ s.phase.due, s.queue.ident it.timer = id) := by
  cases he with
  | add => exact .inr ⟨_, rfl, by simp, by simp⟩
  | cancelActive => exact .inr ⟨_, rfl, by simp, by simp⟩
  | cancelOther => exact .inr ⟨_, rfl, by simp, by simp⟩
  | callNext hphase =>
      refine .inr ⟨_, rfl, by simp, fun id hid => ⟨_, ?_, Event.started.inj hid⟩⟩
      rw [hphase]
      exact List.mem_cons_self
  | _ => exact .inl rfl

/-- Every cancelled timer is barred, and none of them has been started since. -/
structure Cancels (s : State) : Prop where
  barred : ∀ id, .cancelled id ∈ s.trace → Barred s id
  effective : Effective s.trace

theorem Cancels.step {s s' : State} {place : ℕ → Place} {l : Label} (h : Cancels s)
    (hinv : Inv s place) (he : Effect s l s') (ht : timely s l = true) : Cancels s' := by
  rcases he.trace with htrace | ⟨e, htrace, hcancelled, hstarted⟩
  · refine ⟨fun id hid => ?_, htrace ▸ h.effective⟩
    rw [htrace] at hid
    exact (h.barred id hid).step hinv he
  · refine ⟨fun id hid => ?_, ?_⟩
    · rw [htrace, List.mem_append, List.mem_singleton] at hid
      rcases hid with hid | hid
      · exact (h.barred id hid).step hinv he
      · obtain rfl := hcancelled id hid.symm
        exact hinv.bars he ht
    · rw [htrace, Effective, List.pairwise_append]
      refine ⟨h.effective, List.pairwise_singleton _ _, ?_⟩
      intro x hx y hy
      rw [List.mem_singleton.mp hy]
      -- a callback that is started is due, so its timer is not barred
      by_contra hstarts
      cases x with
      | cancelled id =>
          cases e with
          | started id' =>
              obtain rfl : id = id' := by simpa [Event.startsCancelled] using hstarts
              obtain ⟨it, hit, hident⟩ := hstarted id rfl
              exact (h.barred id hx).due it hit hident
          | added id' => simp [Event.startsCancelled] at hstarts
          | cancelled id' => simp [Event.startsCancelled] at hstarts
      | added id => simp [Event.startsCancelled] at hstarts
      | started id => simp [Event.startsCancelled] at hstarts

theorem exec_cancels (s : State) (l : Label) (h : (∃ place, Inv s place) ∧ Cancels s)
    (hl : enabled s l = true ∧ timely s l = true) :
    ∃ s', exec s l = .ok s' ∧ (∃ place, Inv s' place) ∧ Cancels s' := by
  obtain ⟨⟨place, hinv⟩, hcancels⟩ := h
  obtain ⟨s', hexec, heffect⟩ := hinv.effect hl.1
  exact ⟨s', hexec, hinv.step heffect, hcancels.step hinv heffect hl.2⟩

/-- In a run whose cancellations are timely no callback is started after its timer has
been cancelled, neither in the same batch nor later. -/
theorem cancellation_effective (ls : List Label)
    (hl : LegalRun exec (fun s l => enabled s l = true ∧ timely s l = true) start ls) :
    ∃ s, run exec start ls = .ok s ∧ Effective s.trace := by
  have hstart : Cancels start := ⟨by simp [start], .nil⟩
  obtain ⟨s, hrun, -, hcancels⟩ := run_invariant exec_cancels ⟨⟨_, start_inv⟩, hstart⟩ hl
  exact ⟨s, hrun, hcancels.effective⟩

/-- A repeating timer cancels itself and, in the same callback, one that still waits. -/
def cancelledInTime : List Label :=
  [.new 16 5 threeMicroSeconds, .addTimerInLoop 16 1, .new 32 50 threeMicroSeconds,
    .addTimerInLoop 32 1, .handleRead 9, .callNext, .cancelInLoop ⟨16, 1⟩, .cancelInLoop ⟨32, 2⟩,
    .endCalls, .resetNext, .rearm 10, .handleRead 90, .endCalls, .rearm 91]

theorem cancellation_effective_in_time :
    LegalRun exec (fun s l => enabled s l = true ∧ timely s l = true) start cancelledInTime ∧
      ∃ s, run exec start cancelledInTime = .ok s ∧ Effective s.trace :=
  have hlegal : LegalRun exec (fun s l => enabled s l = true ∧ timely s l = true) start
      cancelledInTime := by
    decide +kernel
  ⟨hlegal, cancellation_effective cancelledInTime hlegal⟩

/-- Two timers expire together and the first cancels the second, whose callback is
started nevertheless. -/
theorem cancelled_in_batch_started :
    let ls : List Label := [.new 16 5 once, .addTimerInLoop 16 1,
      .new 32 6 once, .addTimerInLoop 32 1, .expire, .handleRead 9, .callNext,
      .cancelInLoop ⟨32, 2⟩, .callNext]
    LegalRun exec (fun s l => enabled s l = true) start ls ∧
      ∃ s, run exec start ls = .ok s ∧
        s.trace.drop 3 = [.cancelled ⟨32, 2⟩, .started ⟨32, 2⟩] ∧ ¬ Effective s.trace := by
  decide +kernel

end Muduo.System.Timers
