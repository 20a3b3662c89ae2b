import Muduo.Verification.Timers.Frame

/-! Every timer is run when it is due. -/

namespace Muduo.System.Timers

open Library Net TimerQueue

/-- The timer whose callback an event starts. -/
def Event.startedTimer : Event → Option ActiveTimer
  | .started id => some id
  | _ => none

/-- The timers whose callbacks have been started, in this order. -/
def starts (trace : List Event) : List ActiveTimer := trace.filterMap Event.startedTimer

theorem starts_append (trace : List Event) (e : Event) :
    starts (trace ++ [e]) = starts trace ++ e.startedTimer.toList := by
  rw [starts, List.filterMap_append]
  cases e <;> rfl

theorem starts_append_other (trace : List Event) {e : Event} (h : e.startedTimer = none) :
    starts (trace ++ [e]) = starts trace := by
  rw [starts_append, h]
  exact List.append_nil _

namespace State

/-- The identities of the timers of some entries. -/
def idents (s : State) (es : List Entry) : List ActiveTimer :=
  es.map fun e => s.queue.ident e.timer

/-- The entries that a `handleRead` at `now` finds expired. -/
def batch (s : State) (now : Timestamp) : List Entry :=
  s.queue.timers.elems.filter fun e => e.when ≤ now

/-- The timers that the `handleRead` under way has still to run. -/
def dueTimers (s : State) : List ActiveTimer := s.idents s.phase.due

/-- The timers that have been run or are about to be. -/
def served (s : State) : List ActiveTimer := starts s.trace ++ s.dueTimers

end State

/-! ### What a step adds -/

section Step

variable {s s' : State} {place : ℕ → Place} {l : Label}

theorem served_congr (hstarts : starts s'.trace = starts s.trace)
    (hdue : s'.phase.due = s.phase.due)
    (hident : ∀ e ∈ s.phase.due, s'.queue.ident e.timer = s.queue.ident e.timer) :
    s'.served = s.served := by
  rw [State.served, State.dueTimers, State.idents, hstarts, hdue, List.map_congr_left hident]
  rfl

/-- Only the start of `handleRead` adds to what is run. -/
theorem Inv.served_eq (h : Inv s place) (he : Effect s l s') (hl : ∀ now, l ≠ .handleRead now) :
    s'.served = s.served := by
  have hident : ∀ e ∈ s.phase.due, s'.queue.ident e.timer = s.queue.ident e.timer :=
    fun e => h.ident_due he
  cases he with
  | handleRead => exact absurd rfl (hl _)
  | add => exact served_congr (starts_append_other _ rfl) rfl hident
  | cancelActive => exact served_congr (starts_append_other _ rfl) rfl hident
  | cancelOther => exact served_congr (starts_append_other _ rfl) rfl hident
  | @callNext now expired rest it hphase =>
      rw [State.served, State.served, State.emit_trace, starts_append, List.append_assoc,
        State.dueTimers, State.dueTimers, hphase]
      rfl
  | endCalls hphase => exact served_congr rfl (by rw [hphase]; rfl) hident
  | restart hphase => exact served_congr rfl (by rw [hphase]; rfl) hident
  | delete hphase => exact served_congr rfl (by rw [hphase]; rfl) hident
  | rearm hphase => exact served_congr rfl (by rw [hphase]; rfl) hident
  | _ => exact served_congr rfl rfl hident

end Step

/-! ### The batch -/

section Batch

variable {s s' : State} {place : ℕ → Place} {now : Timestamp}

theorem mem_batch {e : Entry} : e ∈ s.batch now ↔ e ∈ s.queue.timers ∧ e.when ≤ now := by
  rw [State.batch, List.mem_filter, decide_eq_true_eq]
  rfl

theorem batch_ordered (s : State) (now : Timestamp) :
    (s.batch now).Pairwise fun e f => e.when ≤ f.when :=
  (s.queue.timers.sorted.filter _).imp fun hlt => Entry.when_le hlt.le

theorem Inv.batch_nodup (h : Inv s place) (now : Timestamp) :
    ((s.batch now).map Entry.timer).Nodup := by
  refine ((OrderedSet.nodup _).filter _).map_on fun e he f hf heq => ?_
  have hentry : ∀ g ∈ s.batch now, s.queue.entry g.timer = g := fun g hg =>
    ((h.rep.timers g).mp (mem_batch.mp hg).1).2
  rw [← hentry e he, ← hentry f hf, heq]

theorem Inv.idents_batch_nodup (h : Inv s place) (now : Timestamp) :
    (s.idents (s.batch now)).Nodup := by
  have hnodup := h.batch_nodup now
  refine List.Nodup.of_map ActiveTimer.timer ?_
  rwa [State.idents, List.map_map]

/-- No timer has the address of the sentry, which the entries are compared with. -/
theorem Inv.below_sentry (h : Inv s place) (now : Timestamp) :
    (s.queue.timers.below ⟨now, uintptrMax⟩).elems = s.batch now := by
  refine List.filter_congr fun e he => ?_
  have hw : place e.timer = .waiting := ((h.rep.timers e).mp he).1
  exact decide_eq_decide.mpr (lt_sentry_iff (h.address _ (by simp [hw])))

theorem Inv.phase_handleRead (h : Inv s place) (hexec : exec s (.handleRead now) = .ok s') :
    s'.phase = .calling now (s.batch now) (s.batch now) := by
  obtain ⟨⟨expired, q⟩, hread, hs'⟩ := of_bind hexec
  obtain ⟨⟨expired', q'⟩, hget, hq⟩ := of_bind hread
  obtain ⟨-, hget⟩ := of_ensure_bind hget
  obtain ⟨-, hget⟩ := of_ensure_bind hget
  obtain ⟨q'', -, hget⟩ := of_bind hget
  obtain ⟨-, hget⟩ := of_ensure_bind hget
  cases hs'
  cases hq
  cases hget
  rw [← h.below_sentry now]
  rfl

theorem idle_of_handleRead (hl : enabled s (.handleRead now) = true) : s.phase = .idle := by
  cases hphase : s.phase with
  | idle => rfl
  | calling _ _ _ => simp [enabled, hphase] at hl
  | resetting _ _ => simp [enabled, hphase] at hl

theorem served_of_idle (hidle : s.phase = .idle) : s.served = starts s.trace := by
  rw [State.served, State.dueTimers, hidle]
  exact List.append_nil _

/-- `handleRead` is about to run what has expired. -/
theorem Inv.served_handleRead (h : Inv s place) (hl : enabled s (.handleRead now) = true)
    (hexec : exec s (.handleRead now) = .ok s') :
    s'.served = s.served ++ s.idents (s.batch now) := by
  have hphase := h.phase_handleRead hexec
  have heffect := h.effect_of_ok hl hexec
  rw [served_of_idle (idle_of_handleRead hl), State.served, State.dueTimers, hphase]
  cases heffect
  rfl

end Batch

/-! ### Timers that run once -/

section Once

variable {s s' : State} {place : ℕ → Place} {l : Label} {id : ActiveTimer} {a : ℕ} {t : Timer}
  {now : Timestamp}

/-- What has been run, or is about to be, is not on its way to the loop. -/
def Launched (s : State) : Prop :=
  ∀ id ∈ s.served, id.sequence ≤ s.numCreated ∧ ∀ a ∈ s.queued, s.queue.ident a ≠ id

/-- The timers of the batch waited. -/
theorem Inv.mem_idents_batch (h : Inv s place) (hid : id ∈ s.idents (s.batch now)) :
    place id.timer = .waiting ∧ s.queue.ident id.timer = id ∧
      (s.queue.entry id.timer).when ≤ now := by
  obtain ⟨e, he, rfl⟩ := List.mem_map.mp hid
  obtain ⟨hmem, hle⟩ := mem_batch.mp he
  obtain ⟨hw, hentry⟩ := (h.rep.timers e).mp hmem
  exact ⟨hw, rfl, by rwa [← hentry] at hle⟩

theorem Inv.served_step (h : Inv s place) (hl : enabled s l = true) (hexec : exec s l = .ok s') :
    (∀ now, l ≠ .handleRead now) ∧ s'.served = s.served ∨
      ∃ now, l = .handleRead now ∧ s'.served = s.served ++ s.idents (s.batch now) := by
  by_cases hread : ∃ now, l = .handleRead now
  · obtain ⟨now, rfl⟩ := hread
    exact .inr ⟨now, rfl, h.served_handleRead hl hexec⟩
  · have hother : ∀ now, l ≠ .handleRead now := fun now heq => hread ⟨now, heq⟩
    exact .inl ⟨hother, h.served_eq (h.effect_of_ok hl hexec) hother⟩

theorem Launched.step (h : Launched s) (hinv : Inv s place) (hl : enabled s l = true)
    (hexec : exec s l = .ok s') : Launched s' := by
  intro id hid
  have hlaunched : id.sequence ≤ s.numCreated ∧ ∀ a ∈ s.queued, s.queue.ident a ≠ id := by
    rcases hinv.served_step hl hexec with ⟨-, hserved⟩ | ⟨now, -, hserved⟩
    · rw [hserved] at hid
      exact h id hid
    · rw [hserved, List.mem_append] at hid
      rcases hid with hid | hid
      · exact h id hid
      · obtain ⟨hw, hident, -⟩ := hinv.mem_idents_batch hid
        obtain ⟨t, ht⟩ := hinv.live (a := id.timer) (by simp [hw])
        refine ⟨?_, fun a ha heq => ?_⟩
        · rw [← hident, ident_eq ht]
          exact hinv.created _ t ht
        · have hplace := hinv.place_of_queued ha
          rw [show a = id.timer from congrArg ActiveTimer.timer heq, hw] at hplace
          cases hplace
  exact hinv.not_queued (hinv.effect_of_ok hl hexec) hlaunched.1 hlaunched.2

/-- A timer that has been added and is not yet to be run. -/
structure Pending (s : State) (a : ℕ) (t : Timer) : Prop where
  waiting : ⟨t.expiration, a⟩ ∈ s.queue.timers
  heap : s.queue.heap a = some t
  unserved : ⟨a, t.sequence⟩ ∉ s.served

theorem Pending.step (h : Pending s a t) (hinv : Inv s place) (hl : enabled s l = true)
    (hexec : exec s l = .ok s') (hcancel : l ≠ .cancelInLoop ⟨a, t.sequence⟩)
    (hearly : ∀ now, l = .handleRead now → now < t.expiration) : Pending s' a t := by
  obtain ⟨hmem, hheap⟩ := hinv.waits (hinv.effect_of_ok hl hexec) h.waiting
    (by rwa [ident_eq h.heap]) hearly
  refine ⟨hmem, hheap.trans h.heap, fun hserved => ?_⟩
  rcases hinv.served_step hl hexec with ⟨-, heq⟩ | ⟨now, rfl, heq⟩
  · rw [heq] at hserved
    exact h.unserved hserved
  · rw [heq, List.mem_append] at hserved
    rcases hserved with hserved | hserved
    · exact h.unserved hserved
    · obtain ⟨-, -, hle⟩ := hinv.mem_idents_batch hserved
      rw [entry_eq h.heap] at hle
      exact absurd hle (not_le_of_gt (hearly now rfl))

/-- A timer that has been run once, or is about to be, and will not be run again: it is in
the batch, whose processing will delete it, or has been deleted. -/
structure Spent (s : State) (a : ℕ) (t : Timer) : Prop where
  once : s.served.count ⟨a, t.sequence⟩ = 1
  leaving : s.queue.heap a = some t ∧ a ∈ s.phase.held.map Entry.timer ∨
    ⟨a, t.sequence⟩ ∈ s.queue.deleted

theorem Pending.expires (h : Pending s a t) (hinv : Inv s place)
    (hl : enabled s (.handleRead now) = true) (hexec : exec s (.handleRead now) = .ok s')
    (hdue : t.expiration ≤ now) : Spent s' a t := by
  have hbatch : ⟨t.expiration, a⟩ ∈ s.batch now := mem_batch.mpr ⟨h.waiting, hdue⟩
  have hphase := hinv.phase_handleRead hexec
  have heffect := hinv.effect_of_ok hl hexec
  constructor
  · rw [hinv.served_handleRead hl hexec, List.count_append,
      List.count_eq_zero_of_not_mem h.unserved, Nat.zero_add]
    refine List.count_eq_one_of_mem (hinv.idents_batch_nodup now) ?_
    exact List.mem_map.mpr ⟨_, hbatch, ident_eq h.heap⟩
  · refine .inl ⟨?_, ?_⟩
    · rw [← h.heap]
      cases heffect
      rfl
    · rw [hphase]
      exact List.mem_map.mpr ⟨_, hbatch, rfl⟩

theorem Effect.deleted_subset (he : Effect s l s') : s.queue.deleted ⊆ s'.queue.deleted := by
  cases he with
  | @add _ _ _ changed ht hqueued hchanged => cases changed <;> exact List.Subset.refl _
  | cancelActive => exact List.subset_append_left _ _
  | cancelOther =>
      rw [State.emit_queue, State.setQueue_queue, (Untouched.bar s.queue _).deleted]
      exact List.Subset.refl _
  | delete => exact List.subset_append_left _ _
  | @rearm _ now hphase =>
      rw [(Untouched.wake s.queue now).deleted]
      exact List.Subset.refl _
  | _ => exact List.Subset.refl _

theorem Inv.not_mem_batch_of_deleted (h : Inv s place) (hid : id ∈ s.queue.deleted) :
    id ∉ s.idents (s.batch now) := by
  intro hmem
  obtain ⟨hw, hident, -⟩ := h.mem_idents_batch hmem
  exact h.gone id hid (by simp [hw]) hident

/-- `reset` deletes a timer of the batch that runs once. -/
theorem Inv.leaves (h : Inv s place) (he : Effect s l s') (hl : ∀ now, l ≠ .handleRead now)
    (honce : t.repeats = false) (ht : s.queue.heap a = some t)
    (ha : a ∈ s.phase.held.map Entry.timer) :
    s'.queue.heap a = some t ∧ a ∈ s'.phase.held.map Entry.timer ∨
      ⟨a, t.sequence⟩ ∈ s'.queue.deleted := by
  rcases h.held_step he hl ha with ⟨hheld, hheap, -⟩ | ⟨now, it, rest, hphase, rfl, rfl⟩
  · exact .inl ⟨hheap.trans ht, hheld⟩
  · cases he with
    | restart hsame ht' hrepeats hkept =>
        cases hphase.symm.trans hsame
        cases ht.symm.trans ht'
        rw [honce] at hrepeats
        cases hrepeats
    | delete hsame =>
        cases hphase.symm.trans hsame
        refine .inr (List.mem_append_right _ ?_)
        rw [ident_eq ht]
        exact List.mem_singleton_self _

theorem Spent.step (h : Spent s a t) (honce : t.repeats = false) (hinv : Inv s place)
    (hl : enabled s l = true) (hexec : exec s l = .ok s') : Spent s' a t := by
  have heffect := hinv.effect_of_ok hl hexec
  rcases hinv.served_step hl hexec with ⟨hother, heq⟩ | ⟨now, rfl, heq⟩
  · refine ⟨by rw [heq, h.once], ?_⟩
    rcases h.leaving with ⟨ht, hheld⟩ | hdeleted
    · exact hinv.leaves heffect hother honce ht hheld
    · exact .inr (heffect.deleted_subset hdeleted)
  · rcases h.leaving with ⟨-, hheld⟩ | hdeleted
    · rw [idle_of_handleRead hl] at hheld
      exact absurd hheld List.not_mem_nil
    · refine ⟨?_, .inr (heffect.deleted_subset hdeleted)⟩
      rw [heq, List.count_append, h.once,
        List.count_eq_zero_of_not_mem (hinv.not_mem_batch_of_deleted hdeleted)]

/-- It has been run, except when its turn in the batch has not yet come. -/
theorem Spent.count_starts (h : Spent s a t) :
    (⟨a, t.sequence⟩ ∈ s.dueTimers → (starts s.trace).count ⟨a, t.sequence⟩ = 0) ∧
      (⟨a, t.sequence⟩ ∉ s.dueTimers → (starts s.trace).count ⟨a, t.sequence⟩ = 1) := by
  have hsum := h.once
  rw [State.served, List.count_append] at hsum
  constructor
  · intro hmem
    have hpos := List.count_pos_iff.mpr hmem
    omega
  · intro hmem
    rw [List.count_eq_zero_of_not_mem hmem] at hsum
    exact hsum

theorem Inv.pending (h : Inv s place) (hlaunched : Launched s) (ht : s.queue.heap a = some t)
    (hl : enabled s (.addTimerInLoop a now) = true)
    (hexec : exec s (.addTimerInLoop a now) = .ok s') : Pending s' a t := by
  have heffect := h.effect_of_ok hl hexec
  have hserved := h.served_eq heffect (by simp)
  cases heffect with
  | @add _ _ t' changed ht' hqueued hchanged =>
      refine ⟨?_, ?_, fun hmem => ?_⟩
      · rw [← entry_eq ht]
        cases changed <;> exact OrderedSet.mem_insert.mpr (.inl rfl)
      · rw [← ht]
        cases changed <;> rfl
      · rw [hserved] at hmem
        exact (hlaunched _ hmem).2 a hqueued (ident_eq ht)

theorem exec_spent (honce : t.repeats = false) (s : State) (l : Label)
    (h : (∃ place, Inv s place) ∧ Spent s a t) (hl : enabled s l = true) :
    ∃ s', exec s l = .ok s' ∧ (∃ place, Inv s' place) ∧ Spent s' a t := by
  obtain ⟨⟨place, hinv⟩, hspent⟩ := h
  obtain ⟨s', hexec, hinv'⟩ := exec_inv s l ⟨place, hinv⟩ hl
  exact ⟨s', hexec, hinv', hspent.step honce hinv hl hexec⟩

/-- A timer that runs once, from the time it has been added. -/
theorem run_pending (honce : t.repeats = false) {ls : List Label} (hinv : ∃ place, Inv s place)
    (h : Pending s a t) (hl : LegalRun exec (fun s l => enabled s l = true) s ls)
    (hcancel : .cancelInLoop ⟨a, t.sequence⟩ ∉ ls) :
    ∃ s', run exec s ls = .ok s' ∧
      ((∀ now, .handleRead now ∈ ls → now < t.expiration) → Pending s' a t) ∧
      ((∃ now, .handleRead now ∈ ls ∧ t.expiration ≤ now) → Spent s' a t) := by
  induction ls generalizing s with
  | nil => exact ⟨s, rfl, fun _ => h, by simp⟩
  | cons l ls ih =>
      obtain ⟨place, hplaced⟩ := hinv
      obtain ⟨s₁, hexec, hinv₁⟩ := exec_inv s l ⟨place, hplaced⟩ hl.1
      have hlegal := hl.2 s₁ hexec
      obtain ⟨hne, hrest⟩ := List.ne_and_not_mem_of_not_mem_cons hcancel
      rw [run_cons_of_ok hexec]
      by_cases hdue : ∃ now, l = .handleRead now ∧ t.expiration ≤ now
      · obtain ⟨now, rfl, hle⟩ := hdue
        obtain ⟨s', hrun, -, hspent⟩ :=
          run_invariant (exec_spent honce) ⟨hinv₁, h.expires hplaced hl.1 hexec hle⟩ hlegal
        refine ⟨s', hrun, fun hearly => ?_, fun _ => hspent⟩
        exact absurd hle (not_le_of_gt (hearly now List.mem_cons_self))
      · have hearly : ∀ now, l = .handleRead now → now < t.expiration := fun now heq =>
          lt_of_not_ge fun hle => hdue ⟨now, heq, hle⟩
        obtain ⟨s', hrun, hpending, hspent⟩ :=
          ih hinv₁ (h.step hplaced hl.1 hexec hne.symm hearly) hlegal hrest
        refine ⟨s', hrun, fun hall => hpending fun now hnow => ?_, ?_⟩
        · exact hall now (List.mem_cons_of_mem _ hnow)
        · rintro ⟨now, hnow, hle⟩
          rcases List.mem_cons.mp hnow with heq | hnow
          · exact absurd ⟨now, heq.symm, hle⟩ hdue
          · exact hspent ⟨now, hnow, hle⟩

end Once

/-! ### Timers that repeat -/

section Again

variable {s s' : State} {place : ℕ → Place} {l : Label} {a : ℕ} {t : Timer} {now : Timestamp}

/-- A timer that the `handleRead` at `now` has taken out and will insert again, or has. -/
inductive Recurs (s : State) (a : ℕ) (t : Timer) (now : Timestamp) : Prop
  | held (hclock : s.phase.clock = some now) (hmem : a ∈ s.phase.held.map Entry.timer)
      (ht : s.queue.heap a = some t) (hkept : ⟨a, t.sequence⟩ ∉ s.queue.cancelingTimers)
  | back (hmem : ⟨(t.restart now).expiration, a⟩ ∈ s.queue.timers)
      (ht : s.queue.heap a = some (t.restart now))

theorem Recurs.step (h : Recurs s a t now) (hrepeats : t.repeats = true) (hinv : Inv s place)
    (hl : enabled s l = true) (hexec : exec s l = .ok s') (hread : ∀ now, l ≠ .handleRead now)
    (hcancel : l ≠ .cancelInLoop ⟨a, t.sequence⟩) : Recurs s' a t now := by
  have heffect := hinv.effect_of_ok hl hexec
  cases h with
  | back hmem ht =>
      have hident : l ≠ .cancelInLoop (s.queue.ident a) := by
        rw [ident_eq ht]
        exact hcancel
      obtain ⟨hmem', hheap⟩ := hinv.waits heffect hmem hident fun now heq => absurd heq (hread now)
      exact .back hmem' (hheap.trans ht)
  | held hclock hmem ht hkept =>
      rcases hinv.held_step heffect hread hmem with
        ⟨hheld, hheap, hclock'⟩ | ⟨now', it, rest, hphase, rfl, rfl⟩
      · exact .held (hclock'.trans hclock) hheld (hheap.trans ht)
          (heffect.not_canceling hcancel hkept)
      · obtain rfl : now' = now := by
          rw [hphase] at hclock
          exact Option.some.inj hclock
        rw [← ident_eq ht] at hkept
        have hback := hinv.resetNext_kept hphase ht hrepeats hkept
        obtain rfl := Except.ok.inj (hexec.symm.trans hback)
        have hself := put_self s.queue it.timer (t.restart now')
        refine .back (OrderedSet.mem_insert.mpr (.inl ?_)) hself
        exact (entry_eq hself).symm

theorem Inv.recurs (h : Inv s place) {e : Entry} (hl : enabled s (.handleRead now) = true)
    (hexec : exec s (.handleRead now) = .ok s') (he : e ∈ s.batch now)
    (ht : s.queue.heap e.timer = some t) : Recurs s' e.timer t now := by
  have hphase := h.phase_handleRead hexec
  have heffect := h.effect_of_ok hl hexec
  refine .held (by rw [hphase]; rfl) ?_ ?_ ?_
  · rw [hphase]
    exact List.mem_map_of_mem he
  · rw [← ht]
    cases heffect
    rfl
  · cases heffect
    exact OrderedSet.not_mem_empty

end Again

/-! ### The end of `handleRead` -/

section Return

variable {s : State} {l : Label} {ls : List Label} {now : Timestamp}

/-- What the loop thread has still to do in `handleRead`, if no callback does anything;
`now` is the clock at its last step. -/
def State.remaining (s : State) (now : Timestamp) : List Label :=
  match s.phase with
  | .idle => []
  | .calling _ expired rest =>
      List.replicate rest.length .callNext ++
        .endCalls :: (List.replicate expired.length .resetNext ++ [.rearm now])
  | .resetting _ rest => List.replicate rest.length .resetNext ++ [.rearm now]

/-- These steps can be taken, and lead out of `handleRead`. -/
def Completes (s : State) (ls : List Label) : Prop :=
  LegalRun exec (fun s l => enabled s l = true) s ls ∧
    ∃ s', run exec s ls = .ok s' ∧ s'.phase = .idle

theorem Completes.cons (h : ∃ place, Inv s place) (hl : enabled s l = true)
    (hnext : ∀ s', Effect s l s' → (∃ place, Inv s' place) → Completes s' ls) :
    Completes s (l :: ls) := by
  obtain ⟨place, hinv⟩ := h
  obtain ⟨s', hexec, heffect⟩ := hinv.effect hl
  obtain ⟨hlegal, hrun⟩ := hnext s' heffect (hinv.step heffect)
  refine ⟨⟨hl, fun t ht => ?_⟩, ?_⟩
  · obtain rfl : s' = t := Except.ok.inj (hexec.symm.trans ht)
    exact hlegal
  · rwa [run_cons_of_ok hexec]

theorem completes_resetting {reset : Timestamp} {rest : List Entry} (h : ∃ place, Inv s place)
    (hphase : s.phase = .resetting reset rest) (now : Timestamp) :
    Completes s (List.replicate rest.length .resetNext ++ [.rearm now]) := by
  induction rest generalizing s with
  | nil =>
      refine .cons h (by simp [enabled, hphase]) fun s' he _ => ⟨trivial, s', rfl, ?_⟩
      cases he
      rfl
  | cons it rest ih =>
      refine .cons h (by simp [enabled, hphase]) fun s' he h' => ih h' ?_
      cases he with
      | restart hsame =>
          cases hphase.symm.trans hsame
          rfl
      | delete hsame =>
          cases hphase.symm.trans hsame
          rfl

theorem completes_calling {read : Timestamp} {expired rest : List Entry}
    (h : ∃ place, Inv s place) (hphase : s.phase = .calling read expired rest) (now : Timestamp) :
    Completes s (List.replicate rest.length .callNext ++
      .endCalls :: (List.replicate expired.length .resetNext ++ [.rearm now])) := by
  induction rest generalizing s with
  | nil =>
      refine .cons h (by simp [enabled, hphase]) fun s' he h' => ?_
      have hphase' : s'.phase = .resetting read expired := by
        cases he with
        | endCalls hsame =>
            cases hphase.symm.trans hsame
            rfl
      exact completes_resetting h' hphase' now
  | cons it rest ih =>
      refine .cons h (by simp [enabled, hphase]) fun s' he h' => ih h' ?_
      cases he with
      | callNext hsame =>
          cases hphase.symm.trans hsame
          rfl

theorem completes_remaining (h : ∃ place, Inv s place) (now : Timestamp) :
    Completes s (s.remaining now) := by
  cases hphase : s.phase with
  | idle =>
      rw [State.remaining, hphase]
      exact ⟨trivial, s, rfl, hphase⟩
  | calling read expired rest =>
      rw [State.remaining, hphase]
      exact completes_calling h hphase now
  | resetting reset rest =>
      rw [State.remaining, hphase]
      exact completes_resetting h hphase now

end Return

/-! ### Firing -/

/-- A `handleRead` that begins here runs the callbacks of the timers that have expired
and no others, each once and in the order of their expirations. At any point of it, and
until the next one begins, those that have been run and those that are still to be run
make up the batch; and from any point of it there is a way to its end. -/
def RunsExpired (s : State) : Prop :=
  s.phase = .idle → ∀ now mid,
    LegalRun exec (fun s l => enabled s l = true) s (.handleRead now :: mid) →
    (∀ now', .handleRead now' ∉ mid) →
    (s.batch now).Pairwise (fun e f => e.when ≤ f.when) ∧ (s.idents (s.batch now)).Nodup ∧
      ∃ s', run exec s (.handleRead now :: mid) = .ok s' ∧
        starts s'.trace ++ s'.dueTimers = starts s.trace ++ s.idents (s.batch now) ∧
        (s'.phase = .idle → starts s'.trace = starts s.trace ++ s.idents (s.batch now)) ∧
        ∀ now', Completes s' (s'.remaining now')

/-- A timer that runs once, is added here and is not cancelled waits and is not run until
a `handleRead` finds it expired. From then on it has been run once, except that in this
`handleRead` its turn may still have to come. -/
def RunsOnce (s : State) : Prop :=
  ∀ a t added mid, s.queue.heap a = some t → t.repeats = false →
    LegalRun exec (fun s l => enabled s l = true) s (.addTimerInLoop a added :: mid) →
    .cancelInLoop ⟨a, t.sequence⟩ ∉ mid →
    ∃ s', run exec s (.addTimerInLoop a added :: mid) = .ok s' ∧
      ((∀ now, .handleRead now ∈ mid → now < t.expiration) →
        ⟨t.expiration, a⟩ ∈ s'.queue.timers ∧ (starts s'.trace).count ⟨a, t.sequence⟩ = 0) ∧
      ((∃ now, .handleRead now ∈ mid ∧ t.expiration ≤ now) →
        (⟨a, t.sequence⟩ ∈ s'.dueTimers → (starts s'.trace).count ⟨a, t.sequence⟩ = 0) ∧
          (⟨a, t.sequence⟩ ∉ s'.dueTimers → (starts s'.trace).count ⟨a, t.sequence⟩ = 1))

/-- A timer that repeats and is not cancelled is inserted again by the `handleRead` that
runs it, an interval later than the clock reading of that `handleRead`. -/
def RunsAgain (s : State) : Prop :=
  s.phase = .idle → ∀ now e t mid, e ∈ s.queue.timers → e.when ≤ now →
    s.queue.heap e.timer = some t → t.repeats = true →
    LegalRun exec (fun s l => enabled s l = true) s (.handleRead now :: mid) →
    (∀ now', .handleRead now' ∉ mid) → .cancelInLoop ⟨e.timer, t.sequence⟩ ∉ mid →
    ∃ s', run exec s (.handleRead now :: mid) = .ok s' ∧
      (s'.phase = .idle → s'.queue.heap e.timer = some (t.restart now) ∧
        ⟨now + t.interval.microSeconds, e.timer⟩ ∈ s'.queue.timers)

section Firing

variable {s : State}

theorem exec_served {served : List ActiveTimer} (s : State) (l : Label)
    (h : (∃ place, Inv s place) ∧ s.served = served)
    (hl : enabled s l = true ∧ ∀ now, l ≠ .handleRead now) :
    ∃ s', exec s l = .ok s' ∧ (∃ place, Inv s' place) ∧ s'.served = served := by
  obtain ⟨⟨place, hinv⟩, hserved⟩ := h
  obtain ⟨s', hexec, heffect⟩ := hinv.effect hl.1
  exact ⟨s', hexec, hinv.step heffect, (hinv.served_eq heffect hl.2).trans hserved⟩

theorem not_handleRead {mid : List Label} (h : ∀ now, .handleRead now ∉ mid) :
    ∀ l ∈ mid, ∀ now, l ≠ .handleRead now := by
  rintro l hl now rfl
  exact h now hl

theorem runsExpired (h : ∃ place, Inv s place) : RunsExpired s := by
  intro hidle now mid hl hmid
  obtain ⟨place, hinv⟩ := h
  obtain ⟨s₁, hexec, hinv₁⟩ := exec_inv s _ ⟨place, hinv⟩ hl.1
  have hserved := hinv.served_handleRead hl.1 hexec
  rw [served_of_idle hidle] at hserved
  obtain ⟨s', hrun, hinv', hsame⟩ := run_invariant exec_served ⟨hinv₁, hserved⟩
    ((hl.2 s₁ hexec).restrict (not_handleRead hmid))
  refine ⟨batch_ordered s now, hinv.idents_batch_nodup now, s', ?_, hsame, fun hidle' => ?_,
    completes_remaining hinv'⟩
  · rwa [run_cons_of_ok hexec]
  · rwa [served_of_idle hidle'] at hsame

theorem runsOnce (h : ∃ place, Inv s place) (hlaunched : Launched s) : RunsOnce s := by
  intro a t added mid ht honce hl hcancel
  obtain ⟨place, hinv⟩ := h
  obtain ⟨s₁, hexec, hinv₁⟩ := exec_inv s _ ⟨place, hinv⟩ hl.1
  obtain ⟨s', hrun, hpending, hspent⟩ :=
    run_pending honce hinv₁ (hinv.pending hlaunched ht hl.1 hexec) (hl.2 s₁ hexec) hcancel
  refine ⟨s', by rwa [run_cons_of_ok hexec], fun hearly => ?_, fun hdue => ?_⟩
  · have hwaits := hpending hearly
    refine ⟨hwaits.waiting, List.count_eq_zero_of_not_mem fun hmem => hwaits.unserved ?_⟩
    exact List.mem_append_left _ hmem
  · exact (hspent hdue).count_starts

theorem exec_recurs {a : ℕ} {t : Timer} {now : Timestamp} (hrepeats : t.repeats = true)
    (s : State) (l : Label) (h : (∃ place, Inv s place) ∧ Recurs s a t now)
    (hl : enabled s l = true ∧ (∀ now, l ≠ .handleRead now) ∧
      l ≠ .cancelInLoop ⟨a, t.sequence⟩) :
    ∃ s', exec s l = .ok s' ∧ (∃ place, Inv s' place) ∧ Recurs s' a t now := by
  obtain ⟨⟨place, hinv⟩, hrecurs⟩ := h
  obtain ⟨s', hexec, hinv'⟩ := exec_inv s l ⟨place, hinv⟩ hl.1
  exact ⟨s', hexec, hinv', hrecurs.step hrepeats hinv hl.1 hexec hl.2.1 hl.2.2⟩

theorem runsAgain (h : ∃ place, Inv s place) : RunsAgain s := by
  intro hidle now e t mid hmem hle ht hrepeats hl hmid hcancel
  obtain ⟨place, hinv⟩ := h
  obtain ⟨s₁, hexec, hinv₁⟩ := exec_inv s _ ⟨place, hinv⟩ hl.1
  have hrecurs := hinv.recurs hl.1 hexec (mem_batch.mpr ⟨hmem, hle⟩) ht
  have hlabels : ∀ l ∈ mid, (∀ now, l ≠ .handleRead now) ∧
      l ≠ .cancelInLoop ⟨e.timer, t.sequence⟩ := fun l hl =>
    ⟨not_handleRead hmid l hl, fun heq => hcancel (heq ▸ hl)⟩
  obtain ⟨s', hrun, -, hrecurs'⟩ := run_invariant (exec_recurs hrepeats) ⟨hinv₁, hrecurs⟩
    ((hl.2 s₁ hexec).restrict hlabels)
  refine ⟨s', by rwa [run_cons_of_ok hexec], fun hidle' => ?_⟩
  cases hrecurs' with
  | held hclock =>
      rw [hidle'] at hclock
      cases hclock
  | back hback ht' =>
      refine ⟨ht', ?_⟩
      rwa [Timer.restart, if_pos hrepeats] at hback

theorem exec_launched (s : State) (l : Label) (h : (∃ place, Inv s place) ∧ Launched s)
    (hl : enabled s l = true) :
    ∃ s', exec s l = .ok s' ∧ (∃ place, Inv s' place) ∧ Launched s' := by
  obtain ⟨⟨place, hinv⟩, hlaunched⟩ := h
  obtain ⟨s', hexec, hinv'⟩ := exec_inv s l ⟨place, hinv⟩ hl
  exact ⟨s', hexec, hinv', hlaunched.step hinv hl hexec⟩

end Firing

/-- Whatever is added and cancelled, and whenever, every `handleRead` runs the timers that
have expired; so a timer that runs once does so in the first `handleRead` that finds it
expired, and one that repeats waits again after each that has run it. -/
theorem timers_fire_when_due (ls : List Label)
    (hl : LegalRun exec (fun s l => enabled s l = true) start ls) :
    ∃ s, run exec start ls = .ok s ∧ RunsExpired s ∧ RunsOnce s ∧ RunsAgain s := by
  have hstart : Launched start := by simp [Launched, State.served, State.dueTimers, start, starts,
    State.idents, Phase.due]
  obtain ⟨s, hrun, hinv, hlaunched⟩ := run_invariant exec_launched ⟨⟨_, start_inv⟩, hstart⟩ hl
  exact ⟨s, hrun, runsExpired hinv, runsOnce hinv hlaunched, runsAgain hinv⟩

/-- Two timers wait, of which the second to be added repeats and is the first to expire. -/
def twoTimers : List Label :=
  [.new 16 5 once, .addTimerInLoop 16 1, .new 32 4 threeMicroSeconds, .addTimerInLoop 32 1]

theorem timers_fire_when_due_two :
    LegalRun exec (fun s l => enabled s l = true) start twoTimers ∧
      ∃ s, run exec start twoTimers = .ok s ∧ RunsExpired s ∧ RunsOnce s ∧ RunsAgain s :=
  have hlegal : LegalRun exec (fun s l => enabled s l = true) start twoTimers := by
    decide +kernel
  ⟨hlegal, timers_fire_when_due twoTimers hlegal⟩

/-- The callback of the first cancels the second, which is run nevertheless, and adds a
timer that has expired already, which is not. -/
example :
    let ls := twoTimers ++ [.handleRead 9, .callNext, .cancelInLoop ⟨16, 1⟩, .new 48 2 once,
      .addTimerInLoop 48 9, .callNext, .endCalls, .resetNext, .resetNext, .rearm 10]
    LegalRun exec (fun s l => enabled s l = true) start ls ∧
      ∃ s, run exec start ls = .ok s ∧ starts s.trace = [⟨32, 2⟩, ⟨16, 1⟩] ∧
        s.queue.timers.elems = [⟨2, 48⟩, ⟨12, 32⟩] := by
  decide +kernel

end Muduo.System.Timers
