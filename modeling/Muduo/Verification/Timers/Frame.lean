import Muduo.Verification.Timers.Consistency

/-! What a step of a timer queue leaves alone. -/

namespace Muduo.System.Timers

open Library Net TimerQueue

variable {s s' : State} {place : ℕ → Place} {l : Label} {id : ActiveTimer} {a : ℕ}

theorem Inv.effect_of_ok (h : Inv s place) (hl : enabled s l = true) (hexec : exec s l = .ok s') :
    Effect s l s' := by
  obtain ⟨t, ht, heffect⟩ := h.effect hl
  obtain rfl : t = s' := Except.ok.inj (ht.symm.trans hexec)
  exact heffect

/-! ### The timers -/

/-- A timer stays as it is, unless it waits and is cancelled or `reset` has come to it. -/
theorem Inv.heap_eq (h : Inv s place) (he : Effect s l s') (ha : place a ≠ .free)
    (hcancel : place a = .waiting → l ≠ .cancelInLoop (s.queue.ident a))
    (hreset : ∀ now it rest, s.phase = .resetting now (it :: rest) → l = .resetNext →
      a ≠ it.timer) :
    s'.queue.heap a = s.queue.heap a := by
  cases he with
  | new hfree haddress =>
      refine put_other ?_
      rintro rfl
      exact ha ((h.free _).mp hfree)
  | @add _ _ _ changed ht hqueued hchanged => cases changed <;> rfl
  | cancelActive hid =>
      refine Function.update_of_ne ?_ _ _
      rintro rfl
      obtain ⟨hw, hident⟩ := (h.rep.active _).mp hid
      exact hcancel hw (by rw [hident])
  | cancelOther hid huser hcreated => exact congrFun (Untouched.bar s.queue _).heap a
  | restart hphase ht hrepeats hkept => exact put_other (hreset _ _ _ hphase rfl)
  | delete hphase => exact Function.update_of_ne (hreset _ _ _ hphase rfl) _ _
  | @rearm _ now hphase => exact congrFun (Untouched.wake s.queue now).heap a
  | _ => rfl

/-- A timer that waits goes on waiting, unless it is cancelled or has expired. -/
theorem Inv.waits (h : Inv s place) (he : Effect s l s') {e : Entry} (hmem : e ∈ s.queue.timers)
    (hcancel : l ≠ .cancelInLoop (s.queue.ident e.timer))
    (hearly : ∀ now, l = .handleRead now → now < e.when) :
    e ∈ s'.queue.timers ∧ s'.queue.heap e.timer = s.queue.heap e.timer := by
  obtain ⟨hw, hentry⟩ := (h.rep.timers e).mp hmem
  have hplace : place e.timer = .waiting := hw
  refine ⟨?_, h.heap_eq he (by simp [hplace]) (fun _ => hcancel) ?_⟩
  · cases he with
    | @add _ _ _ changed ht hqueued hchanged =>
        cases changed <;> exact OrderedSet.mem_insert.mpr (.inr hmem)
    | cancelActive hid =>
        obtain ⟨-, hident⟩ := (h.rep.active _).mp hid
        refine OrderedSet.mem_erase.mpr ⟨hmem, fun heq => hcancel ?_⟩
        rw [heq]
        exact congrArg _ hident.symm
    | cancelOther hid huser hcreated =>
        rw [State.emit_queue, State.setQueue_queue, (Untouched.bar s.queue _).timers]
        exact hmem
    | handleRead hidle hexpired htimers hactive hnodup =>
        exact (htimers e).mpr ⟨hmem, hearly _ rfl⟩
    | restart hphase ht hrepeats hkept => exact OrderedSet.mem_insert.mpr (.inr hmem)
    | @rearm _ now hphase =>
        rw [(Untouched.wake s.queue now).timers]
        exact hmem
    | _ => exact hmem
  · rintro now it rest hphase - heq
    rw [heq, h.held_head hphase] at hplace
    cases hplace

theorem Inv.ident_queued (h : Inv s place) (he : Effect s l s') (ha : a ∈ s.queued) :
    s'.queue.ident a = s.queue.ident a := by
  have hplace := h.place_of_queued ha
  refine ident_congr (h.heap_eq he (by simp [hplace]) (fun hw => ?_) ?_)
  · rw [hplace] at hw
    cases hw
  · rintro now it rest hphase - rfl
    rw [h.held_head hphase] at hplace
    cases hplace

/-- A timer that exists and is not on its way never is again. -/
theorem Inv.not_queued (h : Inv s place) (he : Effect s l s') (hid : id.sequence ≤ s.numCreated)
    (hqueued : ∀ a ∈ s.queued, s.queue.ident a ≠ id) :
    id.sequence ≤ s'.numCreated ∧ ∀ a ∈ s'.queued, s'.queue.ident a ≠ id := by
  have hkept : ∀ a ∈ s.queued, s'.queue.ident a ≠ id := fun a ha => by
    rw [h.ident_queued he ha]
    exact hqueued a ha
  cases he with
  | new hfree haddress =>
      refine ⟨Nat.le_succ_of_le hid, fun b hb heq => ?_⟩
      rcases List.mem_cons.mp hb with rfl | hb
      · rw [ident_eq (put_self _ _ _)] at heq
        have hseq : s.numCreated + 1 = id.sequence := congrArg ActiveTimer.sequence heq
        omega
      · exact hkept b hb heq
  | add => exact ⟨hid, fun b hb => hkept b (List.mem_of_mem_erase hb)⟩
  | _ => exact ⟨hid, hkept⟩

/-! ### The batch -/

theorem cancelingTimers_wake (q : TimerQueue) (now : Timestamp) :
    (q.wake now).cancelingTimers = q.cancelingTimers := by
  unfold wake
  split
  · split <;> rfl
  · rfl

/-- What a step other than the start of `handleRead` makes of the batch, if there is one:
it is left alone, or `reset` disposes of its first entry. -/
theorem Effect.held (he : Effect s l s') (hl : ∀ now, l ≠ .handleRead now)
    (hheld : s.phase.held ≠ []) :
    s'.phase.held = s.phase.held ∧ s'.phase.clock = s.phase.clock ∧ l ≠ .resetNext ∨
      ∃ now it rest, s.phase = .resetting now (it :: rest) ∧ l = .resetNext ∧
        s'.phase = .resetting now rest := by
  cases he with
  | handleRead => exact absurd rfl (hl _)
  | callNext hphase =>
      rw [hphase]
      exact .inl ⟨rfl, rfl, by simp⟩
  | endCalls hphase =>
      rw [hphase]
      exact .inl ⟨rfl, rfl, by simp⟩
  | restart hphase => exact .inr ⟨_, _, _, hphase, rfl, rfl⟩
  | delete hphase => exact .inr ⟨_, _, _, hphase, rfl, rfl⟩
  | rearm hphase =>
      rw [hphase] at hheld
      exact absurd rfl hheld
  | _ => exact .inl ⟨rfl, rfl, by simp⟩

/-- A timer of the batch stays in it as it is until `reset` comes to it. -/
theorem Inv.held_step (h : Inv s place) (he : Effect s l s') (hl : ∀ now, l ≠ .handleRead now)
    (ha : a ∈ s.phase.held.map Entry.timer) :
    (a ∈ s'.phase.held.map Entry.timer ∧ s'.queue.heap a = s.queue.heap a ∧
        s'.phase.clock = s.phase.clock) ∨
      ∃ now it rest, s.phase = .resetting now (it :: rest) ∧ l = .resetNext ∧ it.timer = a := by
  have hplace : place a = .held := (h.held a).mp ha
  have hheap := h.heap_eq he (a := a) (by simp [hplace]) (by simp [hplace])
  rcases he.held hl (fun hnil => by simp [hnil] at ha) with
    ⟨hheld, hclock, hreset⟩ | ⟨now, it, rest, hphase, hreset, hphase'⟩
  · refine .inl ⟨by rwa [hheld], ?_, hclock⟩
    exact hheap fun _ _ _ _ heq => absurd heq hreset
  · by_cases hit : it.timer = a
    · exact .inr ⟨now, it, rest, hphase, hreset, hit⟩
    · rw [hphase, Phase.held, List.map_cons, List.mem_cons] at ha
      rw [hphase', hphase]
      refine .inl ⟨ha.resolve_left (Ne.symm hit), hheap fun _ _ _ hsame _ heq => hit ?_, rfl⟩
      cases hphase.symm.trans hsame
      exact heq.symm

theorem Effect.held_suffix (he : Effect s l s') (hl : ∀ now, l ≠ .handleRead now) :
    s'.phase.held <:+ s.phase.held := by
  cases he with
  | handleRead => exact absurd rfl (hl _)
  | callNext hphase =>
      rw [hphase]
      exact List.suffix_rfl
  | endCalls hphase =>
      rw [hphase]
      exact List.suffix_rfl
  | restart hphase =>
      rw [hphase]
      exact List.suffix_cons _ _
  | delete hphase =>
      rw [hphase]
      exact List.suffix_cons _ _
  | rearm => exact List.nil_suffix
  | _ => exact List.suffix_rfl

/-- What is left of the batch was in it before, with the same timers. -/
theorem Inv.heap_held (h : Inv s place) (he : Effect s l s') (hl : ∀ now, l ≠ .handleRead now)
    {e : Entry} (hmem : e ∈ s'.phase.held) :
    e ∈ s.phase.held ∧ s'.queue.heap e.timer = s.queue.heap e.timer := by
  have hbefore : e ∈ s.phase.held := (he.held_suffix hl).subset hmem
  refine ⟨hbefore, ?_⟩
  rcases h.held_step he hl (List.mem_map_of_mem hbefore) with
    ⟨-, hheap, -⟩ | ⟨now, it, rest, hphase, hreset, hit⟩
  · exact hheap
  · -- the entry that `reset` has come to is not left
    have hnodup := h.held_nodup
    have hheld := he.held hl (by rw [hphase]; exact List.cons_ne_nil _ _)
    obtain ⟨now', it', rest', hphase', -, hrest⟩ := hheld.resolve_left fun hsame =>
      hsame.2.2 hreset
    cases hphase.symm.trans hphase'
    rw [hphase] at hnodup
    rw [hrest] at hmem
    refine absurd ?_ (List.nodup_cons.mp hnodup).1
    rw [hit]
    exact List.mem_map_of_mem hmem

theorem Inv.ident_due (h : Inv s place) (he : Effect s l s') {e : Entry}
    (hdue : e ∈ s.phase.due) : s'.queue.ident e.timer = s.queue.ident e.timer := by
  have hplace := h.place_of_held (h.due hdue)
  refine ident_congr (h.heap_eq he (by simp [hplace]) (fun hw => ?_) ?_)
  · rw [hplace] at hw
    cases hw
  · intro now it rest hphase
    rw [hphase] at hdue
    exact absurd hdue List.not_mem_nil

theorem Effect.due_subset (he : Effect s l s') (hl : ∀ now, l ≠ .handleRead now) :
    s'.phase.due ⊆ s.phase.due := by
  cases he with
  | handleRead => exact absurd rfl (hl _)
  | callNext hphase =>
      rw [hphase]
      exact List.subset_cons_self _ _
  | endCalls => exact List.nil_subset _
  | restart => exact List.nil_subset _
  | delete => exact List.nil_subset _
  | rearm => exact List.nil_subset _
  | _ => exact List.Subset.refl _

/-- Cancellations during the callbacks are kept to the end of `handleRead`. -/
theorem Effect.canceling (he : Effect s l s') (hl : ∀ now, l ≠ .handleRead now)
    (hid : id ∈ s.queue.cancelingTimers) : id ∈ s'.queue.cancelingTimers := by
  cases he with
  | handleRead => exact absurd rfl (hl _)
  | @add _ _ _ changed ht hqueued hchanged => cases changed <;> exact hid
  | cancelOther =>
      simp only [State.emit_queue, State.setQueue_queue, bar]
      split
      · exact OrderedSet.mem_insert.mpr (.inr hid)
      · exact hid
  | @rearm _ now hphase =>
      rw [cancelingTimers_wake]
      exact hid
  | _ => exact hid

theorem Effect.not_canceling (he : Effect s l s')
    (hcancel : l ≠ .cancelInLoop id) (hid : id ∉ s.queue.cancelingTimers) :
    id ∉ s'.queue.cancelingTimers := by
  cases he with
  | @add _ _ _ changed ht hqueued hchanged => cases changed <;> exact hid
  | @cancelOther id' hid' huser hcreated =>
      have hne : id ≠ id' := fun heq => hcancel (by rw [heq])
      simp only [State.emit_queue, State.setQueue_queue, bar]
      split
      · simp [hne, hid]
      · exact hid
  | handleRead => exact OrderedSet.not_mem_empty
  | @rearm _ now hphase =>
      rw [cancelingTimers_wake]
      exact hid
  | _ => exact hid

end Muduo.System.Timers
