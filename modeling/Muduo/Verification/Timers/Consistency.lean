import Muduo.Verification.Timers.Representation

/-! Every timer is at one place at a time, from its creation to its only deletion. -/

namespace Muduo.System.Timers

open Library Net TimerQueue

/-- What an address is in use for: nothing, a timer on its way to the loop, a timer in
the two sets, or a timer of the batch that `handleRead` works on. -/
inductive Place where
  | free
  | queued
  | waiting
  | held
  deriving DecidableEq

/-- The entries of the batch that `reset` has not yet disposed of. -/
def Phase.held : Phase → List Entry
  | .idle => []
  | .calling _ expired _ => expired
  | .resetting _ rest => rest

/-- The entries whose callbacks have not yet been started. -/
def Phase.due : Phase → List Entry
  | .calling _ _ rest => rest
  | _ => []

def Phase.isCalling : Phase → Bool
  | .calling _ _ _ => true
  | _ => false

/-- The clock reading that `handleRead` works with. -/
def Phase.clock : Phase → Option Timestamp
  | .idle => none
  | .calling now _ _ => some now
  | .resetting now _ => some now

section State

variable (s : State) (q : TimerQueue) (e : Event)

@[simp] theorem State.setQueue_queue : (s.setQueue q).queue = q := rfl

@[simp] theorem State.setQueue_trace : (s.setQueue q).trace = s.trace := rfl

@[simp] theorem State.emit_queue : (s.emit e).queue = s.queue := rfl

@[simp] theorem State.emit_trace : (s.emit e).trace = s.trace ++ [e] := rfl

end State

/-- Which timers are alive, and which have been deleted. -/
structure Ledger (s : State) (place : ℕ → Place) : Prop where
  free : ∀ a, s.queue.heap a = none ↔ place a = .free
  address : ∀ a, place a ≠ .free → a < uintptrMax
  created : ∀ a t, s.queue.heap a = some t → t.sequence ≤ s.numCreated
  deleted : ∀ id ∈ s.queue.deleted, id.sequence ≤ s.numCreated
  once : s.queue.deleted.Nodup
  gone : ∀ id ∈ s.queue.deleted, place id.timer ≠ .free → s.queue.ident id.timer ≠ id
  added : ∀ id, .added id ∈ s.trace → id ∈ s.queue.deleted ∨
    (place id.timer = .waiting ∨ place id.timer = .held) ∧ s.queue.ident id.timer = id

/-- The invariant: the sets, the batch and the functors under way hold the timers whose
places they are. -/
structure Inv (s : State) (place : ℕ → Place) : Prop extends Ledger s place where
  rep : s.queue.Represents {a | place a = .waiting}
  queued : ∀ a, a ∈ s.queued ↔ place a = .queued
  queued_nodup : s.queued.Nodup
  held : ∀ a, a ∈ s.phase.held.map Entry.timer ↔ place a = .held
  held_nodup : (s.phase.held.map Entry.timer).Nodup
  due : s.phase.due ⊆ s.phase.held
  calling : s.queue.callingExpiredTimers = s.phase.isCalling

section Ledger

variable {s s' : State} {place : ℕ → Place} {a : ℕ}

theorem Ledger.live (h : Ledger s place) (ha : place a ≠ .free) :
    ∃ t, s.queue.heap a = some t :=
  Option.ne_none_iff_exists'.mp fun hnone => ha ((h.free a).mp hnone)

/-- Timers move from place to place. -/
theorem Ledger.move {place' : ℕ → Place} (h : Ledger s place)
    (hfree : ∀ b, place' b = .free ↔ place b = .free)
    (hplaced : ∀ b, place b = .waiting ∨ place b = .held → place' b = .waiting ∨ place' b = .held)
    (hheap : ∀ b, (s'.queue.heap b).map Timer.sequence = (s.queue.heap b).map Timer.sequence)
    (hdeleted : s'.queue.deleted = s.queue.deleted) (hcreated : s'.numCreated = s.numCreated)
    (htrace : ∀ id, .added id ∈ s'.trace → .added id ∈ s.trace ∨
      (place' id.timer = .waiting ∨ place' id.timer = .held) ∧ s.queue.ident id.timer = id) :
    Ledger s' place' := by
  have hident : ∀ b, s'.queue.ident b = s.queue.ident b := fun b => by
    rw [ident, ident, hheap]
  refine ⟨?_, ?_, ?_, ?_, ?_, ?_, ?_⟩
  · intro b
    rw [hfree, ← h.free b, ← Option.map_eq_none_iff (f := Timer.sequence), hheap,
      Option.map_eq_none_iff]
  · intro b hb
    exact h.address b fun hf => hb ((hfree b).mpr hf)
  · intro b t ht
    have hseq := hheap b
    rw [ht, Option.map_some] at hseq
    obtain ⟨u, hu, hseq⟩ := Option.map_eq_some_iff.mp hseq.symm
    rw [hcreated, ← hseq]
    exact h.created b u hu
  · intro id hid
    rw [hdeleted] at hid
    rw [hcreated]
    exact h.deleted id hid
  · rw [hdeleted]
    exact h.once
  · intro id hid hplace
    rw [hdeleted] at hid
    rw [hident]
    exact h.gone id hid fun hf => hplace ((hfree _).mpr hf)
  · intro id hid
    rw [hdeleted, hident]
    rcases htrace id hid with hold | hnew
    · exact (h.added id hold).imp_right fun hadded => ⟨hplaced _ hadded.1, hadded.2⟩
    · exact .inr hnew

/-- A timer is deleted. -/
theorem Ledger.delete (h : Ledger s place) (ha : place a ≠ .free)
    (hheap : s'.queue.heap = Function.update s.queue.heap a none)
    (hdeleted : s'.queue.deleted = s.queue.deleted ++ [s.queue.ident a])
    (hcreated : s'.numCreated = s.numCreated)
    (htrace : ∀ id, .added id ∈ s'.trace → .added id ∈ s.trace) :
    Ledger s' (Function.update place a .free) := by
  have hident : ∀ b ≠ a, s'.queue.ident b = s.queue.ident b := fun b hb => by
    rw [ident, ident, hheap, Function.update_of_ne hb]
  obtain ⟨t, ht⟩ := h.live ha
  refine ⟨?_, ?_, ?_, ?_, ?_, ?_, ?_⟩
  · intro b
    rw [hheap]
    by_cases hb : b = a
    · simp [hb]
    · rw [Function.update_of_ne hb, Function.update_of_ne hb]
      exact h.free b
  · intro b hb
    by_cases hba : b = a
    · simp [hba] at hb
    · rw [Function.update_of_ne hba] at hb
      exact h.address b hb
  · intro b u hu
    rw [hheap] at hu
    rw [hcreated]
    by_cases hba : b = a
    · simp [hba] at hu
    · rw [Function.update_of_ne hba] at hu
      exact h.created b u hu
  · intro id hid
    rw [hdeleted, List.mem_append, List.mem_singleton] at hid
    rw [hcreated]
    rcases hid with hid | rfl
    · exact h.deleted id hid
    · rw [ident_eq ht]
      exact h.created a t ht
  · rw [hdeleted, List.nodup_append]
    refine ⟨h.once, List.nodup_singleton _, ?_⟩
    rintro id hid _ hmem rfl
    rw [List.mem_singleton] at hmem
    subst hmem
    exact h.gone _ hid ha rfl
  · intro id hid hplace
    have hb : id.timer ≠ a := fun heq => hplace (by rw [heq, Function.update_self])
    rw [Function.update_of_ne hb] at hplace
    rw [hident _ hb]
    rw [hdeleted, List.mem_append, List.mem_singleton] at hid
    rcases hid with hid | rfl
    · exact h.gone id hid hplace
    · exact absurd rfl hb
  · intro id hid
    rw [hdeleted, List.mem_append, List.mem_singleton]
    rcases h.added id (htrace id hid) with hdel | ⟨hplace, heq⟩
    · exact .inl (.inl hdel)
    · by_cases hb : id.timer = a
      · exact .inl (.inr (by rw [← heq, hb]))
      · rw [Function.update_of_ne hb, hident _ hb]
        exact .inr ⟨hplace, heq⟩

end Ledger

/-! ### What a step does -/

/-- The steps that the invariant allows, each with the state it leads to. -/
inductive Effect (s : State) : Label → State → Prop
  | new {a : ℕ} {when : Timestamp} {interval : Seconds} (hfree : s.queue.heap a = none)
      (haddress : a < uintptrMax) :
      Effect s (.new a when interval)
        { s with
          queue := s.queue.put a (.ctor when interval (s.numCreated + 1))
          numCreated := s.numCreated + 1
          queued := a :: s.queued }
  | add {a : ℕ} {now : Timestamp} {t : Timer} {changed : Bool} (ht : s.queue.heap a = some t)
      (hqueued : a ∈ s.queued)
      (hchanged : changed = true ↔ ∀ e ∈ s.queue.timers, t.expiration < e.when) :
      Effect s (.addTimerInLoop a now)
        ({ s with
          queue := if changed then (s.queue.enter a).resetTimerfd t.expiration now
            else s.queue.enter a
          queued := s.queued.erase a }.emit (.added (s.queue.ident a)))
  | cancelActive {id : ActiveTimer} (hid : id ∈ s.queue.activeTimers) :
      Effect s (.cancelInLoop id) ((s.setQueue (s.queue.drop id.timer)).emit (.cancelled id))
  | cancelOther {id : ActiveTimer} (hid : id ∉ s.queue.activeTimers)
      (huser : s.inUser = true) (hcreated : id.sequence ≤ s.numCreated) :
      Effect s (.cancelInLoop id)
        ((s.setQueue (s.queue.bar id)).emit (.cancelled id))
  | expire : Effect s .expire (s.setQueue { s.queue with timerfd := s.queue.timerfd.expire })
  | handleRead {now : Timestamp} {expired : List Entry} {timers : OrderedSet Entry}
      {active : OrderedSet ActiveTimer} (hidle : s.phase = .idle)
      (hexpired : ∀ e, e ∈ expired ↔ e ∈ s.queue.timers ∧ e.when ≤ now)
      (htimers : ∀ e, e ∈ timers ↔ e ∈ s.queue.timers ∧ now < e.when)
      (hactive : ∀ id, id ∈ active ↔
        id ∈ s.queue.activeTimers ∧ now < (s.queue.entry id.timer).when)
      (hnodup : (expired.map Entry.timer).Nodup) :
      Effect s (.handleRead now)
        { s with
          queue := { s.queue.readTimerfd with
            timers := timers
            activeTimers := active
            callingExpiredTimers := true
            cancelingTimers := .empty }
          phase := .calling now expired expired }
  | callNext {now : Timestamp} {expired rest : List Entry} {it : Entry}
      (hphase : s.phase = .calling now expired (it :: rest)) :
      Effect s .callNext
        ({ s with phase := .calling now expired rest }.emit (.started (s.queue.ident it.timer)))
  | endCalls {now : Timestamp} {expired : List Entry} (hphase : s.phase = .calling now expired []) :
      Effect s .endCalls
        { s with
          queue := { s.queue with callingExpiredTimers := false }
          phase := .resetting now expired }
  | restart {now : Timestamp} {it : Entry} {rest : List Entry} {t : Timer}
      (hphase : s.phase = .resetting now (it :: rest)) (ht : s.queue.heap it.timer = some t)
      (hrepeats : t.repeats = true) (hkept : s.queue.ident it.timer ∉ s.queue.cancelingTimers) :
      Effect s .resetNext
        { s with
          queue := (s.queue.put it.timer (t.restart now)).enter it.timer
          phase := .resetting now rest }
  | delete {now : Timestamp} {it : Entry} {rest : List Entry}
      (hphase : s.phase = .resetting now (it :: rest)) :
      Effect s .resetNext
        { s with
          queue := s.queue.discard it.timer
          phase := .resetting now rest }
  | rearm {reset now : Timestamp} (hphase : s.phase = .resetting reset []) :
      Effect s (.rearm now)
        { s with queue := s.queue.wake now, phase := .idle }

section Effect

variable {s : State} {place : ℕ → Place}

theorem Inv.place_of_queued (h : Inv s place) {a : ℕ} (ha : a ∈ s.queued) : place a = .queued :=
  (h.queued a).mp ha

theorem Inv.place_of_held (h : Inv s place) {e : Entry} (he : e ∈ s.phase.held) :
    place e.timer = .held := (h.held _).mp (List.mem_map_of_mem he)

theorem Inv.add_effect (h : Inv s place) {a : ℕ} (ha : a ∈ s.queued) (now : Timestamp) :
    ∃ s', exec s (.addTimerInLoop a now) = .ok s' ∧ Effect s (.addTimerInLoop a now) s' := by
  have hplace := h.place_of_queued ha
  obtain ⟨t, ht⟩ := h.live (a := a) (by simp [hplace])
  obtain ⟨changed, hinsert, hchanged⟩ := h.rep.insert ht (by simp [hplace])
  refine ⟨_, ?_, .add ht ha hchanged⟩
  have hentered : (s.queue.enter a).heap a = some t := ht
  simp only [exec, deref_eq ht, ok_bind, addTimerInLoop, hinsert, ident_eq ht]
  cases changed with
  | true => simp [deref_eq hentered, pure, Except.pure]
  | false => simp [pure, Except.pure]

theorem Inv.cancel_effect (h : Inv s place) {id : ActiveTimer} (huser : s.inUser = true)
    (hid : id.sequence ≤ s.numCreated) :
    ∃ s', exec s (.cancelInLoop id) = .ok s' ∧ Effect s (.cancelInLoop id) s' := by
  by_cases hmem : id ∈ s.queue.activeTimers
  · refine ⟨_, ?_, .cancelActive hmem⟩
    simp only [exec, h.rep.cancelInLoop_active hmem, ok_bind]
    rfl
  · refine ⟨_, ?_, .cancelOther hmem huser hid⟩
    simp only [exec, h.rep.cancelInLoop_other hmem, ok_bind]
    rfl

theorem Inv.handleRead_effect (h : Inv s place) (hidle : s.phase = .idle) (now : Timestamp) :
    ∃ s', exec s (.handleRead now) = .ok s' ∧ Effect s (.handleRead now) s' := by
  have hrep : s.queue.readTimerfd.Represents {a | place a = .waiting} :=
    h.rep.congr rfl rfl fun _ _ => rfl
  obtain ⟨expired, timers, active, hget, hrest, hnodup, hexpired⟩ := hrep.getExpired
    (fun a ha => h.address a (by simp [show place a = .waiting from ha])) now
  refine ⟨_, ?_, @Effect.handleRead s now expired timers active hidle ?_ ?_ ?_ hnodup⟩
  · simp only [exec, beginRead, hget, ok_bind]
    rfl
  · intro e
    rw [hexpired, h.rep.timers, and_assoc]
    rfl
  · intro e
    rw [hrest.timers, h.rep.timers]
    constructor
    · rintro ⟨⟨hw, hlt⟩, he⟩
      rw [show s.queue.readTimerfd.entry e.timer = e from he] at hlt
      exact ⟨⟨hw, he⟩, hlt⟩
    · rintro ⟨⟨hw, he⟩, hlt⟩
      refine ⟨⟨hw, ?_⟩, he⟩
      rwa [show s.queue.readTimerfd.entry e.timer = e from he]
  · intro id
    rw [hrest.active, h.rep.active]
    constructor
    · rintro ⟨⟨hw, hlt⟩, hid⟩
      exact ⟨⟨hw, hid⟩, hlt⟩
    · rintro ⟨⟨hw, hid⟩, hlt⟩
      exact ⟨⟨hw, hlt⟩, hid⟩

theorem Inv.callNext_effect (h : Inv s place) {now : Timestamp} {expired rest : List Entry}
    {it : Entry} (hphase : s.phase = .calling now expired (it :: rest)) :
    ∃ s', exec s .callNext = .ok s' ∧ Effect s .callNext s' := by
  have hheld : it ∈ s.phase.held := h.due (by rw [hphase]; exact List.mem_cons_self)
  obtain ⟨t, ht⟩ := h.live (a := it.timer) (by simp [h.place_of_held hheld])
  refine ⟨_, ?_, .callNext hphase⟩
  simp only [exec, hphase, deref_eq ht, ok_bind, ident_eq ht]
  rfl

/-- The timer of an entry that `reset` has come to. -/
theorem Inv.held_head (h : Inv s place) {now : Timestamp} {rest : List Entry} {it : Entry}
    (hphase : s.phase = .resetting now (it :: rest)) : place it.timer = .held :=
  h.place_of_held (by rw [hphase]; exact List.mem_cons_self)

theorem exec_resetNext {now : Timestamp} {rest : List Entry} {it : Entry} {q : TimerQueue}
    (hphase : s.phase = .resetting now (it :: rest)) (hq : s.queue.resetEntry now it = .ok q) :
    exec s .resetNext = .ok { s with queue := q, phase := .resetting now rest } := by
  simp only [exec, hphase, hq, ok_bind]
  rfl

/-- A timer that repeats and has not been cancelled is inserted again. -/
theorem Inv.resetNext_kept (h : Inv s place) {now : Timestamp} {rest : List Entry} {it : Entry}
    {t : Timer} (hphase : s.phase = .resetting now (it :: rest))
    (ht : s.queue.heap it.timer = some t) (hrepeats : t.repeats = true)
    (hkept : s.queue.ident it.timer ∉ s.queue.cancelingTimers) :
    exec s .resetNext = .ok
      { s with
        queue := (s.queue.put it.timer (t.restart now)).enter it.timer
        phase := .resetting now rest } := by
  have hplace := h.held_head hphase
  refine exec_resetNext hphase ?_
  have hrep : (s.queue.put it.timer (t.restart now)).Represents {a | place a = .waiting} := by
    refine h.rep.congr rfl rfl fun a ha => put_other ?_
    rintro rfl
    rw [show place it.timer = .waiting from ha] at hplace
    cases hplace
  obtain ⟨changed, hinsert, -⟩ := hrep.insert (put_self _ _ _) (by simp [hplace])
  rw [ident_eq ht] at hkept
  rw [put] at hinsert
  simp only [resetEntry, deref_eq ht, ok_bind, if_pos (And.intro hrepeats hkept), hinsert]
  rfl

theorem Inv.resetNext_effect (h : Inv s place) {now : Timestamp} {rest : List Entry} {it : Entry}
    (hphase : s.phase = .resetting now (it :: rest)) :
    ∃ s', exec s .resetNext = .ok s' ∧ Effect s .resetNext s' := by
  obtain ⟨t, ht⟩ := h.live (a := it.timer) (by simp [h.held_head hphase])
  by_cases hrepeats : t.repeats = true ∧ s.queue.ident it.timer ∉ s.queue.cancelingTimers
  · exact ⟨_, h.resetNext_kept hphase ht hrepeats.1 hrepeats.2,
      .restart hphase ht hrepeats.1 hrepeats.2⟩
  · refine ⟨_, exec_resetNext hphase ?_, .delete hphase⟩
    rw [ident_eq ht] at hrepeats
    simp only [resetEntry, deref_eq ht, ok_bind, if_neg hrepeats, delete_eq ht]

theorem Inv.rearm_effect (h : Inv s place) {reset : Timestamp}
    (hphase : s.phase = .resetting reset []) (now : Timestamp) :
    ∃ s', exec s (.rearm now) = .ok s' ∧ Effect s (.rearm now) s' := by
  refine ⟨_, ?_, .rearm hphase⟩
  simp only [exec, h.rep.rearm, ok_bind]
  rfl

/-- No step fails, and each does what is said above. -/
theorem Inv.effect (h : Inv s place) {l : Label} (hl : enabled s l = true) :
    ∃ s', exec s l = .ok s' ∧ Effect s l s' := by
  cases l with
  | new a when interval =>
      simp only [enabled, Bool.and_eq_true, Option.isNone_iff_eq_none, decide_eq_true_eq] at hl
      exact ⟨_, rfl, .new hl.1 hl.2⟩
  | addTimerInLoop a now =>
      simp only [enabled, Bool.and_eq_true, List.contains_iff_mem] at hl
      exact h.add_effect hl.2 now
  | cancelInLoop id =>
      simp only [enabled, Bool.and_eq_true, decide_eq_true_eq] at hl
      exact h.cancel_effect hl.1 hl.2
  | expire => exact ⟨_, rfl, .expire⟩
  | handleRead now =>
      cases hphase : s.phase with
      | idle => exact h.handleRead_effect hphase now
      | calling _ _ _ => simp [enabled, hphase] at hl
      | resetting _ _ => simp [enabled, hphase] at hl
  | callNext =>
      cases hphase : s.phase with
      | idle => simp [enabled, hphase] at hl
      | calling now expired rest =>
          cases rest with
          | nil => simp [enabled, hphase] at hl
          | cons it rest => exact h.callNext_effect hphase
      | resetting _ _ => simp [enabled, hphase] at hl
  | endCalls =>
      cases hphase : s.phase with
      | idle => simp [enabled, hphase] at hl
      | calling now expired rest =>
          cases rest with
          | nil => exact ⟨_, by simp only [exec, hphase], .endCalls hphase⟩
          | cons it rest => simp [enabled, hphase] at hl
      | resetting _ _ => simp [enabled, hphase] at hl
  | resetNext =>
      cases hphase : s.phase with
      | idle => simp [enabled, hphase] at hl
      | calling _ _ _ => simp [enabled, hphase] at hl
      | resetting now rest =>
          cases rest with
          | nil => simp [enabled, hphase] at hl
          | cons it rest => exact h.resetNext_effect hphase
  | rearm now =>
      cases hphase : s.phase with
      | idle => simp [enabled, hphase] at hl
      | calling _ _ _ => simp [enabled, hphase] at hl
      | resetting reset rest =>
          cases rest with
          | nil => exact h.rearm_effect hphase now
          | cons it rest => simp [enabled, hphase] at hl

end Effect

/-! ### Every step keeps the invariant -/

section Places

variable {place : ℕ → Place} {a : ℕ}

theorem waiting_enter (place : ℕ → Place) (a : ℕ) :
    {b | Function.update place a .waiting b = .waiting} = {a} ∪ {b | place b = .waiting} := by
  ext b
  by_cases hb : b = a <;> simp [hb]

theorem waiting_leave {p : Place} (hp : p ≠ .waiting) :
    {b | Function.update place a p b = .waiting} = {b | place b = .waiting} \ {a} := by
  ext b
  by_cases hb : b = a <;> simp [hb, hp]

theorem waiting_other {p : Place} (ha : place a ≠ .waiting) (hp : p ≠ .waiting) :
    {b | Function.update place a p b = .waiting} = {b | place b = .waiting} := by
  rw [waiting_leave hp]
  exact Set.sdiff_singleton_eq_self ha

/-- A list that names the addresses at one place, when an address comes to that place. -/
theorem mem_cons_iff_update {xs : List ℕ} {p : Place} (h : ∀ b, b ∈ xs ↔ place b = p) (b : ℕ) :
    b ∈ a :: xs ↔ Function.update place a p b = p := by
  by_cases hb : b = a <;> simp [hb, h]

/-- The same when nothing comes to it or goes from it. -/
theorem mem_iff_update {xs : List ℕ} {p p' : Place} (h : ∀ b, b ∈ xs ↔ place b = p)
    (ha : place a ≠ p) (hp : p' ≠ p) (b : ℕ) : b ∈ xs ↔ Function.update place a p' b = p := by
  by_cases hb : b = a
  · subst hb
    simp [h, ha, hp]
  · rw [h, Function.update_of_ne hb]

/-- The same when the address leaves it. -/
theorem mem_erase_iff_update {xs : List ℕ} {p p' : Place} (h : ∀ b, b ∈ xs ↔ place b = p)
    (hnodup : xs.Nodup) (hp : p' ≠ p) (b : ℕ) :
    b ∈ xs.erase a ↔ Function.update place a p' b = p := by
  rw [hnodup.mem_erase_iff, h]
  by_cases hb : b = a <;> simp [hb, hp]

end Places

section Step

variable {s : State} {place : ℕ → Place}

theorem Inv.new (h : Inv s place) {a : ℕ} (hfree : s.queue.heap a = none)
    (haddress : a < uintptrMax) (when : Timestamp) (interval : Seconds) :
    Inv { s with
      queue := s.queue.put a (.ctor when interval (s.numCreated + 1))
      numCreated := s.numCreated + 1
      queued := a :: s.queued } (Function.update place a .queued) := by
  have hplace : place a = .free := (h.free a).mp hfree
  have hother : ∀ b ≠ a,
      (s.queue.put a (.ctor when interval (s.numCreated + 1))).heap b = s.queue.heap b :=
    fun b hb => put_other hb
  have hself := put_self s.queue a (.ctor when interval (s.numCreated + 1))
  refine ⟨⟨?_, ?_, ?_, ?_, h.once, ?_, ?_⟩, ?_, ?_, ?_, ?_, h.held_nodup, h.due, h.calling⟩
  · intro b
    by_cases hb : b = a
    · subst hb
      rw [hself, Function.update_self]
      simp
    · rw [hother b hb, Function.update_of_ne hb]
      exact h.free b
  · intro b hb
    by_cases hba : b = a
    · rwa [hba]
    · rw [Function.update_of_ne hba] at hb
      exact h.address b hb
  · intro b t ht
    by_cases hb : b = a
    · subst hb
      rw [hself, Option.some.injEq] at ht
      rw [← ht]
      exact Nat.le_refl _
    · rw [hother b hb] at ht
      exact Nat.le_succ_of_le (h.created b t ht)
  · intro id hid
    exact Nat.le_succ_of_le (h.deleted id hid)
  · intro id hid hfree'
    by_cases hb : id.timer = a
    · intro heq
      have hseq : s.numCreated + 1 = id.sequence := by
        rw [← heq, hb, ident_eq hself]
        rfl
      exact absurd (h.deleted id hid) (by omega)
    · rw [Function.update_of_ne hb] at hfree'
      rw [ident_congr (hother _ hb)]
      exact h.gone id hid hfree'
  · intro id hid
    refine (h.added id hid).imp_right fun ⟨hp, heq⟩ => ?_
    have hb : id.timer ≠ a := by
      rintro hb
      rw [hb, hplace] at hp
      rcases hp with hp | hp <;> cases hp
    rw [Function.update_of_ne hb, ident_congr (hother _ hb)]
    exact ⟨hp, heq⟩
  · rw [waiting_other (by simp [hplace]) (by simp)]
    refine h.rep.congr rfl rfl fun b hb => hother b ?_
    rintro rfl
    rw [show place b = .waiting from hb] at hplace
    cases hplace
  · exact mem_cons_iff_update h.queued
  · refine List.nodup_cons.mpr ⟨fun hmem => ?_, h.queued_nodup⟩
    rw [h.queued, hplace] at hmem
    cases hmem
  · exact mem_iff_update h.held (by simp [hplace]) (by simp)

/-- A timer that has arrived joins the sets. -/
theorem Inv.add (h : Inv s place) {a : ℕ} (ha : a ∈ s.queued) {q : TimerQueue}
    (hq : Untouched (s.queue.enter a) q) :
    Inv ({ s with queue := q, queued := s.queued.erase a }.emit (.added (s.queue.ident a)))
      (Function.update place a .waiting) := by
  have hplace := h.place_of_queued ha
  obtain ⟨t, ht⟩ := h.live (a := a) (by simp [hplace])
  refine ⟨h.toLedger.move ?_ ?_ ?_ hq.deleted rfl ?_, ?_, ?_, h.queued_nodup.erase a, ?_,
    h.held_nodup, h.due, hq.callingExpiredTimers.trans h.calling⟩
  · intro b
    by_cases hb : b = a <;> simp [hb, hplace]
  · intro b hb
    by_cases hba : b = a
    · simp [hba]
    · rwa [Function.update_of_ne hba]
  · intro b
    exact congrArg _ (congrFun hq.heap b)
  · intro id hid
    simp only [State.emit_trace, List.mem_append, List.mem_singleton, Event.added.injEq] at hid
    refine hid.imp_right fun hid => ?_
    rw [hid]
    exact ⟨.inl (Function.update_self _ _ _), rfl⟩
  · rw [waiting_enter]
    exact (h.rep.enter ht).congr hq.timers hq.activeTimers fun b _ => congrFun hq.heap b
  · exact mem_erase_iff_update h.queued h.queued_nodup (by simp)
  · exact mem_iff_update h.held (by simp [hplace]) (by simp)

theorem Inv.cancelActive (h : Inv s place) {id : ActiveTimer} (hid : id ∈ s.queue.activeTimers) :
    Inv ((s.setQueue (s.queue.drop id.timer)).emit (.cancelled id))
      (Function.update place id.timer .free) := by
  have hplace : place id.timer = .waiting := ((h.rep.active id).mp hid).1
  refine ⟨h.toLedger.delete (by simp [hplace]) rfl rfl rfl ?_, ?_, ?_, h.queued_nodup, ?_,
    h.held_nodup, h.due, h.calling⟩
  · simp
  · rw [waiting_leave (by simp)]
    exact h.rep.drop id.timer
  · exact mem_iff_update h.queued (by simp [hplace]) (by simp)
  · exact mem_iff_update h.held (by simp [hplace]) (by simp)

/-- Steps that leave the timers and the sets alone. -/
theorem Inv.frame (h : Inv s place) {q : TimerQueue} {phase : Phase} {trace : List Event}
    (hq : Untouched s.queue { q with callingExpiredTimers := s.queue.callingExpiredTimers })
    (hheld : phase.held = s.phase.held) (hdue : phase.due ⊆ s.phase.due)
    (hcalling : q.callingExpiredTimers = phase.isCalling)
    (htrace : ∀ id, .added id ∈ trace → .added id ∈ s.trace) :
    Inv { s with queue := q, phase := phase, trace := trace } place := by
  refine ⟨h.toLedger.move (fun _ => Iff.rfl) (fun _ => id) (fun b => ?_) hq.deleted rfl
    fun id hid => .inl (htrace id hid), ?_, h.queued, h.queued_nodup, ?_, ?_, ?_, hcalling⟩
  · exact congrArg _ (congrFun hq.heap b)
  · exact h.rep.congr hq.timers hq.activeTimers fun b _ => congrFun hq.heap b
  · rw [hheld]
    exact h.held
  · rw [hheld]
    exact h.held_nodup
  · rw [hheld]
    exact List.Subset.trans hdue h.due

/-- Of the waiting timers, those that are not due go on waiting. -/
theorem waiting_of_expire {a : ℕ} {now : Timestamp} :
    (if place a = .waiting ∧ (s.queue.entry a).when ≤ now then Place.held else place a) = .waiting ↔
      place a = .waiting ∧ now < (s.queue.entry a).when := by
  split
  next hdue => simp [hdue.1, hdue.2]
  next hdue => exact ⟨fun hw => ⟨hw, lt_of_not_ge fun hle => hdue ⟨hw, hle⟩⟩, And.left⟩

/-- The expired timers leave the sets for the batch. -/
theorem Inv.handleRead (h : Inv s place) {now : Timestamp} {expired : List Entry}
    {timers : OrderedSet Entry} {active : OrderedSet ActiveTimer} (hidle : s.phase = .idle)
    (hexpired : ∀ e, e ∈ expired ↔ e ∈ s.queue.timers ∧ e.when ≤ now)
    (htimers : ∀ e, e ∈ timers ↔ e ∈ s.queue.timers ∧ now < e.when)
    (hactive : ∀ id, id ∈ active ↔
      id ∈ s.queue.activeTimers ∧ now < (s.queue.entry id.timer).when)
    (hnodup : (expired.map Entry.timer).Nodup) :
    Inv { s with
      queue := { s.queue.readTimerfd with
        timers := timers
        activeTimers := active
        callingExpiredTimers := true
        cancelingTimers := .empty }
      phase := .calling now expired expired }
      fun a => if place a = .waiting ∧ (s.queue.entry a).when ≤ now then .held else place a := by
  refine ⟨h.toLedger.move ?_ ?_ (fun _ => rfl) rfl rfl fun id hid => .inl hid, ?_, ?_,
    h.queued_nodup, ?_, hnodup, List.Subset.refl _, rfl⟩
  · intro b
    split
    next hb => simp [hb.1]
    · exact Iff.rfl
  · intro b hb
    split
    · exact .inr rfl
    · exact hb
  · refine ⟨fun b hb => ?_, fun e => ?_, fun t => ?_⟩
    · exact h.rep.live b (waiting_of_expire.mp hb).1
    · rw [htimers, h.rep.timers]
      constructor
      · rintro ⟨⟨hw, he⟩, hlt⟩
        have hentry : s.queue.entry e.timer = e := he
        exact ⟨waiting_of_expire.mpr ⟨hw, by rwa [hentry]⟩, he⟩
      · rintro ⟨hw, he⟩
        have hentry : s.queue.entry e.timer = e := he
        obtain ⟨hwaiting, hlt⟩ := waiting_of_expire.mp hw
        exact ⟨⟨hwaiting, he⟩, by rwa [hentry] at hlt⟩
    · rw [hactive, h.rep.active]
      constructor
      · rintro ⟨⟨hw, he⟩, hlt⟩
        exact ⟨waiting_of_expire.mpr ⟨hw, hlt⟩, he⟩
      · rintro ⟨hw, he⟩
        obtain ⟨hwaiting, hlt⟩ := waiting_of_expire.mp hw
        exact ⟨⟨hwaiting, he⟩, hlt⟩
  · intro b
    rw [h.queued]
    split
    next hb => simp [hb.1]
    · exact Iff.rfl
  · intro b
    have hnone : place b ≠ .held := by
      rw [ne_eq, ← h.held, hidle]
      exact List.not_mem_nil
    constructor
    · intro hmem
      obtain ⟨e, he, rfl⟩ := List.mem_map.mp hmem
      obtain ⟨hin, hle⟩ := (hexpired e).mp he
      obtain ⟨hw, hentry⟩ := (h.rep.timers e).mp hin
      exact if_pos ⟨hw, by rwa [hentry]⟩
    · intro hheld
      split at hheld
      next hb =>
        refine List.mem_map.mpr ⟨s.queue.entry b, (hexpired _).mpr ⟨?_, hb.2⟩, rfl⟩
        exact (h.rep.timers _).mpr ⟨hb.1, rfl⟩
      · exact absurd hheld hnone

/-- What disposing of the first entry of the batch does to the list of those left. -/
theorem Inv.held_tail (h : Inv s place) {now : Timestamp} {rest : List Entry} {it : Entry}
    (hphase : s.phase = .resetting now (it :: rest)) {p : Place} (hp : p ≠ .held) :
    (rest.map Entry.timer).Nodup ∧
      ∀ b, b ∈ rest.map Entry.timer ↔ Function.update place it.timer p b = .held := by
  have hheld := h.held
  have hnodup := h.held_nodup
  rw [hphase] at hheld hnodup
  obtain ⟨hnew, hrest⟩ := List.nodup_cons.mp hnodup
  refine ⟨hrest, fun b => ?_⟩
  have herase := mem_erase_iff_update (a := it.timer) hheld hnodup hp b
  rwa [Phase.held, List.map_cons, List.erase_cons_head] at herase

theorem Inv.restart (h : Inv s place) {now : Timestamp} {rest : List Entry} {it : Entry}
    {t : Timer} (hphase : s.phase = .resetting now (it :: rest))
    (ht : s.queue.heap it.timer = some t) :
    Inv { s with
      queue := (s.queue.put it.timer (t.restart now)).enter it.timer
      phase := .resetting now rest } (Function.update place it.timer .waiting) := by
  have hplace := h.held_head hphase
  have hcalling := h.calling
  rw [hphase] at hcalling
  obtain ⟨hnodup, hheld⟩ := h.held_tail hphase (p := .waiting) (by simp)
  refine ⟨h.toLedger.move ?_ ?_ ?_ rfl rfl fun id hid => .inl hid, ?_, ?_, h.queued_nodup, hheld,
    hnodup, List.nil_subset _, hcalling⟩
  · intro b
    by_cases hb : b = it.timer <;> simp [hb, hplace]
  · intro b hb
    by_cases hba : b = it.timer
    · simp [hba]
    · rwa [Function.update_of_ne hba]
  · intro b
    by_cases hb : b = it.timer
    · subst hb
      rw [show ((s.queue.put it.timer (t.restart now)).enter it.timer).heap it.timer =
        some (t.restart now) from put_self _ _ _, ht]
      rfl
    · exact congrArg _ (put_other hb)
  · rw [waiting_enter]
    refine Represents.enter (h.rep.congr rfl rfl fun b hb => put_other ?_) (put_self _ _ _)
    rintro rfl
    rw [show place it.timer = .waiting from hb] at hplace
    cases hplace
  · exact mem_iff_update h.queued (by simp [hplace]) (by simp)

theorem Inv.delete (h : Inv s place) {now : Timestamp} {rest : List Entry} {it : Entry}
    (hphase : s.phase = .resetting now (it :: rest)) :
    Inv { s with queue := s.queue.discard it.timer, phase := .resetting now rest }
      (Function.update place it.timer .free) := by
  have hplace := h.held_head hphase
  have hcalling := h.calling
  rw [hphase] at hcalling
  obtain ⟨hnodup, hheld⟩ := h.held_tail hphase (p := .free) (by simp)
  refine ⟨h.toLedger.delete (by simp [hplace]) rfl rfl rfl fun id hid => hid, ?_, ?_,
    h.queued_nodup, hheld, hnodup, List.nil_subset _, hcalling⟩
  · rw [waiting_other (by simp [hplace]) (by simp)]
    refine h.rep.congr rfl rfl fun b hb => Function.update_of_ne ?_ _ _
    rintro rfl
    rw [show place it.timer = .waiting from hb] at hplace
    cases hplace
  · exact mem_iff_update h.queued (by simp [hplace]) (by simp)

theorem Inv.step {l : Label} {s' : State} (h : Inv s place) (he : Effect s l s') :
    ∃ place', Inv s' place' := by
  cases he with
  | new hfree haddress => exact ⟨_, h.new hfree haddress _ _⟩
  | add ht hqueued hchanged =>
      refine ⟨_, h.add hqueued ?_⟩
      split
      · exact .resetTimerfd _ _ _
      · exact .refl _
  | cancelActive hid => exact ⟨_, h.cancelActive hid⟩
  | @cancelOther id hid huser hcreated =>
      have hbar := Untouched.bar s.queue id
      refine ⟨place, h.frame ⟨hbar.heap, hbar.timers, hbar.activeTimers, hbar.deleted, rfl⟩ rfl
        (List.Subset.refl _) (hbar.callingExpiredTimers.trans h.calling) ?_⟩
      simp
  | expire =>
      exact ⟨place, h.frame ⟨rfl, rfl, rfl, rfl, rfl⟩ rfl (List.Subset.refl _) h.calling
        fun _ => id⟩
  | handleRead hidle hexpired htimers hactive hnodup =>
      exact ⟨_, h.handleRead hidle hexpired htimers hactive hnodup⟩
  | callNext hphase =>
      have hcalling := h.calling
      rw [hphase] at hcalling
      refine ⟨place, h.frame ⟨rfl, rfl, rfl, rfl, rfl⟩ ?_ ?_ hcalling ?_⟩
      · rw [hphase]
        rfl
      · rw [hphase]
        exact List.subset_cons_self _ _
      · simp
  | endCalls hphase =>
      refine ⟨place, h.frame ⟨rfl, rfl, rfl, rfl, rfl⟩ ?_ (List.nil_subset _) rfl fun _ => id⟩
      rw [hphase]
      rfl
  | restart hphase ht hrepeats hkept => exact ⟨_, h.restart hphase ht⟩
  | delete hphase => exact ⟨_, h.delete hphase⟩
  | @rearm _ now hphase =>
      have hwake := Untouched.wake s.queue now
      have hcalling := h.calling
      rw [hphase] at hcalling
      refine ⟨place, h.frame ⟨hwake.heap, hwake.timers, hwake.activeTimers, hwake.deleted, rfl⟩ ?_
        (List.nil_subset _) (hwake.callingExpiredTimers.trans hcalling) fun _ => id⟩
      rw [hphase]
      rfl

theorem start_inv : Inv start fun _ => .free := by
  refine ⟨⟨?_, ?_, ?_, ?_, .nil, ?_, ?_⟩, ⟨?_, ?_, ?_⟩, ?_, .nil, ?_, .nil, ?_, rfl⟩ <;>
    simp [start, TimerQueue.init, Phase.held, Phase.due]

end Step

/-! ### The representation -/

/-- What the two sets, the batch and the deletions say about each other. -/
structure Consistent (s : State) : Prop where
  /-- The two sets hold the same timers, and these are alive. -/
  same : ∀ id, id ∈ s.queue.activeTimers ↔ ∃ t, s.queue.heap id.timer = some t ∧
    t.sequence = id.sequence ∧ ⟨t.expiration, id.timer⟩ ∈ s.queue.timers
  /-- An entry carries the expiration that its timer has now. -/
  current : ∀ e ∈ s.queue.timers, ∃ t, s.queue.heap e.timer = some t ∧ t.expiration = e.when
  /-- No timer is deleted twice. -/
  once : s.queue.deleted.Nodup
  /-- A timer that has been deleted is reached neither through the sets nor through the
  part of the batch that is still to be processed. -/
  unreachable : ∀ id ∈ s.queue.deleted, id ∉ s.queue.activeTimers ∧
    (∀ e ∈ s.queue.timers, s.queue.ident e.timer ≠ id) ∧
    (∀ e ∈ s.phase.held, s.queue.ident e.timer ≠ id)
  /-- Outside `handleRead` every timer that has been added waits or has been deleted. -/
  accounted : s.phase = .idle → ∀ id, .added id ∈ s.trace →
    (∃ e ∈ s.queue.timers, s.queue.ident e.timer = id) ∨ id ∈ s.queue.deleted

theorem Inv.consistent {s : State} {place : ℕ → Place} (h : Inv s place) : Consistent s where
  same id := by
    rw [h.rep.active]
    constructor
    · rintro ⟨hw, hid⟩
      obtain ⟨t, ht⟩ := Option.ne_none_iff_exists'.mp (h.rep.live _ hw)
      rw [ident_eq ht] at hid
      exact ⟨t, ht, congrArg ActiveTimer.sequence hid, (h.rep.timers _).mpr ⟨hw, entry_eq ht⟩⟩
    · rintro ⟨t, ht, hseq, hmem⟩
      refine ⟨((h.rep.timers _).mp hmem).1, ?_⟩
      rw [ident_eq ht, hseq]
  current e he := by
    obtain ⟨hw, hentry⟩ := (h.rep.timers e).mp he
    obtain ⟨t, ht⟩ := Option.ne_none_iff_exists'.mp (h.rep.live _ hw)
    rw [entry_eq ht] at hentry
    exact ⟨t, ht, congrArg Entry.when hentry⟩
  once := h.once
  unreachable id hid := by
    have hlive : ∀ a, place a ≠ .free → s.queue.ident a ≠ id := by
      rintro a ha rfl
      exact h.gone _ hid ha rfl
    refine ⟨fun hmem => ?_, fun e he => hlive _ ?_, fun e he => hlive _ ?_⟩
    · obtain ⟨hw, hident⟩ := (h.rep.active id).mp hmem
      exact hlive id.timer (by simp [show place id.timer = .waiting from hw]) hident
    · simp [show place e.timer = .waiting from ((h.rep.timers e).mp he).1]
    · simp [h.place_of_held he]
  accounted hidle id hid := by
    rcases h.added id hid with hdel | ⟨hplace | hplace, hident⟩
    · exact .inr hdel
    · exact .inl ⟨s.queue.entry id.timer, (h.rep.timers _).mpr ⟨hplace, rfl⟩, hident⟩
    · rw [← h.held, hidle] at hplace
      exact absurd hplace List.not_mem_nil

/-- The invariant of a run, with the places left open. -/
theorem exec_inv (s : State) (l : Label) (h : ∃ place, Inv s place) (hl : enabled s l = true) :
    ∃ s', exec s l = .ok s' ∧ ∃ place, Inv s' place := by
  obtain ⟨place, h⟩ := h
  obtain ⟨s', hexec, heffect⟩ := h.effect hl
  exact ⟨s', hexec, h.step heffect⟩

/-- Whatever is added and cancelled, and whenever, no assertion fails, no timer is used
after its deletion, and the sets agree with each other and with the timers. -/
theorem representation_consistent (ls : List Label)
    (hl : LegalRun exec (fun s l => enabled s l = true) start ls) :
    ∃ s, run exec start ls = .ok s ∧ Consistent s := by
  obtain ⟨s, hrun, place, h⟩ := run_invariant exec_inv ⟨_, start_inv⟩ hl
  exact ⟨s, hrun, h.consistent⟩

/-- The interval of a timer that runs once. -/
def once : Seconds := ⟨false, 0, by decide⟩

/-- A short interval. -/
def threeMicroSeconds : Seconds := ⟨true, 3, by decide⟩

/-- A timer is cancelled and its address used again; the new timer repeats, and its
callback cancels the old one and then itself. -/
def reusedAddress : List Label :=
  [.new 16 5 once, .addTimerInLoop 16 1, .cancelInLoop ⟨16, 1⟩,
    .new 16 7 threeMicroSeconds, .addTimerInLoop 16 2, .expire, .handleRead 9, .callNext,
    .cancelInLoop ⟨16, 1⟩, .cancelInLoop ⟨16, 2⟩, .endCalls, .resetNext, .rearm 10]

theorem representation_consistent_reused :
    LegalRun exec (fun s l => enabled s l = true) start reusedAddress ∧
      ∃ s, run exec start reusedAddress = .ok s ∧ Consistent s :=
  have hlegal : LegalRun exec (fun s l => enabled s l = true) start reusedAddress := by
    decide +kernel
  ⟨hlegal, representation_consistent reusedAddress hlegal⟩

end Muduo.System.Timers
