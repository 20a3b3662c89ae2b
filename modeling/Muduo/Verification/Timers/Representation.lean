import Muduo.System.Timers

/-! The two sets of a timer queue name the same timers. -/

namespace Muduo.Net.TimerQueue

open Library

theorem Entry.lt_iff {e f : Entry} :
    e < f ↔ e.when < f.when ∨ e.when = f.when ∧ e.timer < f.timer := Prod.Lex.lt_iff

theorem Entry.when_le {e f : Entry} (h : e ≤ f) : e.when ≤ f.when := by
  rcases Prod.Lex.le_iff.mp (show toLex (e.when, e.timer) ≤ toLex (f.when, f.timer) from h) with
    hlt | ⟨heq, -⟩
  · exact hlt.le
  · exact heq.le

/-- The entry of the timer at an address. -/
def entry (q : TimerQueue) (timer : ℕ) : Entry :=
  ⟨((q.heap timer).map Timer.expiration).getD Timestamp.invalid, timer⟩

/-- The identity of the timer at an address. -/
def ident (q : TimerQueue) (timer : ℕ) : ActiveTimer :=
  ⟨timer, ((q.heap timer).map Timer.sequence).getD 0⟩

/-- The queue with `t` at an address. -/
def put (q : TimerQueue) (timer : ℕ) (t : Timer) : TimerQueue :=
  { q with heap := Function.update q.heap timer (some t) }

/-- The queue after the timer at an address has been deleted. -/
def discard (q : TimerQueue) (timer : ℕ) : TimerQueue :=
  { q with
    heap := Function.update q.heap timer none
    deleted := q.deleted ++ [q.ident timer] }

/-- `timers_` and `activeTimers_` hold the timers at the addresses `waiting`, the former
under their current expirations. -/
structure Represents (q : TimerQueue) (waiting : Set ℕ) : Prop where
  live : ∀ a ∈ waiting, q.heap a ≠ none
  timers : ∀ e, e ∈ q.timers ↔ e.timer ∈ waiting ∧ q.entry e.timer = e
  active : ∀ t, t ∈ q.activeTimers ↔ t.timer ∈ waiting ∧ q.ident t.timer = t

section Facts

variable {q : TimerQueue} {waiting : Set ℕ} {a : ℕ} {t : Timer}

theorem put_self (q : TimerQueue) (a : ℕ) (t : Timer) : (q.put a t).heap a = some t :=
  Function.update_self _ _ _

theorem put_other {b : ℕ} (h : b ≠ a) : (q.put a t).heap b = q.heap b :=
  Function.update_of_ne h _ _

theorem entry_eq (h : q.heap a = some t) : q.entry a = ⟨t.expiration, a⟩ := by
  rw [entry, h]
  rfl

theorem ident_eq (h : q.heap a = some t) : q.ident a = ⟨a, t.sequence⟩ := by
  rw [ident, h]
  rfl

theorem entry_congr {q' : TimerQueue} (h : q'.heap a = q.heap a) : q'.entry a = q.entry a := by
  rw [entry, entry, h]

theorem ident_congr {q' : TimerQueue} (h : q'.heap a = q.heap a) : q'.ident a = q.ident a := by
  rw [ident, ident, h]

theorem deref_eq (h : q.heap a = some t) : q.deref a = .ok t := by
  rw [deref, h]

theorem delete_eq (h : q.heap a = some t) : q.delete a = .ok (q.discard a) := by
  rw [delete, deref_eq h, discard, ident_eq h]
  rfl

theorem Represents.sizes (h : q.Represents waiting) : q.timers.size = q.activeTimers.size := by
  have htimers : q.timers.size = waiting.ncard := by
    refine OrderedSet.size_eq_ncard (f := q.entry) ?_ fun e => ?_
    · intro a b hab
      exact congrArg Entry.timer hab
    · rw [h.timers]
      constructor
      · rintro ⟨hw, he⟩
        exact ⟨e.timer, hw, he⟩
      · rintro ⟨a, hw, rfl⟩
        exact ⟨hw, rfl⟩
  have hactive : q.activeTimers.size = waiting.ncard := by
    refine OrderedSet.size_eq_ncard (f := q.ident) ?_ fun e => ?_
    · intro a b hab
      exact congrArg ActiveTimer.timer hab
    · rw [h.active]
      constructor
      · rintro ⟨hw, he⟩
        exact ⟨e.timer, hw, he⟩
      · rintro ⟨a, hw, rfl⟩
        exact ⟨hw, rfl⟩
  rw [htimers, hactive]

/-- Only the timers of `waiting` matter. -/
theorem Represents.congr {q' : TimerQueue} (h : q.Represents waiting)
    (htimers : q'.timers = q.timers) (hactive : q'.activeTimers = q.activeTimers)
    (hheap : ∀ a ∈ waiting, q'.heap a = q.heap a) : q'.Represents waiting := by
  refine ⟨fun a ha => ?_, fun e => ?_, fun t => ?_⟩
  · rw [hheap a ha]
    exact h.live a ha
  · rw [htimers, h.timers]
    refine and_congr_right fun hw => ?_
    rw [entry_congr (hheap _ hw)]
  · rw [hactive, h.active]
    refine and_congr_right fun hw => ?_
    rw [ident_congr (hheap _ hw)]

end Facts

/-! ### Adding -/

/-! The two sets have the entries `f a` of the waiting timers `a`, which `key` finds again. -/

section Keyed

variable {α : Type} {key : α → ℕ} {f f' : ℕ → α} {waiting : Set ℕ} {a : ℕ} {x : α}

theorem keyed_insert (hkey : key (f a) = a) :
    x = f a ∨ key x ∈ waiting ∧ f (key x) = x ↔ key x ∈ {a} ∪ waiting ∧ f (key x) = x := by
  constructor
  · rintro (rfl | ⟨hw, hx⟩)
    · exact ⟨.inl hkey, congrArg f hkey⟩
    · exact ⟨.inr hw, hx⟩
  · rintro ⟨hw | hw, hx⟩
    · exact .inl (by rw [← hx, show key x = a from hw])
    · exact .inr ⟨hw, hx⟩

theorem keyed_erase (hkey : key (f a) = a) (hsame : ∀ b ≠ a, f' b = f b) :
    (key x ∈ waiting ∧ f (key x) = x) ∧ x ≠ f a ↔ key x ∈ waiting \ {a} ∧ f' (key x) = x := by
  constructor
  · rintro ⟨⟨hw, hx⟩, hne⟩
    have hother : key x ≠ a := fun heq => hne (by rw [← hx, heq])
    exact ⟨⟨hw, hother⟩, (hsame _ hother).trans hx⟩
  · rintro ⟨⟨hw, hother⟩, hx⟩
    exact ⟨⟨hw, (hsame _ hother).symm.trans hx⟩, fun heq => hother (heq ▸ hkey)⟩

end Keyed

/-- The queue after a timer has been inserted. -/
def enter (q : TimerQueue) (a : ℕ) : TimerQueue :=
  { q with
    timers := q.timers.insert (q.entry a)
    activeTimers := q.activeTimers.insert (q.ident a) }

theorem Represents.enter {q : TimerQueue} {waiting : Set ℕ} {a : ℕ} {t : Timer}
    (h : q.Represents waiting) (ht : q.heap a = some t) :
    (q.enter a).Represents ({a} ∪ waiting) := by
  refine ⟨?_, fun e => ?_, fun e => ?_⟩
  · rintro b (rfl | hb)
    · simp [TimerQueue.enter, ht]
    · exact h.live b hb
  · rw [TimerQueue.enter, OrderedSet.mem_insert, h.timers]
    exact keyed_insert rfl
  · rw [TimerQueue.enter, OrderedSet.mem_insert, h.active]
    exact keyed_insert rfl

/-- A timer that is not waiting is inserted without a failed assertion. The result tells
whether it comes before all others. -/
theorem Represents.insert {q : TimerQueue} {waiting : Set ℕ} {a : ℕ} {t : Timer}
    (h : q.Represents waiting) (ht : q.heap a = some t) (ha : a ∉ waiting) :
    ∃ changed : Bool, q.insert a = .ok (changed, q.enter a) ∧
      (changed = true ↔ ∀ e ∈ q.timers, t.expiration < e.when) := by
  have htimers : ⟨t.expiration, a⟩ ∉ q.timers := fun hmem => ha ((h.timers _).mp hmem).1
  have hactive : ⟨a, t.sequence⟩ ∉ q.activeTimers := fun hmem => ha ((h.active _).mp hmem).1
  have hsizes : (q.timers.insert ⟨t.expiration, a⟩).size =
      (q.activeTimers.insert ⟨a, t.sequence⟩).size := by
    have hs := (h.enter ht).sizes
    rwa [TimerQueue.enter, entry_eq ht, ident_eq ht] at hs
  refine ⟨q.timers.begin.all fun it => decide (t.expiration < it.when), ?_, ?_⟩
  · simp only [TimerQueue.insert, ensure_of _ h.sizes, ok_bind, deref_eq ht, ensure_of _ htimers,
      ensure_of _ hactive, ensure_of _ hsizes, TimerQueue.enter, entry_eq ht, ident_eq ht]
    cases q.timers.begin <;> rfl
  · cases hbegin : q.timers.begin with
    | none =>
        simp only [Option.all_none, true_iff]
        intro e he
        exact absurd he (OrderedSet.begin_eq_none.mp hbegin e)
    | some it =>
        simp only [Option.all_some, decide_eq_true_eq]
        constructor
        · intro hlt e he
          exact lt_of_lt_of_le hlt (Entry.when_le (OrderedSet.begin_le hbegin he))
        · intro hall
          exact hall it (OrderedSet.mem_of_begin hbegin)

/-! ### Cancelling -/

/-- The queue after a waiting timer has been taken out and deleted. -/
def drop (q : TimerQueue) (a : ℕ) : TimerQueue :=
  { q.discard a with
    timers := q.timers.erase (q.entry a)
    activeTimers := q.activeTimers.erase (q.ident a) }

theorem Represents.drop {q : TimerQueue} {waiting : Set ℕ} (h : q.Represents waiting) (a : ℕ) :
    (q.drop a).Represents (waiting \ {a}) := by
  have hheap : ∀ b ≠ a, (q.drop a).heap b = q.heap b := fun b hb =>
    Function.update_of_ne hb _ _
  refine ⟨?_, fun e => ?_, fun t => ?_⟩
  · rintro b ⟨hb, hne⟩
    rw [hheap b hne]
    exact h.live b hb
  · rw [show (q.drop a).timers = q.timers.erase (q.entry a) from rfl, OrderedSet.mem_erase,
      h.timers]
    exact keyed_erase rfl fun b hb => entry_congr (hheap b hb)
  · rw [show (q.drop a).activeTimers = q.activeTimers.erase (q.ident a) from rfl,
      OrderedSet.mem_erase, h.active]
    exact keyed_erase rfl fun b hb => ident_congr (hheap b hb)

theorem Represents.cancelInLoop_active {q : TimerQueue} {waiting : Set ℕ}
    (h : q.Represents waiting) {id : ActiveTimer} (hid : id ∈ q.activeTimers) :
    q.cancelInLoop id = .ok (q.drop id.timer) := by
  obtain ⟨hw, hident⟩ := (h.active id).mp hid
  obtain ⟨t, ht⟩ := Option.ne_none_iff_exists'.mp (h.live _ hw)
  have hmem : ⟨t.expiration, id.timer⟩ ∈ q.timers :=
    (h.timers _).mpr ⟨hw, entry_eq ht⟩
  have hsizes :
      (q.timers.erase ⟨t.expiration, id.timer⟩).size = (q.activeTimers.erase id).size := by
    have hs := (h.drop id.timer).sizes
    rwa [TimerQueue.drop, entry_eq ht, hident] at hs
  have hdelete : TimerQueue.delete
      { q with timers := q.timers.erase ⟨t.expiration, id.timer⟩ } id.timer =
      .ok { q.discard id.timer with timers := q.timers.erase ⟨t.expiration, id.timer⟩ } :=
    delete_eq (q := { q with timers := q.timers.erase ⟨t.expiration, id.timer⟩ }) ht
  simp only [TimerQueue.cancelInLoop, ensure_of _ h.sizes, ok_bind, if_pos hid, deref_eq ht,
    ensure_of _ hmem, hdelete, pure, Except.pure, TimerQueue.drop, entry_eq ht, hident]
  exact congrArg (· >>= fun _ => _) (ensure_of Fault.sizes hsizes)

/-- The queue after a timer that is not waiting has been cancelled. -/
def bar (q : TimerQueue) (id : ActiveTimer) : TimerQueue :=
  if q.callingExpiredTimers then { q with cancelingTimers := q.cancelingTimers.insert id } else q

theorem Represents.cancelInLoop_other {q : TimerQueue} {waiting : Set ℕ}
    (h : q.Represents waiting) {id : ActiveTimer} (hid : id ∉ q.activeTimers) :
    q.cancelInLoop id = .ok (q.bar id) := by
  simp only [TimerQueue.cancelInLoop, ensure_of _ h.sizes, ok_bind, if_neg hid, bar]
  split <;> simp [pure, Except.pure, h.sizes]

/-! ### Expiry -/

theorem lt_sentry_iff {e : Entry} {now : Timestamp} (h : e.timer < uintptrMax) :
    e < ⟨now, uintptrMax⟩ ↔ e.when ≤ now := by
  rw [Entry.lt_iff, le_iff_lt_or_eq]
  exact or_congr_right (and_iff_left h)

/-- The loop of `getExpired` takes the timers it is given out of `activeTimers_`. -/
theorem foldlM_eraseExpired {q : TimerQueue} {es : List Entry}
    (hident : ∀ t ∈ q.activeTimers, q.ident t.timer = t)
    (hes : ∀ e ∈ es, q.heap e.timer ≠ none ∧ q.ident e.timer ∈ q.activeTimers)
    (hnodup : (es.map Entry.timer).Nodup) :
    ∃ active, es.foldlM eraseExpired q = .ok { q with activeTimers := active } ∧
      ∀ t, t ∈ active ↔ t ∈ q.activeTimers ∧ t.timer ∉ es.map Entry.timer := by
  induction es generalizing q with
  | nil => exact ⟨q.activeTimers, rfl, by simp⟩
  | cons e es ih =>
      obtain ⟨hnew, hnodup⟩ := List.nodup_cons.mp hnodup
      obtain ⟨hlive, hmem⟩ := hes e List.mem_cons_self
      obtain ⟨t, ht⟩ := Option.ne_none_iff_exists'.mp hlive
      set q' : TimerQueue := { q with activeTimers := q.activeTimers.erase (q.ident e.timer) }
        with hq'
      have hstep : eraseExpired q e = .ok q' := by
        rw [hq']
        rw [ident_eq ht] at hmem ⊢
        rw [eraseExpired, deref_eq ht, ok_bind, ensure_of _ hmem]
        rfl
      have hrest : ∀ f ∈ es, q'.heap f.timer ≠ none ∧ q'.ident f.timer ∈ q'.activeTimers := by
        intro f hf
        obtain ⟨hfl, hfm⟩ := hes f (List.mem_cons_of_mem _ hf)
        refine ⟨hfl, OrderedSet.mem_erase.mpr ⟨hfm, fun heq => hnew ?_⟩⟩
        rw [← show f.timer = e.timer from congrArg ActiveTimer.timer heq]
        exact List.mem_map_of_mem hf
      obtain ⟨active, hfold, hact⟩ :=
        ih (q := q') (fun u hu => hident u (OrderedSet.mem_erase.mp hu).1) hrest hnodup
      refine ⟨active, ?_, fun u => ?_⟩
      · rw [List.foldlM_cons, hstep]
        exact hfold
      · rw [hact u, hq', OrderedSet.mem_erase, List.map_cons, List.mem_cons, not_or, and_assoc]
        refine and_congr_right fun hu => and_congr_left fun _ => not_congr ?_
        constructor
        · rintro rfl
          rfl
        · intro heq
          rw [← hident u hu, heq]

/-- What `getExpired` takes out, and what it leaves waiting. -/
theorem Represents.getExpired {q : TimerQueue} {waiting : Set ℕ} (h : q.Represents waiting)
    (haddr : ∀ a ∈ waiting, a < uintptrMax) (now : Timestamp) :
    ∃ expired timers active,
      q.getExpired now = .ok (expired, { q with timers := timers, activeTimers := active }) ∧
      TimerQueue.Represents { q with timers := timers, activeTimers := active }
        {a ∈ waiting | now < (q.entry a).when} ∧
      (expired.map Entry.timer).Nodup ∧
      ∀ e, e ∈ expired ↔ e.timer ∈ waiting ∧ q.entry e.timer = e ∧ e.when ≤ now := by
  set sentry : Entry := ⟨now, uintptrMax⟩ with hsentry
  have hexpired : ∀ e, e ∈ (q.timers.below sentry).elems ↔
      e.timer ∈ waiting ∧ q.entry e.timer = e ∧ e.when ≤ now := by
    intro e
    rw [OrderedSet.mem_elems, OrderedSet.mem_below, h.timers, and_assoc]
    refine and_congr_right fun hw => and_congr_right fun _ => lt_sentry_iff (haddr _ hw)
  have honward : ∀ e, e ∈ q.timers.onward sentry ↔
      e.timer ∈ waiting ∧ q.entry e.timer = e ∧ now < e.when := by
    intro e
    rw [OrderedSet.mem_onward, h.timers, and_assoc]
    refine and_congr_right fun hw => and_congr_right fun _ => ?_
    rw [← not_lt, lt_sentry_iff (haddr _ hw), not_le]
  have hnodup : ((q.timers.below sentry).elems.map Entry.timer).Nodup := by
    refine (OrderedSet.nodup _).map_on fun e he f hf heq => ?_
    rw [← ((hexpired e).mp he).2.1, ← ((hexpired f).mp hf).2.1, heq]
  obtain ⟨active, hfold, hact⟩ := foldlM_eraseExpired
    (q := { q with timers := q.timers.onward sentry }) (fun t ht => ((h.active t).mp ht).2)
    (fun e he => ⟨h.live _ ((hexpired e).mp he).1,
      (h.active _).mpr ⟨((hexpired e).mp he).1, rfl⟩⟩) hnodup
  have hrep : TimerQueue.Represents
      { q with timers := q.timers.onward sentry, activeTimers := active }
      {a ∈ waiting | now < (q.entry a).when} := by
    refine ⟨fun a ha => h.live a ha.1, fun e => ?_, fun t => ?_⟩
    · rw [honward e]
      constructor
      · rintro ⟨hw, he, hlt⟩
        exact ⟨⟨hw, by rwa [he]⟩, he⟩
      · rintro ⟨⟨hw, hlt⟩, he⟩
        rw [show q.entry e.timer = e from he] at hlt
        exact ⟨hw, he, hlt⟩
    · rw [hact t, h.active, and_right_comm]
      refine and_congr_left fun _ => and_congr_right fun hw => ?_
      rw [← not_le]
      refine not_congr ⟨fun hmem => ?_, fun hle => ?_⟩
      · obtain ⟨e, he, heq⟩ := List.mem_map.mp hmem
        obtain ⟨-, hentry, hle⟩ := (hexpired e).mp he
        rwa [← heq, hentry]
      · exact List.mem_map.mpr ⟨q.entry t.timer, (hexpired _).mpr ⟨hw, rfl, hle⟩, rfl⟩
  have hfirst : ∀ it ∈ (q.timers.onward sentry).begin, now < it.when := fun it hit =>
    ((honward it).mp (OrderedSet.mem_of_begin hit)).2.2
  refine ⟨_, _, active, ?_, hrep, hnodup, hexpired⟩
  simp only [TimerQueue.getExpired, ensure_of _ h.sizes, ok_bind, ← hsentry, ensure_of _ hfirst,
    hfold, ensure_of _ hrep.sizes, pure, Except.pure]

/-! ### Arming -/

/-- The queue after `reset` has armed the timerfd for the earliest expiration. -/
def wake (q : TimerQueue) (now : Timestamp) : TimerQueue :=
  match q.timers.begin with
  | some it => if Timestamp.valid it.when then q.resetTimerfd it.when now else q
  | none => q

theorem Represents.rearm {q : TimerQueue} {waiting : Set ℕ} (h : q.Represents waiting)
    (now : Timestamp) : q.rearm now = .ok (q.wake now) := by
  rw [TimerQueue.rearm, wake]
  cases hbegin : q.timers.begin with
  | none => rfl
  | some it =>
      obtain ⟨hw, hentry⟩ := (h.timers it).mp (OrderedSet.mem_of_begin hbegin)
      obtain ⟨t, ht⟩ := Option.ne_none_iff_exists'.mp (h.live _ hw)
      have hwhen : t.expiration = it.when := by rw [← hentry, entry_eq ht]
      simp only [deref_eq ht, ok_bind, hwhen, pure, Except.pure]

/-- The timers and the two sets are the same. -/
structure Untouched (q q' : TimerQueue) : Prop where
  heap : q'.heap = q.heap
  timers : q'.timers = q.timers
  activeTimers : q'.activeTimers = q.activeTimers
  deleted : q'.deleted = q.deleted
  callingExpiredTimers : q'.callingExpiredTimers = q.callingExpiredTimers

theorem Untouched.refl (q : TimerQueue) : Untouched q q := ⟨rfl, rfl, rfl, rfl, rfl⟩

theorem Untouched.resetTimerfd (q : TimerQueue) (expiration now : Timestamp) :
    Untouched q (q.resetTimerfd expiration now) := ⟨rfl, rfl, rfl, rfl, rfl⟩

theorem Untouched.bar (q : TimerQueue) (id : ActiveTimer) : Untouched q (q.bar id) := by
  unfold TimerQueue.bar
  split
  · exact ⟨rfl, rfl, rfl, rfl, rfl⟩
  · exact .refl q

theorem Untouched.wake (q : TimerQueue) (now : Timestamp) : Untouched q (q.wake now) := by
  unfold TimerQueue.wake
  split
  · split
    · exact .resetTimerfd q _ _
    · exact .refl q
  · exact .refl q

end Muduo.Net.TimerQueue
