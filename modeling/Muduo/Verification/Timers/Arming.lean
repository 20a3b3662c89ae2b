import Muduo.Verification.Timers.Consistency

/-! The timerfd wakes the loop in time for the earliest timer. -/

namespace Muduo.Net.TimerQueue

open Library

/-- The timerfd will wake the loop for a timer that expires at `when`: no later than
that, or than the shortest delay after it was armed. -/
def Covered (q : TimerQueue) (when : Timestamp) : Prop :=
  q.timerfd ≠ .disarmed ∧
    ∀ instant, q.timerfd = .armed instant → instant ≤ max when.toInt (q.armedAt.toInt + 100)

theorem Covered.mono {q : TimerQueue} {when when' : Timestamp} (h : q.Covered when)
    (hle : when ≤ when') : q.Covered when' :=
  ⟨h.1, fun instant hi =>
    (h.2 instant hi).trans (max_le_max_right _ (Int64.le_iff_toInt_le.mp hle))⟩

theorem Covered.congr {q q' : TimerQueue} {when : Timestamp} (h : q.Covered when)
    (hfd : q'.timerfd = q.timerfd) (hat : q'.armedAt = q.armedAt) : q'.Covered when := by
  rw [Covered, hfd, hat]
  exact h

theorem Covered.expire {q : TimerQueue} {when : Timestamp} (h : q.Covered when) :
    TimerQueue.Covered { q with timerfd := q.timerfd.expire } when := by
  cases hfd : q.timerfd with
  | disarmed => exact absurd hfd h.1
  | armed instant => exact ⟨by simp [Timerfd.expire], by simp [Timerfd.expire]⟩
  | readable => exact ⟨by simp [Timerfd.expire], by simp [Timerfd.expire]⟩

/-- The two members of the `timespec` make up the delay again. -/
theorem settime_timespec (now microseconds : Int64) (hpos : 100 ≤ microseconds.toInt) :
    Timerfd.settime now ⟨microseconds / Timestamp.kMicroSecondsPerSecond,
      microseconds % Timestamp.kMicroSecondsPerSecond * 1000⟩ =
        .armed (now.toInt + microseconds.toInt) := by
  have hmillion : Timestamp.kMicroSecondsPerSecond.toInt = 1000000 := by decide
  have hthousand : (1000 : Int64).toInt = 1000 := by decide
  have hsec : (microseconds / Timestamp.kMicroSecondsPerSecond).toInt =
      microseconds.toInt / 1000000 := by
    rw [toInt_div_of_nonneg (by omega) (by omega), hmillion]
  have hrest : (microseconds % Timestamp.kMicroSecondsPerSecond).toInt =
      microseconds.toInt % 1000000 := by
    rw [toInt_mod_of_nonneg (by omega), hmillion]
  have hnsec : (microseconds % Timestamp.kMicroSecondsPerSecond * 1000).toInt =
      microseconds.toInt % 1000000 * 1000 := by
    rw [toInt_mul_of_range, hrest, hthousand] <;> rw [hrest, hthousand] <;> omega
  have hnonzero : (⟨microseconds / Timestamp.kMicroSecondsPerSecond,
      microseconds % Timestamp.kMicroSecondsPerSecond * 1000⟩ : Timespec) ≠ ⟨0, 0⟩ := by
    intro hzero
    obtain ⟨hsec0, hnsec0⟩ := Timespec.mk.inj hzero
    rw [hsec0, Int64.toInt_zero] at hsec
    rw [hnsec0, Int64.toInt_zero] at hnsec
    omega
  rw [Timerfd.settime, if_neg hnonzero]
  refine congrArg (fun delay => Timerfd.armed (now.toInt + delay)) ?_
  rw [hsec, hnsec]
  omega

/-- Where the difference fits its type, the timerfd is armed for the expiration, and no sooner
than after the shortest delay. -/
theorem settime_howMuchTimeFromNow {when now : Timestamp}
    (hlow : -2 ^ 63 ≤ when.toInt - now.toInt) (hhigh : when.toInt - now.toInt < 2 ^ 63) :
    Timerfd.settime now (howMuchTimeFromNow when now) =
      .armed (max when.toInt (now.toInt + 100)) := by
  have hhundred : (100 : Int64).toInt = 100 := by decide
  have hdiff : (when - now).toInt = when.toInt - now.toInt := toInt_sub_of_range hlow hhigh
  have hshort : when - now < 100 ↔ when.toInt - now.toInt < 100 := by
    rw [Int64.lt_iff_toInt_lt, hdiff, hhundred]
  have hdelay : (if when - now < 100 then 100 else when - now).toInt =
      max (when.toInt - now.toInt) 100 := by
    by_cases h : when - now < 100
    · rw [if_pos h, hhundred]
      exact (max_eq_right (hshort.mp h).le).symm
    · rw [if_neg h, hdiff]
      exact (max_eq_left (not_lt.mp (mt hshort.mpr h))).symm
  have harmed := settime_timespec now (if when - now < 100 then 100 else when - now)
    (by rw [hdelay]; exact le_max_right _ _)
  refine harmed.trans (congrArg Timerfd.armed ?_)
  rw [hdelay]
  omega

/-- Arming for an expiration covers every timer that does not expire before it. -/
theorem Covered.resetTimerfd (q : TimerQueue) {expiration when now : Timestamp}
    (hlow : -2 ^ 63 ≤ expiration.toInt - now.toInt)
    (hhigh : expiration.toInt - now.toInt < 2 ^ 63) (hle : expiration ≤ when) :
    (q.resetTimerfd expiration now).Covered when := by
  have hfd : (q.resetTimerfd expiration now).timerfd =
      .armed (max expiration.toInt (now.toInt + 100)) := settime_howMuchTimeFromNow hlow hhigh
  rw [Covered, hfd]
  refine ⟨by simp, fun instant hi => ?_⟩
  rw [Timerfd.armed.injEq] at hi
  rw [← hi]
  exact max_le_max_right _ (Int64.le_iff_toInt_le.mp hle)

/-- A difference of two times is too large for its type only where it is negative, if the
clock is positive. -/
theorem toInt_sub_lt {when now : Timestamp} (hnow : 0 < now) :
    when.toInt - now.toInt < 2 ^ 63 := by
  have hpos : 0 < now.toInt := Int64.lt_iff_toInt_lt.mp hnow
  have hlt := when.toInt_lt
  omega

theorem bar_timerfd (q : TimerQueue) (id : ActiveTimer) : (q.bar id).timerfd = q.timerfd := by
  unfold bar
  split <;> rfl

theorem bar_armedAt (q : TimerQueue) (id : ActiveTimer) : (q.bar id).armedAt = q.armedAt := by
  unfold bar
  split <;> rfl

end Muduo.Net.TimerQueue

namespace Muduo.System.Timers

open Library Net TimerQueue

/-- The clock reads positive values. -/
def Label.positiveClock : Label → Bool
  | .addTimerInLoop _ now => 0 < now
  | .handleRead now => 0 < now
  | .rearm now => 0 < now
  | _ => true

/-- The clock reading and the timer with which the next iteration of `reset` works. -/
def State.resets (s : State) : Option (Timestamp × Timer) :=
  match s.phase with
  | .resetting now (it :: _) => (s.queue.heap it.timer).map fun t => (now, t)
  | _ => none

/-- What the code computes with times stays in the range of its type: how long ago a timer has
expired that becomes the earliest, and when a repeating timer expires next. -/
def InRange (s : State) : Label → Prop
  | .addTimerInLoop timer now =>
      ∀ t ∈ s.queue.heap timer, (∀ it ∈ s.queue.timers.begin, t.expiration < it.when) →
        -2 ^ 63 ≤ t.expiration.toInt - now.toInt
  | .resetNext =>
      ∀ r ∈ s.resets, r.2.repeats = true → r.1.toInt + r.2.interval.microSeconds.toInt < 2 ^ 63
  | _ => True

instance (s : State) : ∀ l : Label, Decidable (InRange s l)
  | .addTimerInLoop _ _ => inferInstanceAs (Decidable (∀ _ ∈ _, _))
  | .resetNext => inferInstanceAs (Decidable (∀ _ ∈ _, _))
  | .new _ _ _ => .isTrue trivial
  | .cancelInLoop _ => .isTrue trivial
  | .expire => .isTrue trivial
  | .handleRead _ => .isTrue trivial
  | .callNext => .isTrue trivial
  | .endCalls => .isTrue trivial
  | .rearm _ => .isTrue trivial

/-- Outside `handleRead` every timer is covered. Inside, those are that `reset` would not
arm the timerfd for, since their expirations are no valid timestamps. -/
structure Wakes (s : State) : Prop where
  clock : ∀ now ∈ s.phase.clock, 0 < now
  covered : ∀ e ∈ s.queue.timers, s.phase = .idle ∨ e.when ≤ 0 → s.queue.Covered e.when

theorem start_wakes : Wakes start :=
  ⟨by simp [start, Phase.clock], by simp [start, TimerQueue.init]⟩

section Step

variable {s : State} {place : ℕ → Place}

theorem Wakes.add (h : Wakes s) {a : ℕ} {t : Timer} {changed : Bool} {now : Timestamp}
    (hnow : 0 < now) (hrange : InRange s (.addTimerInLoop a now)) (ht : s.queue.heap a = some t)
    (hchanged : changed = true ↔ ∀ e ∈ s.queue.timers, t.expiration < e.when)
    (queued : List ℕ) (trace : List Event) :
    Wakes { s with
      queue := if changed then (s.queue.enter a).resetTimerfd t.expiration now
        else s.queue.enter a
      queued := queued
      trace := trace } := by
  refine ⟨h.clock, fun e he hcond => ?_⟩
  have hmem : e = s.queue.entry a ∨ e ∈ s.queue.timers := by
    cases changed <;> exact OrderedSet.mem_insert.mp he
  rw [entry_eq ht] at hmem
  cases changed with
  | true =>
      have hlow : -2 ^ 63 ≤ t.expiration.toInt - now.toInt :=
        hrange t ht fun it hit => hchanged.mp rfl it (OrderedSet.mem_of_begin hit)
      refine Covered.resetTimerfd _ hlow (toInt_sub_lt hnow) ?_
      rcases hmem with rfl | hmem
      · exact le_refl _
      · exact (hchanged.mp rfl e hmem).le
  | false =>
      refine Covered.congr (q := s.queue) ?_ rfl rfl
      rcases hmem with rfl | hmem
      · -- another timer expires no later, and the timerfd covers that one
        obtain ⟨f, hf, hle⟩ : ∃ f ∈ s.queue.timers, f.when ≤ t.expiration := by
          by_contra hnone
          push Not at hnone
          exact absurd (hchanged.mpr hnone) (by simp)
        refine (h.covered f hf ?_).mono hle
        exact hcond.imp_right hle.trans
      · exact h.covered e hmem hcond

theorem Wakes.rearm (h : Wakes s) {now : Timestamp} (hnow : 0 < now) :
    Wakes { s with queue := s.queue.wake now, phase := .idle } := by
  refine ⟨by simp [Phase.clock], fun e he _ => ?_⟩
  rw [(Untouched.wake s.queue now).timers] at he
  unfold TimerQueue.wake
  cases hbegin : s.queue.timers.begin with
  | none => exact absurd he (OrderedSet.begin_eq_none.mp hbegin e)
  | some it =>
      have hle : it.when ≤ e.when := Entry.when_le (OrderedSet.begin_le hbegin he)
      by_cases hvalid : Timestamp.valid it.when
      · simp only [if_pos hvalid]
        -- both times are positive, so their difference fits
        have hpos : 0 < it.when.toInt := Int64.lt_iff_toInt_lt.mp (of_decide_eq_true hvalid)
        have hlt := now.toInt_lt
        exact Covered.resetTimerfd _ (by omega) (toInt_sub_lt hnow) hle
      · simp only [if_neg hvalid]
        have hpast : it.when ≤ 0 := by simpa [Timestamp.valid] using hvalid
        exact (h.covered it (OrderedSet.mem_of_begin hbegin) (.inr hpast)).mono hle

/-- A repeating timer expires next after the clock reading, if that fits. -/
theorem addTime_pos {now : Timestamp} {interval : Seconds} (hnow : 0 < now)
    (hpositive : interval.positive = true)
    (hrange : now.toInt + interval.microSeconds.toInt < 2 ^ 63) : 0 < addTime now interval := by
  have hpos : 0 < now.toInt := Int64.lt_iff_toInt_lt.mp hnow
  have hnonneg : 0 ≤ interval.microSeconds.toInt :=
    Int64.le_iff_toInt_le.mp (interval.nonneg hpositive)
  have hsum : (addTime now interval).toInt = now.toInt + interval.microSeconds.toInt :=
    toInt_add_of_range (by omega) hrange
  refine Int64.lt_iff_toInt_lt.mpr ?_
  rw [hsum, Int64.toInt_zero]
  omega

/-- Inside `handleRead` the loop goes on: what is new among the timers expires at a valid
timestamp, and the timerfd stays as it is. -/
theorem Wakes.inside (h : Wakes s) {s' : State} (hinside : s'.phase ≠ .idle)
    (hclock : s'.phase.clock = s.phase.clock)
    (htimers : ∀ e ∈ s'.queue.timers, e ∈ s.queue.timers ∨ 0 < e.when)
    (htimerfd : s'.queue.timerfd = s.queue.timerfd) (harmed : s'.queue.armedAt = s.queue.armedAt) :
    Wakes s' := by
  refine ⟨hclock ▸ h.clock, fun e he hcond => ?_⟩
  have hpast : e.when ≤ 0 := hcond.resolve_left hinside
  rcases htimers e he with hmem | hlater
  · exact (h.covered e hmem (.inr hpast)).congr htimerfd harmed
  · exact absurd hlater (not_lt_of_ge hpast)

theorem Wakes.step {l : Label} {s' : State} (h : Wakes s) (hclock : l.positiveClock = true)
    (hrange : InRange s l) (he : Effect s l s') : Wakes s' := by
  cases he with
  | new hfree haddress => exact ⟨h.clock, h.covered⟩
  | add ht hqueued hchanged => exact h.add (of_decide_eq_true hclock) hrange ht hchanged _ _
  | cancelActive hid =>
      exact ⟨h.clock, fun e he => h.covered e (OrderedSet.mem_erase.mp he).1⟩
  | @cancelOther id hid huser hcreated =>
      refine ⟨h.clock, fun e he hcond => ?_⟩
      have hmem : e ∈ s.queue.timers := by
        rwa [← (Untouched.bar s.queue id).timers]
      exact (h.covered e hmem hcond).congr (bar_timerfd _ _) (bar_armedAt _ _)
  | expire => exact ⟨h.clock, fun e he hcond => (h.covered e he hcond).expire⟩
  | @handleRead now expired timers active hidle hexpired htimers hactive hnodup =>
      have hnow : 0 < now := by simpa [Label.positiveClock] using hclock
      refine ⟨?_, fun e he hcond => ?_⟩
      · simpa [Phase.clock] using hnow
      · -- what is left expires after a positive `now`
        have hlater : now < e.when := ((htimers e).mp he).2
        rcases hcond with hcond | hcond
        · cases hcond
        · exact absurd (hnow.trans hlater) (not_lt_of_ge hcond)
  | callNext hphase =>
      refine h.inside (fun hidle => ?_) (by rw [hphase]; rfl) (fun e he => .inl he) rfl rfl
      cases hidle
  | endCalls hphase =>
      refine h.inside (fun hidle => ?_) (by rw [hphase]; rfl) (fun e he => .inl he) rfl rfl
      cases hidle
  | @restart now it rest t hphase ht hrepeats hkept =>
      refine h.inside (fun hidle => by cases hidle) (by rw [hphase]; rfl) (fun e he => ?_) rfl rfl
      rcases OrderedSet.mem_insert.mp he with rfl | hmem
      · -- the next expiration of a repeating timer is after `now`
        have hnow : 0 < now := h.clock now (by rw [hphase]; rfl)
        have hresets : s.resets = some (now, t) := by
          simp only [State.resets, hphase, ht, Option.map_some]
        have hlater : 0 < addTime now t.interval :=
          addTime_pos hnow (t.repeats_eq ▸ hrepeats) (hrange (now, t) hresets hrepeats)
        have hwhen : (s.queue.put it.timer (t.restart now)).entry it.timer =
            ⟨(t.restart now).expiration, it.timer⟩ :=
          entry_eq (put_self _ _ _)
        rw [hwhen, Timer.restart, if_pos hrepeats]
        exact .inr hlater
      · exact .inl hmem
  | delete hphase =>
      refine h.inside (fun hidle => ?_) (by rw [hphase]; rfl) (fun e he => .inl he) rfl rfl
      cases hidle
  | rearm hphase => exact h.rearm (of_decide_eq_true hclock)

end Step

/-- The clock is positive and the times fit. -/
def Timely (s : State) (l : Label) : Prop :=
  enabled s l = true ∧ l.positiveClock = true ∧ InRange s l

instance (s : State) (l : Label) : Decidable (Timely s l) := inferInstanceAs (Decidable (_ ∧ _))

theorem exec_wakes (s : State) (l : Label) (h : (∃ place, Inv s place) ∧ Wakes s)
    (hl : Timely s l) : ∃ s', exec s l = .ok s' ∧ (∃ place, Inv s' place) ∧ Wakes s' := by
  obtain ⟨⟨place, hinv⟩, hwakes⟩ := h
  obtain ⟨henabled, hclock, hrange⟩ := hl
  obtain ⟨s', hexec, heffect⟩ := hinv.effect henabled
  exact ⟨s', hexec, hinv.step heffect, hwakes.step hclock hrange heffect⟩

/-- Outside `handleRead`, while a timer waits, the timerfd is readable or armed, and armed
no later than the earliest timer and the shortest delay ask for, if no timer that is armed for
has expired more than `2 ^ 63` microseconds ago and no repeating timer expires next beyond the
last timestamp. -/
theorem wakeups_not_lost (ls : List Label) (hl : LegalRun exec Timely start ls) :
    ∃ s, run exec start ls = .ok s ∧
      (s.phase = .idle → ∀ it, s.queue.timers.begin = some it → s.queue.Covered it.when) := by
  obtain ⟨s, hrun, -, hwakes⟩ := run_invariant exec_wakes ⟨⟨_, start_inv⟩, start_wakes⟩ hl
  refine ⟨s, hrun, fun hidle it hbegin => ?_⟩
  exact hwakes.covered it (OrderedSet.mem_of_begin hbegin) (.inl hidle)

/-- A callback adds a timer whose expiration is no valid timestamp, so that `reset` does
not arm the timerfd again. -/
def addedInThePast : List Label :=
  [.new 16 5 once, .addTimerInLoop 16 1, .expire, .handleRead 9, .callNext,
    .new 32 (-4) once, .addTimerInLoop 32 10, .endCalls, .resetNext, .rearm 11]

theorem wakeups_not_lost_past :
    LegalRun exec Timely start addedInThePast ∧
      ∃ s, run exec start addedInThePast = .ok s ∧
        (s.phase = .idle → ∀ it, s.queue.timers.begin = some it → s.queue.Covered it.when) :=
  have hlegal : LegalRun exec Timely start addedInThePast := by decide +kernel
  ⟨hlegal, wakeups_not_lost addedInThePast hlegal⟩

/-- A timer that has expired at the first timestamp: the time from now to then wraps around, and
the timerfd is armed for an instant behind the last timestamp. -/
theorem wakeup_lost_by_overflow :
    let ls : List Label := [.new 16 Int64.minValue once, .addTimerInLoop 16 1]
    LegalRun exec (fun s l => enabled s l = true ∧ l.positiveClock = true) start ls ∧
      ∃ s, run exec start ls = .ok s ∧ s.phase = .idle ∧
        s.queue.timers.begin = some ⟨Int64.minValue, 16⟩ ∧ s.queue.armedAt = 1 ∧
        s.queue.timerfd = .armed (2 ^ 63) ∧ ¬ s.queue.Covered Int64.minValue := by
  intro ls
  have hrun : ∃ s, run exec start ls = .ok s ∧ s.phase = .idle ∧
      s.queue.timers.begin = some ⟨Int64.minValue, 16⟩ ∧ s.queue.armedAt = 1 ∧
      s.queue.timerfd = .armed (2 ^ 63) := by decide +kernel
  obtain ⟨s, hrun, hidle, hbegin, hat, hfd⟩ := hrun
  refine ⟨by decide +kernel, s, hrun, hidle, hbegin, hat, hfd, fun hcovered => ?_⟩
  have hle := hcovered.2 _ hfd
  rw [hat] at hle
  exact absurd hle (by decide)

end Muduo.System.Timers
