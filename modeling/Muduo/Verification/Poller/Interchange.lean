import Muduo.Library.Agree
import Muduo.Verification.Poller.Standing

/-! The two pollers side by side, on the same operations. -/

namespace Muduo.System.Polling

open Library Net

/-- The kernel watches the same descriptors for the same events: those registered with
epoll are the ones that `poll` does not pass over. -/
def SameWatch (s : State EPollPoller) (t : State PollPoller) : Prop :=
  ∀ f e, s.poller.interest f = some e ↔
    ∃ pfd ∈ t.poller.pollfds, 0 ≤ pfd.fd ∧ pfd.fd = f ∧ pfd.events = e

/-- Every channel stands the same with both pollers and has the same mask. -/
structure Alike (live : ℕ → Prop) (fd : ℕ → ℤ) (st : ℕ → Standing) (s : State EPollPoller)
    (t : State PollPoller) : Prop where
  epolled : EPolled live fd st s
  polled : Polled live fd st t
  events : ∀ a, (t.heap a).events = (s.heap a).events
  fresh : ∀ a, st a = .fresh → s.updated a = false
  removed : ∀ a, st a = .removed → s.removed a = true

theorem start_alike (live : ℕ → Prop) (fd : ℕ → ℤ) :
    Alike live fd (fun _ => .fresh) (start .init fd) (start .init fd) where
  epolled := start_epolled live fd
  polled := start_polled live fd
  events _ := rfl
  fresh _ _ := rfl
  removed _ h := by cases h

section Step

variable {live : ℕ → Prop} {fd : ℕ → ℤ} {st : ℕ → Standing} {s : State EPollPoller}
  {t : State PollPoller}

theorem Alike.sameWatch (h : Alike live fd st s t) (hfd : Distinct live fd) : SameWatch s t := by
  intro f e
  rw [h.epolled.interest_iff, h.polled.pollfds_iff hfd]
  simp only [h.events]

theorem Alike.update (h : Alike live fd st s t) (hfd : Distinct live fd) {a : ℕ} (ha : live a)
    {u : Update} (hplain : Plain s (.update u a)) :
    ∃ st' s' t', exec epoll s (.update u a) = .ok s' ∧ exec poll t (.update u a) = .ok t' ∧
      Alike live fd st' s' t' := by
  obtain ⟨hremoved, hempty⟩ := hplain
  have hkept := h.epolled.kept a ha
  obtain ⟨s', hs, hepolled, hheap, hupdated, hrem⟩ := h.epolled.update hfd ha u
  obtain ⟨t', ht, hpolled, hevents⟩ := h.polled.update hfd ha u (fun hst => by
    rw [h.removed a hst] at hremoved
    cases hremoved) (fun hst => by
    rw [h.events a]
    exact fun he => hempty ⟨hkept.index_eq_kDeleted.mpr hst, he⟩)
  rw [h.events a] at hpolled
  refine ⟨_, s', t', hs, ht, hepolled, hpolled, fun b => ?_, fun b hb => ?_, fun b hb => ?_⟩
  · rw [hevents b, hheap, Function.update_apply, h.events a]
    split
    · rfl
    · exact h.events b
  · by_cases hne : b = a
    · subst hne
      rw [Function.update_self] at hb
      exact absurd hb (Standing.after_ne _ _).1
    · rw [Function.update_of_ne hne] at hb
      rw [hupdated, Function.update_of_ne hne]
      exact h.fresh b hb
  · by_cases hne : b = a
    · subst hne
      rw [Function.update_self] at hb
      exact absurd hb (Standing.after_ne _ _).2
    · rw [Function.update_of_ne hne] at hb
      rw [hrem]
      exact h.removed b hb

theorem Alike.remove (h : Alike live fd st s t) (hfd : Distinct live fd) {a : ℕ} (ha : live a)
    (hst : st a = .ignored) :
    ∃ st' s' t', exec epoll s (.remove a) = .ok s' ∧ exec poll t (.remove a) = .ok t' ∧
      Alike live fd st' s' t' := by
  have hkept := h.epolled.kept a ha
  rw [hst] at hkept
  have hknown : (s.heap a).index ≠ EPollPoller.kNew := by
    rw [hkept.1]
    decide
  obtain ⟨s', hs, hepolled, hevents, hupdated, hrem⟩ :=
    h.epolled.remove hfd ha hknown hkept.2.2.2
  obtain ⟨t', ht, hpolled, hevents'⟩ := h.polled.remove hfd ha hst
  refine ⟨_, s', t', hs, ht, hepolled, hpolled, fun b => ?_, fun b hb => ?_, fun b hb => ?_⟩
  · rw [hevents', hevents, h.events b]
  · have hne : b ≠ a := by
      rintro rfl
      rw [Function.update_self] at hb
      cases hb
    rw [Function.update_of_ne hne] at hb
    rw [hupdated]
    exact h.fresh b hb
  · by_cases hne : b = a
    · rw [hrem, hne, Function.update_self]
    · rw [Function.update_of_ne hne] at hb
      rw [hrem, Function.update_of_ne hne]
      exact h.removed b hb

end Step

theorem exec_agree {live : ℕ → Prop} {fd : ℕ → ℤ} (hfd : Distinct live fd)
    (s : State EPollPoller) (t : State PollPoller) (l : Label)
    (h : ∃ st, Alike live fd st s t) (hl : Enabled live s l ∧ Plain s l) :
    Agree (fun s t => ∃ st, Alike live fd st s t) (fun _ _ => True) (exec epoll s l)
      (exec poll t l) := by
  obtain ⟨st, h⟩ := h
  cases l with
  | update u a =>
      obtain ⟨st', s', t', hs, ht, halike⟩ := h.update hfd hl.1 hl.2
      rw [hs, ht]
      exact .ok ⟨st', halike⟩
  | remove a =>
      obtain ⟨⟨ha, hupdated, hnone⟩, hplain⟩ := hl
      have hkept := h.epolled.kept a ha
      cases hst : st a with
      | fresh =>
          rw [h.fresh a hst] at hupdated
          cases hupdated
      | watched => exact absurd (hkept.index_eq_kAdded.mpr hst) hplain
      | ignored =>
          obtain ⟨st', s', t', hs, ht, halike⟩ := h.remove hfd ha hst
          rw [hs, ht]
          exact .ok ⟨st', halike⟩
      | removed =>
          have hnone' : (t.heap a).isNoneEvent = true := by
            rw [isNoneEvent_eq, h.events a, ← isNoneEvent_eq]
            exact hnone
          obtain ⟨e, he⟩ := h.epolled.remove_again ha hst hnone
          obtain ⟨d, hd⟩ := h.polled.remove_again ha hst hnone'
          rw [he, hd]
          exact .error trivial

/-- On plain operations the two pollers fail together, and as long as they do not fail the
kernel watches the same for both. -/
theorem pollers_interchangeable (live : ℕ → Prop) (fd : ℕ → ℤ) (hfd : Distinct live fd)
    (ls : List Label)
    (hl : LegalRun (exec epoll) (fun s l => Enabled live s l ∧ Plain s l) (start .init fd) ls) :
    Agree SameWatch (fun _ _ => True) (run (exec epoll) (start .init fd) ls)
      (run (exec poll) (start .init fd) ls) := by
  refine (run_agree (exec_agree hfd) ⟨_, start_alike live fd⟩ hl).mono ?_
  rintro s t ⟨st, halike⟩
  exact halike.sameWatch hfd

/-- Three channels; the one in the middle of the array is removed while another has
already been removed from its end. -/
def removedInTheMiddle : List Label :=
  [.update .enableReading 1, .update .enableWriting 2, .update .enableReading 3,
    .update .disableAll 3, .remove 3, .update .disableWriting 2, .update .enableReading 2,
    .update .disableAll 1, .remove 1, .update .enableWriting 2]

theorem pollers_interchangeable_three :
    Distinct (· < 8) (fun a => (a : ℤ) + 5) ∧
      LegalRun (exec epoll) (fun s l => Enabled (· < 8) s l ∧ Plain s l)
        (start .init fun a => (a : ℤ) + 5) removedInTheMiddle ∧
      Agree SameWatch (fun _ _ => True)
        (run (exec epoll) (start .init fun a => (a : ℤ) + 5) removedInTheMiddle)
        (run (exec poll) (start .init fun a => (a : ℤ) + 5) removedInTheMiddle) :=
  have hfd : Distinct (· < 8) (fun a => (a : ℤ) + 5) := by
    constructor
    · intro a b _ _ h
      omega
    · intro a _
      omega
  have hlegal : LegalRun (exec epoll) (fun s l => Enabled (· < 8) s l ∧ Plain s l)
      (start .init fun a => (a : ℤ) + 5) removedInTheMiddle := by
    decide +kernel
  ⟨hfd, hlegal, pollers_interchangeable _ _ hfd removedInTheMiddle hlegal⟩

/-- The destructor of an acceptor that never listened: `disableAll` and `remove` on a new
channel. The epoll poller takes it, the other one fails an assertion. -/
theorem acceptor_that_never_listened :
    LegalRun (exec epoll) (Enabled (· < 8)) (start .init fun a => (a : ℤ) + 5)
        [.update .disableAll 3, .remove 3] ∧
      (∃ s, run (exec epoll) (start .init fun a => (a : ℤ) + 5)
        [.update .disableAll 3, .remove 3] = .ok s ∧ s.poller.interest 8 = none) ∧
      Outcome (fun _ => False) (fun fault => fault = .poller .removeFd)
        (run (exec poll) (start .init fun a => (a : ℤ) + 5)
          [.update .disableAll 3, .remove 3]) := by
  decide +kernel

end Muduo.System.Polling
