import Muduo.Net.TcpConnection

/-! What the epoll poller knows about one channel, and the effect of a channel
operation as an equation. -/

namespace Muduo.Net

open Library EPollPoller

/-- `kNew`, `kAdded` and `kDeleted` say what the map and the kernel hold. -/
inductive Tracked (c : Channel) (p : EPollPoller) : Prop where
  | new (hindex : c.index = kNew) (hmap : p.channels c.fd = none)
      (hkernel : p.interest c.fd = none)
  | added (hindex : c.index = kAdded) (hmap : p.channels c.fd = some c.self)
      (hkernel : p.interest c.fd = some c.events)
  | deleted (hindex : c.index = kDeleted) (hmap : p.channels c.fd = some c.self)
      (hkernel : p.interest c.fd = none)

/-- The channel after an update to the mask `e`. An update from `kDeleted` adds the
descriptor again, even when `e` is empty. -/
def Channel.next (c : Channel) (e : Events) : Channel :=
  { c with
    events := e
    addedToLoop := true
    index := if c.index = kAdded ∧ e = Channel.kNoneEvent then kDeleted else kAdded }

/-- The poller after the update that left the channel as `c`. -/
def EPollPoller.watch (p : EPollPoller) (c : Channel) : EPollPoller where
  channels := Function.update p.channels c.fd (some c.self)
  interest := Function.update p.interest c.fd (if c.index = kAdded then some c.events else none)

namespace Channel

variable (c : Channel) (e : Events)

@[simp] theorem next_events : (c.next e).events = e := rfl

@[simp] theorem next_isWriting : (c.next e).isWriting = e.write := rfl

theorem next_index : (c.next e).index =
    if c.index = kAdded ∧ e = kNoneEvent then kDeleted else kAdded := rfl

end Channel

theorem Tracked.watch (c : Channel) (e : Events) (p : EPollPoller) :
    Tracked (c.next e) (p.watch (c.next e)) := by
  by_cases h : c.index = kAdded ∧ e = Channel.kNoneEvent
  · have hi : (c.next e).index = kDeleted := by rw [Channel.next_index, if_pos h]
    refine .deleted hi (by simp [EPollPoller.watch]) ?_
    simp [EPollPoller.watch, hi, kDeleted, kAdded]
  · have hi : (c.next e).index = kAdded := by rw [Channel.next_index, if_neg h]
    exact .added hi (by simp [EPollPoller.watch]) (by simp [EPollPoller.watch, hi])

theorem isNoneEvent_eq {c : Channel} : c.isNoneEvent = decide (c.events = Channel.kNoneEvent) :=
  rfl

/-- On a tracked channel `updateChannel` passes its assertions and its `epoll_ctl`. -/
theorem Tracked.updateChannel {c : Channel} {p : EPollPoller} (h : Tracked c p) (e : Events) :
    p.updateChannel { c with events := e, addedToLoop := true } =
      .ok (p.watch (c.next e), c.next e) := by
  cases h with
  | new hindex hmap hkernel =>
      simp [EPollPoller.updateChannel, hindex, hmap, EPollPoller.update, epollCtl, hkernel,
        EPollPoller.watch, Channel.next, kNew, kAdded, pure, Except.pure]
  | added hindex hmap hkernel =>
      by_cases he : e = Channel.kNoneEvent <;>
        simp [EPollPoller.updateChannel, hindex, hmap, EPollPoller.update, epollCtl, hkernel,
          EPollPoller.watch, Channel.next, kNew, kAdded, kDeleted, isNoneEvent_eq, he, pure,
          Except.pure]
  | deleted hindex hmap hkernel =>
      simp [EPollPoller.updateChannel, hindex, hmap, EPollPoller.update, epollCtl, hkernel,
        EPollPoller.watch, Channel.next, kNew, kAdded, kDeleted, pure, Except.pure]

/-- The poller after `removeChannel`. -/
def EPollPoller.forget (p : EPollPoller) (c : Channel) : EPollPoller where
  channels := Function.update p.channels c.fd none
  interest := Function.update p.interest c.fd none

theorem Tracked.removeChannel {c : Channel} {p : EPollPoller} (h : Tracked c p)
    (hnone : c.events = Channel.kNoneEvent) (hknown : c.index ≠ kNew) (added : Bool) :
    p.removeChannel { c with addedToLoop := added } =
      .ok (p.forget c, { c with addedToLoop := added, index := kNew }) := by
  cases h with
  | new hindex => exact absurd hindex hknown
  | added hindex hmap hkernel =>
      simp [EPollPoller.removeChannel, hmap, isNoneEvent_eq, hnone, hindex, EPollPoller.update,
        epollCtl, hkernel, EPollPoller.forget, pure, Except.pure]
  | deleted hindex hmap hkernel =>
      have hsame : Function.update p.interest c.fd none = p.interest := by
        rw [← hkernel, Function.update_eq_self]
      simp [EPollPoller.removeChannel, hmap, isNoneEvent_eq, hnone, hindex, EPollPoller.forget,
        hsame, kDeleted, kAdded, pure, Except.pure]

/-! ### The same through the loop -/

variable {φ : Type} {c : Channel} {l : EventLoop φ}

theorem Tracked.modify (h : Tracked c l.poller) (f : Events → Events) :
    c.modify f l =
      .ok (c.next (f c.events), { l with poller := l.poller.watch (c.next (f c.events)) }) := by
  rw [Channel.modify, Channel.update, EventLoop.updateChannel]
  rw [h.updateChannel (f c.events)]
  rfl

theorem Tracked.remove (h : Tracked c l.poller) (hnone : c.events = Channel.kNoneEvent)
    (hknown : c.index ≠ kNew)
    (hturn : l.eventHandling = true →
      l.currentActiveChannel = some c.self ∨ c.self ∉ l.activeChannels) :
    c.remove l =
      .ok ({ c with addedToLoop := false, index := kNew },
        { l with poller := l.poller.forget c }) := by
  have hevents : c.isNoneEvent = true := isNoneEvent_eq.trans (decide_eq_true hnone)
  rw [Channel.remove, ensure_of _ hevents, ok_bind, EventLoop.removeChannel, ensure_of _ hturn,
    ok_bind, h.removeChannel hnone hknown false]
  rfl

end Muduo.Net
