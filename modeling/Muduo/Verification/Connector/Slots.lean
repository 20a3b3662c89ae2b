import Muduo.System.Connecting
import Muduo.Verification.Poller.Tracking

/-! What `channel_` stands for, and the effect of each function of the connector as an
equation. -/

namespace Muduo.Net

open Library

theorem EPollPoller.forget_watch {c c' : Channel} (p : EPollPoller) (h : c.fd = c'.fd) :
    (p.watch c).forget c' = p.forget c' := by
  simp [EPollPoller.watch, EPollPoller.forget, h]

theorem EPollPoller.forget_init (c : Channel) : EPollPoller.init.forget c = .init := by
  simp only [EPollPoller.forget, EPollPoller.init, EPollPoller.mk.injEq]
  exact ⟨Function.update_eq_self c.fd _, Function.update_eq_self c.fd _⟩

namespace Connector

/-- `channel_` is null, it is the registered channel of the socket `i`, or it is that channel
after `removeAndResetChannel`. -/
inductive Slot where
  | empty
  | registered (sockfd : ℤ) (i : ℕ)
  | removed (sockfd : ℤ) (i : ℕ)

namespace Slot

/-- The channel of an attempt that waits for its socket. -/
def waiting (sockfd : ℤ) (i : ℕ) : Channel := (Channel.init (i + 1) sockfd).next ⟨false, true⟩

def channel : Slot → Option Channel
  | .empty => none
  | .registered sockfd i => some (waiting sockfd i)
  | .removed sockfd i => some (.init (i + 1) sockfd)

def poller : Slot → EPollPoller
  | .registered sockfd i => EPollPoller.init.watch (waiting sockfd i)
  | _ => .init

def owned : Slot → List (ℤ × ℕ)
  | .registered sockfd i => [(sockfd, i)]
  | _ => []

/-- How many calls of `resetChannel` are due. -/
def resets : Slot → ℕ
  | .removed _ _ => 1
  | _ => 0

def address : Slot → Option ℕ
  | .empty => none
  | .registered _ i => some (i + 1)
  | .removed _ i => some (i + 1)

def IsRegistered : Slot → Prop
  | .registered _ _ => True
  | _ => False

theorem channel_address (slot : Slot) : slot.channel.map Channel.self = slot.address := by
  cases slot <;> rfl

theorem channel_eq_none {slot : Slot} : slot.channel = none ↔ slot = .empty := by
  cases slot <;> simp [channel]

end Slot

/-- The sockets in `hand` are held by the function that is running. -/
structure Core (w : World) (slot : Slot) (hand : List (ℤ × ℕ)) : Prop where
  channel : w.self.channel = slot.channel
  poller : w.loop.poller = slot.poller
  sockets : w.sockets.Sound (hand ++ slot.owned)

namespace World

/-- After `connecting` on the socket `i`. -/
def registered (w : World) (sockfd : ℤ) (i : ℕ) : World :=
  { w with
    loop := { w.loop with poller := (Slot.registered sockfd i).poller }
    self := { w.self with state := .kConnecting, channel := (Slot.registered sockfd i).channel } }

/-- After `removeAndResetChannel` on the channel of the socket `i`. -/
def removed (w : World) (sockfd : ℤ) (i : ℕ) : World :=
  { w with
    loop := { w.loop with poller := .init }.queueInLoop .resetChannel
    self := { w.self with channel := (Slot.removed sockfd i).channel } }

def create (w : World) (sockfd : ℤ) : World := { w with sockets := w.sockets.create sockfd }

theorem retry_eq (w : World) (sockfd : ℤ) : w.retry sockfd =
    { w with
      sockets := w.sockets.close sockfd
      timers := if w.self.connect then w.timers ++ [w.self.retryDelayMs] else w.timers
      self := { w.self with
        state := .kDisconnected
        retryDelayMs := if w.self.connect then min (w.self.retryDelayMs * 2) kMaxRetryDelayMs
          else w.self.retryDelayMs } } := by
  cases hconnect : w.self.connect <;> simp [World.retry, World.close, World.setState, hconnect]

section Retry

variable (w : World) (sockfd : ℤ)

@[simp] theorem retry_state : (w.retry sockfd).self.state = .kDisconnected := by rw [retry_eq]

@[simp] theorem retry_channel : (w.retry sockfd).self.channel = w.self.channel := by rw [retry_eq]

@[simp] theorem retry_loop : (w.retry sockfd).loop = w.loop := by rw [retry_eq]

@[simp] theorem retry_stack : (w.retry sockfd).stack = w.stack := by rw [retry_eq]

@[simp] theorem retry_sockets : (w.retry sockfd).sockets = w.sockets.close sockfd := by
  rw [retry_eq]

@[simp] theorem retry_timers : (w.retry sockfd).timers =
    if w.self.connect then w.timers ++ [w.self.retryDelayMs] else w.timers := by rw [retry_eq]

end Retry

end World

variable {w : World} {slot : Slot} {sockfd : ℤ} {i : ℕ} {hand : List (ℤ × ℕ)}

theorem Core.create (h : Core w slot []) (hfd : w.sockets.names sockfd = none) :
    Core (w.create sockfd) slot [(sockfd, w.sockets.created)] :=
  ⟨h.channel, h.poller, h.sockets.create hfd⟩

theorem Core.close (h : Core w slot [(sockfd, i)]) : Core (w.close sockfd) slot [] :=
  ⟨h.channel, h.poller, h.sockets.close⟩

theorem Core.retry (h : Core w slot [(sockfd, i)]) : Core (w.retry sockfd) slot [] where
  channel := (w.retry_channel sockfd).trans h.channel
  poller := (congrArg _ (w.retry_loop sockfd)).trans h.poller
  sockets := by
    rw [World.retry_sockets]
    exact h.sockets.close

theorem Core.setState (h : Core w slot hand) (state : States) :
    Core (w.setState state) slot hand :=
  ⟨h.channel, h.poller, h.sockets⟩

theorem Core.registered (h : Core w .empty [(sockfd, i)]) :
    Core (w.registered sockfd i) (.registered sockfd i) [] :=
  ⟨rfl, rfl, h.sockets⟩

theorem Core.removed (h : Core w (.registered sockfd i) []) :
    Core (w.removed sockfd i) (.removed sockfd i) [(sockfd, i)] :=
  ⟨rfl, rfl, h.sockets⟩

/-- The kernel reports events only for a registered channel. -/
theorem Core.isRegistered (h : Core w slot hand) {c : Channel} (hc : c ∈ w.self.channel)
    {events : Events} (hevents : events ∈ w.loop.poller.interest c.fd) :
    slot.IsRegistered ∧ slot.address = some c.self := by
  rw [h.channel] at hc
  rw [h.poller] at hevents
  cases slot with
  | empty => cases hc
  | removed sockfd i => cases hevents
  | registered sockfd i =>
      obtain rfl := Option.mem_some_iff.mp hc
      exact ⟨trivial, rfl⟩

/-! ### `connecting` and `removeAndResetChannel` -/

theorem Core.connecting (h : Core w .empty [(sockfd, i)]) (hi : w.sockets.created = i + 1) :
    w.connecting sockfd = .ok (w.registered sockfd i) := by
  have htracked : Tracked (Channel.init (i + 1) sockfd) w.loop.poller := by
    rw [h.poller]
    exact .new rfl rfl rfl
  have hnone : w.self.channel = none := h.channel
  simp only [World.connecting, World.setState, hnone, ensure_of, ok_bind, hi,
    Channel.enableWriting, htracked.modify, h.poller]
  rfl

theorem connecting_of_channel (h : w.self.channel ≠ none) :
    w.connecting sockfd = .error .connecting := by
  rw [World.connecting]
  exact congrArg (· >>= _) (ensure_of_not _ h)

/-- The loop lets the channel be removed: it is the one whose events are handled. -/
def Turn (w : World) (slot : Slot) : Prop :=
  w.loop.eventHandling = true → w.loop.currentActiveChannel = slot.address

theorem Core.removeAndResetChannel (h : Core w (.registered sockfd i) [])
    (hturn : Turn w (.registered sockfd i)) :
    w.removeAndResetChannel = .ok (sockfd, w.removed sockfd i) := by
  let c := Slot.waiting sockfd i
  let l := { w.loop with poller := w.loop.poller.watch (c.next Channel.kNoneEvent) }
  have htracked : Tracked c w.loop.poller := h.poller ▸ Tracked.watch _ _ _
  have hdisable : c.disableAll w.loop = .ok (c.next Channel.kNoneEvent, l) := htracked.modify _
  have hremove : (c.next Channel.kNoneEvent).remove l =
      .ok (.init (i + 1) sockfd, { w.loop with poller := .init }) := by
    have hindex : (c.next Channel.kNoneEvent).index ≠ EPollPoller.kNew := by
      show EPollPoller.kDeleted ≠ EPollPoller.kNew
      decide
    have hfd : c.fd = (c.next Channel.kNoneEvent).fd := rfl
    have hpoller : l.poller.forget (c.next Channel.kNoneEvent) = .init := by
      rw [EPollPoller.forget_watch _ rfl, h.poller, Slot.poller, EPollPoller.forget_watch _ hfd,
        EPollPoller.forget_init]
    rw [Tracked.remove (l := l) (Tracked.watch _ _ _) rfl hindex fun he => .inl (hturn he), hpoller]
    rfl
  have hchannel : w.self.channel = some c := h.channel
  simp only [World.removeAndResetChannel, hchannel, hdisable, Except.mapError, ok_bind, hremove]
  rfl

/-! ### The functions that loop steps call -/

/-- What `connect` may do with its new socket. -/
inductive Attempt (w : World) (sockfd : ℤ) : Slot → World → Slot → Prop
  | close (slot : Slot) : Attempt w sockfd slot ((w.create sockfd).close sockfd) slot
  | retry (slot : Slot) : Attempt w sockfd slot ((w.create sockfd).retry sockfd) slot
  | connecting : Attempt w sockfd .empty ((w.create sockfd).registered sockfd w.sockets.created)
      (.registered sockfd w.sockets.created)

/-- What the handlers and `stopInLoop` do when the attempt has not succeeded. -/
inductive Release (w : World) : Slot → World → Slot → Prop
  | skip (slot : Slot) (h : w.self.state ≠ .kConnecting) : Release w slot w slot
  | retry (sockfd : ℤ) (i : ℕ) : Release w (.registered sockfd i)
      ((w.removed sockfd i).retry sockfd) (.removed sockfd i)

/-- What `handleWrite` does when it has. -/
inductive Establish (w : World) : Slot → World → Slot → Prop
  | hand (sockfd : ℤ) (i : ℕ) (h : w.self.connect = true) : Establish w (.registered sockfd i)
      (((w.removed sockfd i).setState .kConnected).newConnectionCallback sockfd)
      (.removed sockfd i)
  | close (sockfd : ℤ) (i : ℕ) (h : w.self.connect = false) : Establish w (.registered sockfd i)
      (((w.removed sockfd i).setState .kConnected).close sockfd) (.removed sockfd i)

/-- An attempt waits exactly for the socket of a registered channel. -/
def Waits (w : World) (slot : Slot) : Prop := w.self.state = .kConnecting → slot.IsRegistered

theorem Core.connect (h : Core w slot []) (hfd : w.sockets.names sockfd = none)
    (savedErrno : Errno) :
    Outcome (fun w' => ∃ slot', Attempt w sockfd slot w' slot')
      (fun f => f = .connecting ∧ slot ≠ .empty) (w.connect sockfd savedErrno) := by
  have hconnecting : Outcome (fun w' => ∃ slot', Attempt w sockfd slot w' slot')
      (fun f => f = .connecting ∧ slot ≠ .empty) ((w.create sockfd).connecting sockfd) := by
    by_cases hslot : slot = .empty
    · subst hslot
      rw [(h.create hfd).connecting rfl]
      exact .ok ⟨_, .connecting⟩
    · rw [connecting_of_channel]
      · exact .error ⟨rfl, hslot⟩
      · rwa [(h.create hfd).channel, ne_eq, Slot.channel_eq_none]
  cases savedErrno with
  | zero => exact hconnecting
  | EINPROGRESS => exact hconnecting
  | EINTR => exact hconnecting
  | EISCONN => exact hconnecting
  | EAGAIN => exact .ok ⟨_, .retry slot⟩
  | EADDRINUSE => exact .ok ⟨_, .retry slot⟩
  | EADDRNOTAVAIL => exact .ok ⟨_, .retry slot⟩
  | ECONNREFUSED => exact .ok ⟨_, .retry slot⟩
  | ENETUNREACH => exact .ok ⟨_, .retry slot⟩
  | _ => exact .ok ⟨_, .close slot⟩

/-- A connector that waits has a registered channel, which can be removed. -/
theorem Core.removeAndResetChannel_of_waits (h : Core w slot []) (hwaits : Waits w slot)
    (hturn : Turn w slot) (hstate : w.self.state = .kConnecting) :
    ∃ sockfd i, slot = .registered sockfd i ∧
      w.removeAndResetChannel = .ok (sockfd, w.removed sockfd i) := by
  cases slot with
  | empty => exact (hwaits hstate).elim
  | removed sockfd i => exact (hwaits hstate).elim
  | registered sockfd i => exact ⟨sockfd, i, rfl, h.removeAndResetChannel hturn⟩

theorem Core.handleError (h : Core w slot []) (hwaits : Waits w slot) (hturn : Turn w slot) :
    ∃ w' slot', w.handleError = .ok w' ∧ Release w slot w' slot' := by
  rw [World.handleError]
  split_ifs with hstate
  · obtain ⟨sockfd, i, rfl, hremove⟩ := h.removeAndResetChannel_of_waits hwaits hturn hstate
    rw [hremove]
    exact ⟨_, _, rfl, .retry sockfd i⟩
  · exact ⟨w, slot, rfl, .skip slot hstate⟩

theorem Core.stopInLoop (h : Core w slot []) (hwaits : Waits w slot) (hturn : Turn w slot) :
    ∃ w' slot', w.stopInLoop = .ok w' ∧ Release w slot w' slot' := by
  rw [World.stopInLoop]
  split_ifs with hstate
  · obtain ⟨sockfd, i, rfl, hremove⟩ := h.removeAndResetChannel_of_waits hwaits hturn hstate
    -- `state_` is set first here, and `retry` sets it again
    have hremove' := (h.setState .kDisconnected).removeAndResetChannel hturn
    rw [hremove']
    exact ⟨_, _, rfl, .retry sockfd i⟩
  · exact ⟨w, slot, rfl, .skip slot hstate⟩

theorem Core.handleWrite (h : Core w slot []) (hwaits : Waits w slot) (hturn : Turn w slot)
    (err : ℕ) (isSelfConnect : Bool) :
    Outcome (fun w' => ∃ slot', Release w slot w' slot' ∨ Establish w slot w' slot')
      (fun f => f = .handleWrite ∧ w.self.state = .kConnected)
      (w.handleWrite err isSelfConnect) := by
  rw [World.handleWrite]
  by_cases hstate : w.self.state = .kConnecting
  · obtain ⟨sockfd, i, rfl, hremove⟩ := h.removeAndResetChannel_of_waits hwaits hturn hstate
    rw [if_pos hstate, hremove, ok_bind]
    dsimp only
    split_ifs with herr hself hconnect
    · exact .ok ⟨_, .inl (.retry sockfd i)⟩
    · exact .ok ⟨_, .inl (.retry sockfd i)⟩
    · exact .ok ⟨_, .inr (.hand sockfd i hconnect)⟩
    · exact .ok ⟨_, .inr (.close sockfd i (eq_false_of_ne_true hconnect))⟩
  · rw [if_neg hstate]
    cases hw : w.self.state with
    | kDisconnected => exact .ok ⟨slot, .inl (.skip slot hstate)⟩
    | kConnecting => exact absurd hw hstate
    | kConnected => exact .error ⟨rfl, rfl⟩

theorem Core.resetChannel (h : Core w (.removed sockfd i) []) :
    w.resetChannel = .ok (w.setChannel none) := by
  have hchannel : w.self.channel = some (.init (i + 1) sockfd) := h.channel
  have hpoller : w.loop.poller = .init := h.poller
  rw [World.resetChannel, hchannel]
  simp only [hpoller]
  rfl

end Connector

end Muduo.Net
