import Muduo.Verification.Connection.Closing

/-! What the methods of a connection leave alone: the rest of the poller, the state of the
loop, and `reading_`. -/

namespace Muduo.Net

open Library TcpConnection

/-- The poller may have changed at one descriptor only. -/
structure EPollPoller.Elsewhere (fd : ℤ) (p p' : EPollPoller) : Prop where
  channels : ∀ f ≠ fd, p'.channels f = p.channels f
  interest : ∀ f ≠ fd, p'.interest f = p.interest f

namespace EPollPoller

theorem Elsewhere.refl (fd : ℤ) (p : EPollPoller) : Elsewhere fd p p :=
  ⟨fun _ _ => rfl, fun _ _ => rfl⟩

theorem Elsewhere.trans {fd : ℤ} {p p' p'' : EPollPoller} (h : Elsewhere fd p p')
    (h' : Elsewhere fd p' p'') : Elsewhere fd p p'' where
  channels f hf := (h'.channels f hf).trans (h.channels f hf)
  interest f hf := (h'.interest f hf).trans (h.interest f hf)

theorem Elsewhere.setChannel (p : EPollPoller) (fd : ℤ) (a : Option ℕ) :
    Elsewhere fd p { p with channels := Function.update p.channels fd a } :=
  ⟨fun _ hf => Function.update_of_ne hf _ _, fun _ _ => rfl⟩

theorem elsewhere_update {p p' : EPollPoller} {operation : Operation} {c : Channel}
    (h : p.update operation c = .ok p') : Elsewhere c.fd p p' := by
  unfold EPollPoller.update at h
  split at h
  next interest hctl =>
    obtain rfl := Except.ok.inj h
    refine ⟨fun _ _ => rfl, fun f hf => ?_⟩
    cases operation <;> simp only [epollCtl] at hctl <;> split at hctl <;> cases hctl <;>
      exact Function.update_of_ne hf _ _
  next =>
    split at h
    · obtain rfl := Except.ok.inj h
      exact .refl _ _
    · cases h

/-- What a channel keeps when the poller handles it. -/
theorem elsewhere_updateChannel {p : EPollPoller} {c : Channel} {r : EPollPoller × Channel}
    (h : p.updateChannel c = .ok r) :
    Elsewhere c.fd p r.1 ∧ r.2.fd = c.fd ∧ r.2.self = c.self := by
  unfold EPollPoller.updateChannel at h
  split at h
  · dsimp only at h
    split at h
    · obtain ⟨-, h⟩ := of_ensure_bind h
      obtain ⟨p₁, hp₁, h⟩ := of_bind h
      obtain rfl := Except.ok.inj hp₁
      obtain ⟨p₂, hp₂, h⟩ := of_bind h
      obtain rfl := Except.ok.inj h
      exact ⟨.trans (.setChannel p c.fd _) (elsewhere_update hp₂), rfl, rfl⟩
    · obtain ⟨-, h⟩ := of_ensure_bind h
      obtain ⟨p₁, hp₁, h⟩ := of_bind h
      obtain rfl := Except.ok.inj hp₁
      obtain ⟨p₂, hp₂, h⟩ := of_bind h
      obtain rfl := Except.ok.inj h
      exact ⟨elsewhere_update hp₂, rfl, rfl⟩
  · obtain ⟨-, h⟩ := of_ensure_bind h
    obtain ⟨-, h⟩ := of_ensure_bind h
    split at h
    all_goals
      obtain ⟨p₁, hp₁, h⟩ := of_bind h
      obtain rfl := Except.ok.inj h
      exact ⟨elsewhere_update hp₁, rfl, rfl⟩

theorem elsewhere_removeChannel {p : EPollPoller} {c : Channel} {r : EPollPoller × Channel}
    (h : p.removeChannel c = .ok r) :
    Elsewhere c.fd p r.1 ∧ r.2.fd = c.fd ∧ r.2.self = c.self := by
  unfold EPollPoller.removeChannel at h
  obtain ⟨-, h⟩ := of_ensure_bind h
  obtain ⟨-, h⟩ := of_ensure_bind h
  obtain ⟨-, h⟩ := of_ensure_bind h
  dsimp only at h
  split at h
  · obtain ⟨p₁, hp₁, h⟩ := of_bind h
    obtain rfl := Except.ok.inj h
    exact ⟨.trans (.setChannel p c.fd none) (elsewhere_update hp₁), rfl, rfl⟩
  · obtain rfl := Except.ok.inj h
    exact ⟨.setChannel p c.fd none, rfl, rfl⟩

end EPollPoller

namespace World

/-- A method has kept to its own connection: its descriptor in the poller, and functors of
a certain kind in the queue. -/
structure Confined (Queues : Functor → Prop) (w w' : World) : Prop where
  fd : w'.conn.channel.fd = w.conn.channel.fd
  self : w'.conn.channel.self = w.conn.channel.self
  reading : w'.conn.reading = w.conn.reading
  elsewhere : w.loop.poller.Elsewhere w.conn.channel.fd w'.loop.poller
  eventHandling : w'.loop.eventHandling = w.loop.eventHandling
  activeChannels : w'.loop.activeChannels = w.loop.activeChannels
  current : w'.loop.currentActiveChannel = w.loop.currentActiveChannel
  queued : ∃ fs, w'.loop.pendingFunctors = w.loop.pendingFunctors ++ fs ∧ ∀ f ∈ fs, Queues f

/-- What a method queues in its own loop. -/
def IsOwn (f : Functor) : Prop := f.IsCallback ∨ f = .forceCloseInLoop

section Confined

variable {Queues : Functor → Prop} {w w' w'' : World}

theorem Confined.refl (w : World) : Confined Queues w w :=
  ⟨rfl, rfl, rfl, .refl _ _, rfl, rfl, rfl, [], by simp, by simp⟩

theorem Confined.trans (h : Confined Queues w w') (h' : Confined Queues w' w'') :
    Confined Queues w w'' := by
  obtain ⟨fs, hfs, hq⟩ := h.queued
  obtain ⟨fs', hfs', hq'⟩ := h'.queued
  refine ⟨h'.fd.trans h.fd, h'.self.trans h.self, h'.reading.trans h.reading,
    h.elsewhere.trans (h.fd ▸ h'.elsewhere), h'.eventHandling.trans h.eventHandling,
    h'.activeChannels.trans h.activeChannels, h'.current.trans h.current, fs ++ fs', ?_, ?_⟩
  · rw [hfs', hfs, List.append_assoc]
  · intro f hf
    rcases List.mem_append.mp hf with hf | hf
    · exact hq f hf
    · exact hq' f hf

/-- Only the buffers, `state_`, the socket, the stack or the trace have changed. -/
theorem Confined.of_loop (hchannel : w'.conn.channel = w.conn.channel)
    (hreading : w'.conn.reading = w.conn.reading) (hloop : w'.loop = w.loop) :
    Confined Queues w w' := by
  refine ⟨by rw [hchannel], by rw [hchannel], hreading, ?_, by rw [hloop], by rw [hloop],
    by rw [hloop], [], by rw [hloop, List.append_nil], by simp⟩
  rw [hloop]
  exact .refl _ _

theorem Confined.setState (w : World) (state : StateE) : Confined Queues w (w.setState state) :=
  .of_loop rfl rfl rfl

theorem Confined.queueInLoop (w : World) {f : Functor} (h : Queues f) :
    Confined Queues w (w.queueInLoop f) :=
  ⟨rfl, rfl, rfl, .refl _ _, rfl, rfl, rfl, [f], rfl, by simpa using h⟩

theorem Confined.onChannel {op : Channel → EventLoop Functor →
      Except EventLoop.Fault (Channel × EventLoop Functor)}
    (hop : ∀ (c : Channel) (l : EventLoop Functor) r, op c l = .ok r →
      r.1.fd = c.fd ∧ r.1.self = c.self ∧ ∃ p, r.2 = { l with poller := p } ∧
        l.poller.Elsewhere c.fd p)
    (h : w.onChannel op = .ok w') : Confined Queues w w' := by
  unfold World.onChannel at h
  obtain ⟨r, hr, h⟩ := of_bind h
  obtain ⟨hfd, hself, p, hp, helse⟩ := hop _ _ _ (of_mapError hr)
  obtain rfl := Except.ok.inj h
  refine ⟨hfd, hself, rfl, ?_, ?_, ?_, ?_, [], ?_, by simp⟩ <;> simp only [hp]
  · exact helse
  · rw [List.append_nil]

theorem Confined.modify {f : Events → Events} (h : w.onChannel (Channel.modify f) = .ok w') :
    Confined Queues w w' := by
  apply Confined.onChannel _ h
  intro c l r hr
  unfold Channel.modify Channel.update EventLoop.updateChannel at hr
  obtain ⟨x, hx, hr⟩ := of_bind hr
  obtain rfl := Except.ok.inj hr
  obtain ⟨helse, hfd, hself⟩ := EPollPoller.elsewhere_updateChannel (of_mapError hx)
  exact ⟨hfd, hself, x.1, rfl, helse⟩

end Confined

section Methods

variable {w w' : World}

theorem Confined.writeDirectly (w : World) (data : List UInt8) (r : WriteResult) :
    Confined IsOwn w (w.writeDirectly data r).1 := by
  cases r with
  | failed errno => exact .refl w
  | wrote n =>
      simp only [World.writeDirectly]
      split
      · have h₁ : Confined IsOwn w { w with socket := w.socket.write (data.take n) } :=
          .of_loop rfl rfl rfl
        exact h₁.trans (.queueInLoop _ (.inl trivial))
      · exact .of_loop rfl rfl rfl

theorem Confined.bufferRest {rest : List UInt8} (h : w.bufferRest rest = .ok w') :
    Confined IsOwn w w' := by
  unfold World.bufferRest at h
  extract_lets oldLen w₁ at h
  have h₁ : Confined IsOwn w w₁ := by
    simp only [w₁]
    split
    · exact .queueInLoop w (.inl trivial)
    · exact .refl w
  obtain ⟨output, -, h⟩ := of_bind h
  have h₂ : Confined IsOwn w (w₁.setOutput output) := h₁.trans (.of_loop rfl rfl rfl)
  dsimp only at h
  split at h
  · obtain rfl := Except.ok.inj h
    exact h₂
  · exact h₂.trans (.modify h)

theorem Confined.sendInLoop {data : List UInt8} {r : WriteResult}
    (h : w.sendInLoop data r = .ok w') : Confined IsOwn w w' := by
  unfold World.sendInLoop at h
  split at h
  · obtain rfl := Except.ok.inj h
    exact .refl w
  · split at h
    next w₁ nwrote faultError hwrite =>
      have h₁ : Confined IsOwn w w₁ := by
        split at hwrite
        · have := Confined.writeDirectly w data r
          rwa [hwrite] at this
        · obtain ⟨rfl, -, -⟩ := Prod.mk.inj hwrite
          exact .refl w
      obtain ⟨-, h⟩ := of_ensure_bind h
      split at h
      · exact h₁.trans (.bufferRest h)
      · obtain rfl := Except.ok.inj h
        exact h₁

theorem Confined.shutdownInLoop (w : World) : Confined IsOwn w w.shutdownInLoop := by
  unfold World.shutdownInLoop
  split
  · exact .refl w
  · exact .of_loop rfl rfl rfl

theorem Confined.writeDone (h : w.writeDone = .ok w') : Confined IsOwn w w' := by
  unfold World.writeDone at h
  obtain ⟨w₁, hw₁, h⟩ := of_bind h
  have h₁ : Confined IsOwn w w₁ := .modify hw₁
  extract_lets w₂ at h
  have h₂ : Confined IsOwn w w₂ := by
    simp only [w₂]
    split
    · exact h₁.trans (.queueInLoop _ (.inl trivial))
    · exact h₁
  obtain rfl := Except.ok.inj h
  split
  · exact h₂.trans (.shutdownInLoop _)
  · exact h₂

theorem Confined.handleWrite {r : WriteResult} (h : w.handleWrite r = .ok w') :
    Confined IsOwn w w' := by
  unfold World.handleWrite at h
  split at h
  · split at h
    · split at h
      · extract_lets w₁ at h
        obtain ⟨output, -, h⟩ := of_bind h
        have h₁ : Confined IsOwn w (w₁.setOutput output) := .of_loop rfl rfl rfl
        dsimp only at h
        split at h
        · exact h₁.trans (.writeDone h)
        · obtain rfl := Except.ok.inj h
          exact h₁
      · obtain rfl := Except.ok.inj h
        exact .refl w
    · obtain rfl := Except.ok.inj h
      exact .refl w
  · obtain rfl := Except.ok.inj h
    exact .refl w

theorem Confined.connectEstablished (h : w.connectEstablished = .ok w') : Confined IsOwn w w' := by
  unfold World.connectEstablished at h
  obtain ⟨-, h⟩ := of_ensure_bind h
  obtain ⟨w₁, hw₁, h⟩ := of_bind h
  have h₁ : Confined IsOwn (w.setState .kConnected) w₁ := .modify hw₁
  obtain rfl := Except.ok.inj h
  exact (Confined.setState w _).trans (h₁.trans (.of_loop rfl rfl rfl))

theorem Confined.handleClose (h : w.handleClose = .ok w') : Confined IsOwn w w' := by
  unfold World.handleClose at h
  extract_lets w₀ at h
  obtain ⟨-, h⟩ := of_ensure_bind h
  obtain ⟨w₁, hw₁, h⟩ := of_bind h
  have h₁ : Confined IsOwn (w₀.setState .kDisconnected) w₁ := .modify hw₁
  have h₀ : Confined IsOwn w (w₀.setState .kDisconnected) := .of_loop rfl rfl rfl
  obtain rfl := Except.ok.inj h
  exact h₀.trans (h₁.trans (.of_loop rfl rfl rfl))

theorem Confined.handleRead {read : Except ℕ (List UInt8)} (h : w.handleRead read = .ok w') :
    Confined IsOwn w w' := by
  unfold World.handleRead at h
  obtain ⟨⟨n, input⟩, -, h⟩ := of_bind h
  cases n with
  | error errno =>
      obtain rfl := Except.ok.inj h
      exact .of_loop rfl rfl rfl
  | ok n =>
      dsimp only at h
      split at h
      · obtain rfl := Except.ok.inj h
        exact .of_loop rfl rfl rfl
      · have h₁ : Confined IsOwn w
            { w with conn := { w.conn with inputBuffer := input } } := .of_loop rfl rfl rfl
        exact h₁.trans (.handleClose h)

theorem Confined.forceCloseInLoop (h : w.forceCloseInLoop = .ok w') : Confined IsOwn w w' := by
  unfold World.forceCloseInLoop at h
  split at h
  · exact .handleClose h
  · obtain rfl := Except.ok.inj h
    exact .refl w

theorem Confined.connectDestroyed (h : w.connectDestroyed = .ok w') : Confined IsOwn w w' := by
  unfold World.connectDestroyed at h
  split at h
  · obtain ⟨w₁, hw₁, h⟩ := of_bind h
    have h₁ : Confined IsOwn (w.setState .kDisconnected) w₁ := .modify hw₁
    obtain rfl := Except.ok.inj h
    exact (Confined.setState w _).trans (h₁.trans (.of_loop rfl rfl rfl))
  · obtain rfl := Except.ok.inj h
    exact .of_loop rfl rfl rfl

theorem Confined.remove (h : w.remove = .ok w') : Confined IsOwn w w' := by
  unfold World.remove at h
  obtain ⟨w₁, hw₁, h⟩ := of_bind h
  obtain rfl := Except.ok.inj h
  refine .trans (Confined.onChannel ?_ hw₁) (.of_loop rfl rfl rfl)
  intro c l r hr
  unfold Channel.remove EventLoop.removeChannel at hr
  obtain ⟨-, hr⟩ := of_ensure_bind hr
  obtain ⟨-, hr⟩ := of_ensure_bind hr
  obtain ⟨x, hx, hr⟩ := of_bind hr
  obtain rfl := Except.ok.inj hr
  obtain ⟨helse, hfd, hself⟩ := EPollPoller.elsewhere_removeChannel (of_mapError hx)
  exact ⟨hfd, hself, x.1, rfl, helse⟩

theorem Confined.send {message : List UInt8} {r : WriteResult} (h : w.send message r = .ok w') :
    Confined IsOwn w w' := by
  unfold World.send at h
  split at h
  · exact .sendInLoop h
  · obtain rfl := Except.ok.inj h
    exact .refl w

theorem Confined.shutdown (w : World) : Confined IsOwn w w.shutdown := by
  unfold World.shutdown
  split
  · exact (Confined.setState w _).trans (.shutdownInLoop _)
  · exact .refl w

theorem Confined.forceClose (w : World) : Confined IsOwn w w.forceClose := by
  unfold World.forceClose
  split
  · exact (Confined.setState w _).trans (.queueInLoop _ (.inr rfl))
  · exact .refl w

end Methods

/-! ### The shapes depend on one descriptor of the poller -/

/-- After `channel_->remove()`. -/
structure Cleared (w : World) : Prop where
  state : w.conn.state = .kDisconnected
  added : w.conn.channel.addedToLoop = false
  index : w.conn.channel.index = EPollPoller.kNew
  unknown : w.loop.poller.channels w.conn.channel.fd = none
  unwatched : w.loop.poller.interest w.conn.channel.fd = none

section Local

variable {w w' : World}

/-- The connection is the same, and so is what the poller knows of its descriptor. -/
structure SameHere (w w' : World) : Prop where
  conn : w'.conn = w.conn
  socket : w'.socket = w.socket
  channels : w'.loop.poller.channels w.conn.channel.fd =
    w.loop.poller.channels w.conn.channel.fd
  interest : w'.loop.poller.interest w.conn.channel.fd =
    w.loop.poller.interest w.conn.channel.fd

theorem SameHere.tracked (h : SameHere w w') (ht : w.Tracked) : w'.Tracked := by
  rw [World.Tracked, h.conn]
  cases ht with
  | new hindex hmap hkernel => exact .new hindex (h.channels.trans hmap) (h.interest.trans hkernel)
  | added hindex hmap hkernel =>
      exact .added hindex (h.channels.trans hmap) (h.interest.trans hkernel)
  | deleted hindex hmap hkernel =>
      exact .deleted hindex (h.channels.trans hmap) (h.interest.trans hkernel)

theorem SameHere.fresh (h : SameHere w w') (hw : w.Fresh) : w'.Fresh where
  state := h.conn ▸ hw.state
  channel := h.conn ▸ hw.channel
  input := h.conn ▸ hw.input
  output := h.conn ▸ hw.output
  unknown := by rw [h.conn, h.channels, hw.unknown]
  unwatched := by rw [h.conn, h.interest, hw.unwatched]
  socket := h.socket.trans hw.socket

theorem SameHere.isOpen (h : SameHere w w') (hw : w.Open) : w'.Open where
  tracked := h.tracked hw.tracked
  tight := h.conn ▸ hw.tight
  input := h.conn ▸ hw.input
  output := h.conn ▸ hw.output
  writing := h.conn ▸ hw.writing
  state := h.conn ▸ hw.state
  reading := h.conn ▸ hw.reading

theorem SameHere.shut (h : SameHere w w') (hw : w.Shut) : w'.Shut where
  tracked := h.tracked hw.tracked
  known := h.conn ▸ hw.known
  input := h.conn ▸ hw.input
  output := h.conn ▸ hw.output
  state := h.conn ▸ hw.state
  silent := h.conn ▸ hw.silent

theorem SameHere.cleared (h : SameHere w w') (hw : w.Cleared) : w'.Cleared where
  state := h.conn ▸ hw.state
  added := h.conn ▸ hw.added
  index := h.conn ▸ hw.index
  unknown := by rw [h.conn, h.channels, hw.unknown]
  unwatched := by rw [h.conn, h.interest, hw.unwatched]

theorem Shut.removed_cleared (h : w.Shut) : w.removed.Cleared where
  state := h.state
  added := rfl
  index := rfl
  unknown := Function.update_self ..
  unwatched := Function.update_self ..

end Local

end World

end Muduo.Net
