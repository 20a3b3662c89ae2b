import Muduo.Verification.Connection.Stream

/-! Opening, reading and closing: an established connection is open, with its poll
interest and buffers in step, or shut, with no event asked for. -/

namespace Muduo.Net.World

open Library TcpConnection

/-- Between `connectEstablished` and the close. -/
structure Open (w : World) : Prop extends Flowing w where
  state : w.conn.state = .kConnected ∨ w.conn.state = .kDisconnecting
  reading : w.conn.reading = w.conn.channel.isReading

/-- After the close, and before the channel is removed. -/
structure Shut (w : World) : Prop where
  tracked : w.Tracked
  known : w.conn.channel.index ≠ EPollPoller.kNew
  input : w.conn.inputBuffer.Valid
  output : w.conn.outputBuffer.Valid
  state : w.conn.state = .kDisconnected
  silent : w.conn.channel.events = Channel.kNoneEvent

/-- Everything but the buffers, the poll interest, the queue and the socket is the same. -/
structure Kept (w w' : World) : Prop where
  fd : w'.conn.channel.fd = w.conn.channel.fd
  self : w'.conn.channel.self = w.conn.channel.self
  stack : w'.stack = w.stack
  trace : w'.trace = w.trace
  eventHandling : w'.loop.eventHandling = w.loop.eventHandling
  activeChannels : w'.loop.activeChannels = w.loop.activeChannels
  current : w'.loop.currentActiveChannel = w.loop.currentActiveChannel

theorem Kept.refl (w : World) : Kept w w := ⟨rfl, rfl, rfl, rfl, rfl, rfl, rfl⟩

theorem Framed.kept {w w' : World} (h : Framed w w') : Kept w w' :=
  ⟨h.fd, h.self, h.stack, h.trace, h.eventHandling, h.activeChannels, h.current⟩

section Shape

variable {w w' : World}

theorem Open.not_shut (h : w.Open) : w.conn.state ≠ .kDisconnected := by
  rcases h.state with hs | hs <;> simp [hs]

/-- Both shapes are about the connection and the poller alone. -/
theorem Open.congr (h : w.Open) (hconn : w'.conn = w.conn)
    (hpoller : w'.loop.poller = w.loop.poller) : w'.Open := by
  refine ⟨⟨?_, ?_, ?_, ?_, ?_⟩, ?_, ?_⟩
  · simpa only [Tracked, hconn, hpoller] using h.tracked
  · simpa only [hconn] using h.tight
  · simpa only [hconn] using h.input
  · simpa only [hconn] using h.output
  · simpa only [hconn] using h.writing
  · simpa only [hconn] using h.state
  · simpa only [hconn] using h.reading

theorem Shut.congr (h : w.Shut) (hconn : w'.conn = w.conn)
    (hpoller : w'.loop.poller = w.loop.poller) : w'.Shut := by
  refine ⟨?_, ?_, ?_, ?_, ?_, ?_⟩
  · simpa only [Tracked, hconn, hpoller] using h.tracked
  · simpa only [hconn] using h.known
  · simpa only [hconn] using h.input
  · simpa only [hconn] using h.output
  · simpa only [hconn] using h.state
  · simpa only [hconn] using h.silent

theorem Open.of_framed (h : w.Open) (hflow : w'.Flowing) (hframe : Framed w w') : w'.Open where
  toFlowing := hflow
  state := hframe.state ▸ h.state
  reading := by rw [hframe.reading, hframe.isReading, h.reading]

theorem Open.disconnecting (h : w.Open) : (w.setState .kDisconnecting).Open :=
  ⟨h.toFlowing.setState _, .inr rfl, h.reading⟩

theorem Shut.not_writing (h : w.Shut) : w.conn.channel.isWriting = false := by
  simp [Channel.isWriting, h.silent, Channel.kNoneEvent]

theorem Shut.not_reading (h : w.Shut) : w.conn.channel.isReading = false := by
  simp [Channel.isReading, h.silent, Channel.kNoneEvent]

end Shape

theorem Fresh.open {w : World} (h : w.Fresh) (hreading : w.conn.reading = true) :
    w.established.Open := ⟨h.flowing, .inl rfl, hreading⟩

/-- An established connection, closed or not. -/
def Steady (w : World) : Prop := w.Open ∨ w.Shut

theorem Steady.isOpen {w : World} (h : w.Steady) (hs : w.conn.state ≠ .kDisconnected) : w.Open :=
  h.resolve_right fun hshut => hs hshut.state

theorem Steady.congr {w w' : World} (h : w.Steady) (hconn : w'.conn = w.conn)
    (hpoller : w'.loop.poller = w.loop.poller) : w'.Steady :=
  h.imp (fun h => h.congr hconn hpoller) (fun h => h.congr hconn hpoller)

/-- A step that neither opens nor closes, calls or returns; a descriptor that is shut
stays registered or not as it was. -/
structure Evolves (w w' : World) : Prop extends Kept w w' where
  opened : w.Open → w'.Open
  shut : w.Shut → w'.Shut ∧ w'.conn.channel.index = w.conn.channel.index

section Evolves

variable {w w' : World}

theorem Evolves.steady (h : Evolves w w') (hs : w.Steady) : w'.Steady :=
  hs.imp h.opened fun hshut => (h.shut hshut).1

theorem Evolves.refl (w : World) : Evolves w w := ⟨.refl w, id, fun h => ⟨h, rfl⟩⟩

theorem Evolves.of_open (h : w.Open) (hk : Kept w w') (h' : w'.Open) : Evolves w w' :=
  ⟨hk, fun _ => h', fun hs => absurd hs.state h.not_shut⟩

theorem Evolves.of_conn (hk : Kept w w') (hconn : w'.conn = w.conn)
    (hpoller : w'.loop.poller = w.loop.poller) : Evolves w w' :=
  ⟨hk, fun h => h.congr hconn hpoller, fun h => ⟨h.congr hconn hpoller, by rw [hconn]⟩⟩

theorem Evolves.queueInLoop (w : World) (f : Functor) : Evolves w (w.queueInLoop f) :=
  .of_conn ⟨rfl, rfl, rfl, rfl, rfl, rfl, rfl⟩ rfl rfl

theorem Evolves.disconnecting (h : w.conn.state ≠ .kDisconnected) :
    Evolves w (w.setState .kDisconnecting) :=
  ⟨⟨rfl, rfl, rfl, rfl, rfl, rfl, rfl⟩, fun ho => ho.disconnecting,
    fun hs => absurd hs.state h⟩

theorem Evolves.trans {w'' : World} (h : Evolves w w') (h' : Evolves w' w'') :
    Evolves w w'' where
  fd := h'.fd.trans h.fd
  self := h'.self.trans h.self
  stack := h'.stack.trans h.stack
  trace := h'.trace.trans h.trace
  eventHandling := h'.eventHandling.trans h.eventHandling
  activeChannels := h'.activeChannels.trans h.activeChannels
  current := h'.current.trans h.current
  opened := h'.opened ∘ h.opened
  shut hs := ⟨(h'.shut (h.shut hs).1).1, (h'.shut (h.shut hs).1).2.trans (h.shut hs).2⟩

end Evolves

/-! ### Writing -/

theorem Steady.sendInLoop {w : World} (h : w.Steady) (data : List UInt8) (r : WriteResult)
    (hr : r.Within data.length) : ∃ w', w.sendInLoop data r = .ok w' ∧ Evolves w w' := by
  rcases h with h | h
  · obtain ⟨w', hw, hflow, hframe, -, -⟩ := h.toFlowing.sendInLoop data r hr
    exact ⟨w', hw, .of_open h hframe.kept (h.of_framed hflow hframe)⟩
  · exact ⟨w, if_pos h.state, .refl w⟩

theorem Steady.handleWrite {w : World} (h : w.Steady) (r : WriteResult)
    (hr : r.Within w.conn.outputBuffer.readableBytes) :
    ∃ w', w.handleWrite r = .ok w' ∧ Evolves w w' := by
  rcases h with h | h
  · obtain ⟨w', hw, hflow, hframe, -⟩ := h.toFlowing.handleWrite r hr
    exact ⟨w', hw, .of_open h hframe.kept (h.of_framed hflow hframe)⟩
  · exact ⟨w, if_neg (by simp [h.not_writing]), .refl w⟩

theorem Evolves.shutdownInLoop (w : World) : Evolves w w.shutdownInLoop := by
  unfold World.shutdownInLoop
  split
  · exact .refl w
  · exact .of_conn ⟨rfl, rfl, rfl, rfl, rfl, rfl, rfl⟩ rfl rfl

/-! ### Reading -/

theorem Kept.withEvents (w : World) (e : Events) (reading : Bool) :
    Kept w { w.withEvents e with conn := { (w.withEvents e).conn with reading := reading } } :=
  ⟨rfl, rfl, rfl, rfl, rfl, rfl, rfl⟩

/-- Switching the interest in reading keeps an open connection open. -/
theorem Open.setReading {w : World} (h : w.Open) (b : Bool)
    (hchange : b = true ∨ w.conn.channel.isReading = true) :
    ({ w.withEvents ⟨b, w.conn.channel.events.write⟩ with
      conn := { (w.withEvents ⟨b, w.conn.channel.events.write⟩).conn with reading := b } } :
      World).Open := by
  refine ⟨⟨Tracked.withEvents w _, ?_, h.input, h.output, h.writing⟩, h.state, rfl⟩
  apply h.tight.next
  rcases hchange with rfl | hr
  · exact .inl (by simp [Channel.kNoneEvent])
  · refine .inr fun hnone => ?_
    simp [Channel.isReading, hnone, Channel.kNoneEvent] at hr

theorem Open.startReadInLoop {w : World} (h : w.Open) :
    ∃ w', w.startReadInLoop = .ok w' ∧ Evolves w w' := by
  unfold World.startReadInLoop
  split
  · rw [Channel.enableReading, h.tracked.onChannel_modify]
    exact ⟨_, rfl, .of_open h (.withEvents w _ true) (h.setReading true (.inl rfl))⟩
  · exact ⟨w, rfl, .refl w⟩

theorem Open.stopReadInLoop {w : World} (h : w.Open) :
    ∃ w', w.stopReadInLoop = .ok w' ∧ Evolves w w' := by
  unfold World.stopReadInLoop
  split
  next hc =>
    rw [Channel.disableReading, h.tracked.onChannel_modify]
    rw [h.reading, or_self] at hc
    exact ⟨_, rfl, .of_open h (.withEvents w _ false) (h.setReading false (.inr hc))⟩
  · exact ⟨w, rfl, .refl w⟩

/-- `stopReadInLoop` after the close still asks for nothing. When `reading_` was left on
it registers the descriptor again. -/
theorem Shut.stopReadInLoop {w : World} (h : w.Shut) :
    ∃ w', w.stopReadInLoop = .ok w' ∧ w'.Shut ∧ Kept w w' ∧
      (w.conn.reading = false → Evolves w w') := by
  unfold World.stopReadInLoop
  split
  next hc =>
    rw [Channel.disableReading, h.tracked.onChannel_modify]
    refine ⟨_, rfl, ⟨Tracked.withEvents w _, ?_, h.input, h.output, h.state, ?_⟩,
      .withEvents w _ false, fun hr => ?_⟩
    · simp only [withEvents_channel, Channel.next_index]
      split <;> decide
    · simp [h.silent, Channel.kNoneEvent]
    · simp [hr, h.not_reading] at hc
  · exact ⟨w, rfl, h, .refl w, fun _ => .refl w⟩

/-! ### Calls of the user in the loop thread -/

theorem Steady.send {w : World} (h : w.Steady) (message : List UInt8) (r : WriteResult)
    (hr : r.Within message.length) : ∃ w', w.send message r = .ok w' ∧ Evolves w w' := by
  unfold World.send
  split
  · exact h.sendInLoop message r hr
  · exact ⟨w, rfl, .refl w⟩

theorem Evolves.shutdown (w : World) : Evolves w w.shutdown := by
  unfold World.shutdown
  split
  next hs => exact (Evolves.disconnecting (by simp [hs])).trans (.shutdownInLoop _)
  · exact .refl w

theorem Evolves.forceClose (w : World) : Evolves w w.forceClose := by
  unfold World.forceClose
  split
  next hs =>
    refine (Evolves.disconnecting ?_).trans (.queueInLoop _ _)
    rcases hs with hs | hs <;> simp [hs]
  · exact .refl w

/-! ### Closing -/

/-- The world after an open connection has been shut, before any callback. -/
def shutDown (w : World) : World := (w.setState .kDisconnected).withEvents Channel.kNoneEvent

theorem Open.disableAll {w : World} (h : w.Open) :
    (w.setState .kDisconnected).onChannel Channel.disableAll = .ok w.shutDown := by
  have ht : (w.setState .kDisconnected).Tracked := h.tracked
  rw [Channel.disableAll, ht.onChannel_modify]
  rfl

theorem Open.shutDown {w : World} (h : w.Open) : w.shutDown.Shut := by
  refine ⟨Tracked.withEvents _ _, ?_, h.input, h.output, rfl, rfl⟩
  simp only [World.shutDown, withEvents_channel, Channel.next_index]
  split <;> decide

/-- If any event was asked for, the close takes the descriptor out of `epoll`. -/
theorem Open.shutDown_index {w : World} (h : w.Open)
    (hevents : w.conn.channel.isNoneEvent = false) :
    w.shutDown.conn.channel.index = EPollPoller.kDeleted := by
  have hadded : w.conn.channel.index = EPollPoller.kAdded := by
    rcases h.tight with ht | ht
    · exact ht.1
    · rw [isNoneEvent_eq, ht.2] at hevents
      cases hevents
  rw [World.shutDown, withEvents_channel, Channel.next_index]
  exact if_pos ⟨hadded, rfl⟩

/-- The world after `handleClose` has shut an open connection: the user is told first,
then the owner. -/
def closed (w : World) : World :=
  { w.shutDown with
    stack := .user :: .closeCallback :: w.stack
    trace := w.trace ++ [.handleClose] ++ [.connection false] }

theorem Open.handleClose {w : World} (h : w.Open) : w.handleClose = .ok w.closed := by
  have ht : (w.emit .handleClose).Open := h.congr rfl rfl
  simp only [World.handleClose, ensure_of _ ht.state, ok_bind, ht.disableAll]
  rfl

theorem Shut.handleClose {w : World} (h : w.Shut) : w.handleClose = .error .handleClose := by
  simp [World.handleClose, emit, h.state]

/-- A read on an open connection fails, brings data to the user, or is the end of the
stream, which closes. -/
theorem Open.handleRead {w : World} (h : w.Open) (read : Except ℕ (List UInt8)) :
    ∃ w', w.handleRead read = .ok w' ∧
      (w'.Open ∧ (Kept w w' ∨ ∃ n, Kept ((w.emit (.message n)).call [.user]) w') ∨
        read = .ok [] ∧ ∃ w₁ : World, w₁.Open ∧ Kept w w₁ ∧
          w₁.conn.channel = w.conn.channel ∧ w' = w₁.closed) := by
  cases read with
  | error errno =>
      exact ⟨w, rfl, .inl ⟨h, .inl (.refl w)⟩⟩
  | ok data =>
      obtain ⟨input, hread, hholds⟩ := h.input.holds.readFd_ok data
      set w₁ : World := { w with conn := { w.conn with inputBuffer := input } } with hw₁
      have hopen : w₁.Open :=
        ⟨⟨h.tracked, h.tight, hholds.toValid, h.output, h.writing⟩, h.state, h.reading⟩
      have hkept : Kept w w₁ := ⟨rfl, rfl, rfl, rfl, rfl, rfl, rfl⟩
      simp only [World.handleRead, hread, Except.mapError, ok_bind]
      by_cases hn : 0 < data.length
      · rw [if_pos hn]
        exact ⟨_, rfl, .inl ⟨hopen.congr rfl rfl,
          .inr ⟨data.length, ⟨rfl, rfl, rfl, rfl, rfl, rfl, rfl⟩⟩⟩⟩
      · rw [if_neg hn]
        have hnil : data = [] := List.eq_nil_of_length_eq_zero (by omega)
        exact ⟨_, hopen.handleClose, .inr ⟨by rw [hnil], w₁, hopen, hkept, rfl, rfl⟩⟩

/-- After the close a read may still bring data; the end of the stream fails. -/
theorem Shut.handleRead {w : World} (h : w.Shut) (read : Except ℕ (List UInt8)) :
    w.handleRead read = .error .handleClose ∨
    ∃ w', w.handleRead read = .ok w' ∧ w'.Shut ∧
      (Kept w w' ∨ ∃ n, Kept ((w.emit (.message n)).call [.user]) w') := by
  cases read with
  | error errno =>
      exact .inr ⟨w, rfl, h, .inl (.refl w)⟩
  | ok data =>
      obtain ⟨input, hread, hholds⟩ := h.input.holds.readFd_ok data
      set w₁ : World := { w with conn := { w.conn with inputBuffer := input } } with hw₁
      have hshut : w₁.Shut :=
        ⟨h.tracked, h.known, hholds.toValid, h.output, h.state, h.silent⟩
      simp only [World.handleRead, hread, Except.mapError, ok_bind]
      by_cases hn : 0 < data.length
      · rw [if_pos hn]
        exact .inr ⟨_, rfl, hshut.congr rfl rfl,
          .inr ⟨data.length, ⟨rfl, rfl, rfl, rfl, rfl, rfl, rfl⟩⟩⟩
      · rw [if_neg hn]
        exact .inl hshut.handleClose

/-! ### Destruction -/

/-- The world in which `connectDestroyed` has told the user that a connection still in
`kConnected` is down. -/
def dropped (w : World) : World :=
  { w.shutDown with
    stack := .user :: .remove :: w.stack
    trace := w.trace ++ [.connection false] }

theorem Open.connectDestroyed {w : World} (h : w.Open) (hs : w.conn.state = .kConnected) :
    w.connectDestroyed = .ok w.dropped := by
  rw [World.connectDestroyed, if_pos hs]
  simp only [h.disableAll, ok_bind]
  rfl

theorem Shut.connectDestroyed {w : World} (h : w.Shut) :
    w.connectDestroyed = .ok (w.call [.remove]) := if_neg (by simp [h.state])

/-- The loop lets a channel be removed unless it has still to be handled. -/
def Removable (w : World) : Prop :=
  w.loop.eventHandling = true → w.loop.currentActiveChannel = some w.conn.channel.self ∨
    w.conn.channel.self ∉ w.loop.activeChannels

instance (w : World) : Decidable w.Removable := inferInstanceAs (Decidable (_ → _))

/-- The world after the channel has been removed. -/
def removed (w : World) : World :=
  { w with
    conn := { w.conn with
      channel := { w.conn.channel with addedToLoop := false, index := EPollPoller.kNew } }
    loop := { w.loop with poller := w.loop.poller.forget w.conn.channel }
    trace := w.trace ++ [.destroyed .kDisconnected false] }

theorem Shut.remove {w : World} (h : w.Shut) (hr : w.Removable) : w.remove = .ok w.removed := by
  have hloop := Net.Tracked.remove (l := w.loop) h.tracked h.silent h.known hr
  simp only [World.remove, onChannel, hloop, Except.mapError, ok_bind, pure, Except.pure]
  simp [removed, emit, h.state, EPollPoller.hasChannel, EPollPoller.forget]

end Muduo.Net.World
