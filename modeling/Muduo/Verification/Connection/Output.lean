import Muduo.Verification.Connection.Equations

/-! The output path of a connection: what one `sendInLoop` or `handleWrite` does,
and what every run of them keeps. -/

namespace Muduo.Net

open Library TcpConnection

/-- The functors that only run user code. -/
def TcpConnection.Functor.IsCallback : Functor → Prop
  | .writeCompleteCallback => True
  | .highWaterMarkCallback _ => True
  | _ => False

/-- The descriptor is registered exactly while some event is asked for. -/
def Channel.Tight (c : Channel) : Prop :=
  c.index = EPollPoller.kAdded ∧ c.events ≠ Channel.kNoneEvent ∨
    c.index = EPollPoller.kDeleted ∧ c.events = Channel.kNoneEvent

theorem Channel.Tight.next {c : Channel} {e : Events} (h : c.Tight)
    (he : e ≠ kNoneEvent ∨ c.events ≠ kNoneEvent) : (c.next e).Tight := by
  by_cases hnone : e = kNoneEvent
  · have hadded : c.index = EPollPoller.kAdded := by
      rcases h with h | h
      · exact h.1
      · exact absurd h.2 (he.resolve_left (fun hne => hne hnone))
    exact .inr ⟨by rw [next_index, if_pos ⟨hadded, hnone⟩], hnone⟩
  · exact .inl ⟨by rw [next_index, if_neg (fun h => hnone h.2)], hnone⟩

namespace World

/-- The invariant of a connection that has not been closed: the poll interest in
writability tells whether output is pending. -/
structure Flowing (w : World) : Prop where
  tracked : w.Tracked
  tight : w.conn.channel.Tight
  input : w.conn.inputBuffer.Valid
  output : w.conn.outputBuffer.Valid
  writing : w.conn.channel.isWriting = true ↔ w.conn.outputBuffer.readable ≠ []

/-- The invariant looks at the connection and at what is registered only. -/
theorem Flowing.congr {w w' : World} (h : w.Flowing) (hconn : w'.conn = w.conn)
    (hpoller : w'.loop.poller = w.loop.poller) : w'.Flowing :=
  ⟨by simpa only [Tracked, hconn, hpoller] using h.tracked, hconn ▸ h.tight, hconn ▸ h.input,
    hconn ▸ h.output, hconn ▸ h.writing⟩

theorem Flowing.queueInLoop {w : World} (h : w.Flowing) (f : Functor) :
    (w.queueInLoop f).Flowing := h.congr rfl rfl

theorem Flowing.setState {w : World} (h : w.Flowing) (s : StateE) : (w.setState s).Flowing :=
  ⟨h.tracked, h.tight, h.input, h.output, h.writing⟩

theorem Flowing.shutdownInLoop {w : World} (h : w.Flowing) : w.shutdownInLoop.Flowing := by
  unfold World.shutdownInLoop
  split
  · exact h
  · exact h.congr rfl rfl

/-- Only the output path differs between the two worlds. -/
structure Framed (w w' : World) : Prop where
  state : w'.conn.state = w.conn.state
  reading : w'.conn.reading = w.conn.reading
  isReading : w'.conn.channel.isReading = w.conn.channel.isReading
  fd : w'.conn.channel.fd = w.conn.channel.fd
  self : w'.conn.channel.self = w.conn.channel.self
  inputBuffer : w'.conn.inputBuffer = w.conn.inputBuffer
  trace : w'.trace = w.trace
  stack : w'.stack = w.stack
  eventHandling : w'.loop.eventHandling = w.loop.eventHandling
  activeChannels : w'.loop.activeChannels = w.loop.activeChannels
  current : w'.loop.currentActiveChannel = w.loop.currentActiveChannel
  queued : ∃ fs, w'.loop.pendingFunctors = w.loop.pendingFunctors ++ fs ∧
    ∀ f ∈ fs, f.IsCallback

theorem Framed.refl (w : World) : Framed w w :=
  ⟨rfl, rfl, rfl, rfl, rfl, rfl, rfl, rfl, rfl, rfl, rfl, [], by simp, by simp⟩

theorem Framed.trans {w₁ w₂ w₃ : World} (h : Framed w₁ w₂) (h' : Framed w₂ w₃) :
    Framed w₁ w₃ := by
  obtain ⟨fs, hfs, hcb⟩ := h.queued
  obtain ⟨fs', hfs', hcb'⟩ := h'.queued
  refine ⟨h'.state.trans h.state, h'.reading.trans h.reading, h'.isReading.trans h.isReading,
    h'.fd.trans h.fd, h'.self.trans h.self, h'.inputBuffer.trans h.inputBuffer,
    h'.trace.trans h.trace, h'.stack.trans h.stack, h'.eventHandling.trans h.eventHandling,
    h'.activeChannels.trans h.activeChannels, h'.current.trans h.current, fs ++ fs', ?_, ?_⟩
  · rw [hfs', hfs, List.append_assoc]
  · intro f hf
    rcases List.mem_append.mp hf with hf | hf
    · exact hcb f hf
    · exact hcb' f hf

theorem Framed.withEvents (w : World) (e : Events) (h : e.read = w.conn.channel.isReading) :
    Framed w (w.withEvents e) :=
  ⟨rfl, rfl, h, rfl, rfl, rfl, rfl, rfl, rfl, rfl, rfl, [], by simp, by simp⟩

theorem Framed.queueInLoop (w : World) {f : Functor} (h : f.IsCallback) :
    Framed w (w.queueInLoop f) :=
  ⟨rfl, rfl, rfl, rfl, rfl, rfl, rfl, rfl, rfl, rfl, rfl, [f], rfl, by simpa using h⟩

theorem Framed.setSocket (w : World) (s : Socket) : Framed w { w with socket := s } :=
  ⟨rfl, rfl, rfl, rfl, rfl, rfl, rfl, rfl, rfl, rfl, rfl, [], by simp, by simp⟩

theorem Framed.shutdownInLoop (w : World) : Framed w w.shutdownInLoop := by
  unfold World.shutdownInLoop
  split
  · exact .refl w
  · exact .setSocket w _

/-! ### `sendInLoop` -/

/-- A direct write passes a prefix of the message to the socket and changes nothing
else; `nwrote` is its length. -/
theorem writeDirectly_spec (w : World) (data : List UInt8) (r : WriteResult)
    (hr : r.Within data.length) :
    ∃ w' n fault, w.writeDirectly data r = (w', n, fault) ∧ n ≤ data.length ∧
      w'.conn = w.conn ∧ w'.loop.poller = w.loop.poller ∧
      w'.socket = w.socket.write (data.take n) ∧ Framed w w' ∧ (r.Sound → fault = false) := by
  cases r with
  | failed errno =>
      refine ⟨w, 0, _, rfl, Nat.zero_le _, rfl, rfl, by simp [Socket.write], .refl w, ?_⟩
      intro hs
      simp [hs.1, hs.2]
  | wrote n =>
      simp only [writeDirectly]
      split
      · refine ⟨_, n, false, rfl, hr, rfl, rfl, rfl, ?_, fun _ => rfl⟩
        exact (Framed.setSocket w _).trans (.queueInLoop _ (f := .writeCompleteCallback) trivial)
      · exact ⟨_, n, false, rfl, hr, rfl, rfl, rfl, .setSocket w _, fun _ => rfl⟩

/-- Buffering the rest of a message switches writing on. -/
theorem bufferRest_spec {w : World} {rest : List UInt8} (ht : w.Tracked)
    (htight : w.conn.channel.Tight) (hin : w.conn.inputBuffer.Valid)
    (hout : w.conn.outputBuffer.Valid) (hrest : rest ≠ []) :
    ∃ w', w.bufferRest rest = .ok w' ∧ w'.Flowing ∧ Framed w w' ∧ w'.socket = w.socket ∧
      w'.conn.outputBuffer.readable = w.conn.outputBuffer.readable ++ rest := by
  obtain ⟨output, happend, hholds⟩ := hout.holds.append rest
  have hne : w.conn.outputBuffer.readable ++ rest ≠ [] := by simp [hrest]
  unfold bufferRest
  extract_lets oldLen w₁
  have hconn : w₁.conn = w.conn := by simp only [w₁]; split <;> rfl
  have hpoller : w₁.loop.poller = w.loop.poller := by simp only [w₁]; split <;> rfl
  have hsocket : w₁.socket = w.socket := by simp only [w₁]; split <;> rfl
  have hframe : Framed w w₁ := by
    simp only [w₁]
    split
    · exact .queueInLoop w trivial
    · exact .refl w
  have ht₁ : (w₁.setOutput output).Tracked := by
    simpa only [Tracked, setOutput, hconn, hpoller] using ht
  have hframe₁ : Framed w (w₁.setOutput output) := ⟨hframe.state, hframe.reading,
    hframe.isReading, hframe.fd, hframe.self, hframe.inputBuffer, hframe.trace, hframe.stack,
    hframe.eventHandling, hframe.activeChannels, hframe.current, hframe.queued⟩
  simp only [hconn, happend, Except.mapError, ok_bind]
  by_cases hw : w.conn.channel.isWriting = true
  · rw [if_pos (by simpa only [setOutput, hconn] using hw)]
    refine ⟨_, rfl, ⟨ht₁, ?_, ?_, ?_, ?_⟩, hframe₁, hsocket, hholds.readable_eq⟩
    · simpa only [setOutput, hconn] using htight
    · simpa only [setOutput, hconn] using hin
    · exact hholds.toValid
    · simp only [setOutput, hconn, hw, hholds.readable_eq, true_iff]
      exact hne
  · rw [if_neg (by simpa only [setOutput, hconn] using hw)]
    refine ⟨_, ht₁.onChannel_modify _, ⟨Tracked.withEvents _ _, ?_, ?_, hholds.toValid, ?_⟩,
      hframe₁.trans (.withEvents _ _ rfl), hsocket, hholds.readable_eq⟩
    · apply Channel.Tight.next (by simpa only [setOutput, hconn] using htight)
      exact Or.inl (by simp [Channel.kNoneEvent])
    · simpa only [withEvents_inputBuffer, setOutput, hconn] using hin
    · simp only [withEvents_channel, Channel.next_isWriting, withEvents_outputBuffer, setOutput,
        hholds.readable_eq, true_iff]
      exact hne

/-- `sendInLoop` has come to its end: unless the socket is broken, the message is appended to the
stream of written and buffered bytes. -/
structure Appended (w w' : World) (data : List UInt8) (r : WriteResult) : Prop where
  flowing : w'.Flowing
  framed : Framed w w'
  shutdownAt : w'.socket.shutdownAt = w.socket.shutdownAt
  stream : r.Sound → w'.socket.written ++ w'.conn.outputBuffer.readable =
    w.socket.written ++ w.conn.outputBuffer.readable ++ data

/-- While nothing is pending, the message goes to the socket first. -/
theorem Flowing.sendInLoop_of_nil {w : World} (h : w.Flowing) {data : List UInt8} {r : WriteResult}
    (hr : r.Within data.length) (halive : w.conn.state ≠ .kDisconnected)
    (hempty : w.conn.outputBuffer.readable = []) :
    ∃ w', w.sendInLoop data r = .ok w' ∧ Appended w w' data r := by
  have hw : w.conn.channel.isWriting = false := by
    rw [← Bool.not_eq_true, h.writing]
    exact fun hne => hne hempty
  have hzero : w.conn.outputBuffer.readableBytes = 0 := by
    rw [h.output.holds.readableBytes_eq, hempty]
    rfl
  obtain ⟨w₁, n, fault, hwrite, hn, hconn, hpoller, hsocket, hframe, hsound⟩ :=
    writeDirectly_spec w data r hr
  rw [World.sendInLoop, if_neg halive, if_pos ⟨by simp [hw], hzero⟩, hwrite]
  simp only [ensure_of _ (Nat.sub_le data.length n), ok_bind]
  have ht₁ : w₁.Tracked := by
    simpa only [Tracked, hconn, hpoller] using h.tracked
  by_cases hrest : ¬ fault = true ∧ 0 < data.length - n
  · rw [if_pos hrest]
    have hne : data.drop n ≠ [] := by
      intro hnil
      have hlen := congrArg List.length hnil
      simp only [List.length_drop, List.length_nil] at hlen
      omega
    obtain ⟨w', hbuf, hflow, hframe', hsocket', hread⟩ :=
      bufferRest_spec ht₁ (hconn ▸ h.tight) (hconn ▸ h.input) (hconn ▸ h.output) hne
    refine ⟨w', hbuf, hflow, hframe.trans hframe', ?_, fun _ => ?_⟩
    · rw [hsocket', hsocket]
      rfl
    · rw [hsocket', hsocket, hread, hconn, hempty]
      simp [Socket.write]
  · rw [if_neg hrest]
    refine ⟨w₁, rfl, h.congr hconn hpoller, hframe, ?_, fun hs => ?_⟩
    · rw [hsocket]
      rfl
    · have hall : data.length - n = 0 := by
        have hfault := hsound hs
        simp only [hfault, Bool.false_eq_true, not_false_eq_true, true_and, Nat.not_lt] at hrest
        omega
      have htake : data.take n = data := List.take_of_length_le (by omega)
      rw [hsocket, hconn, hempty, htake]
      simp [Socket.write]

/-- While something is pending, the message is put behind it. -/
theorem Flowing.sendInLoop_of_ne_nil {w : World} (h : w.Flowing) (data : List UInt8)
    (r : WriteResult) (halive : w.conn.state ≠ .kDisconnected)
    (hne : w.conn.outputBuffer.readable ≠ []) :
    ∃ w', w.sendInLoop data r = .ok w' ∧ Appended w w' data r := by
  have hw : w.conn.channel.isWriting = true := h.writing.mpr hne
  rw [World.sendInLoop, if_neg halive, if_neg (by simp [hw])]
  simp only [Nat.sub_zero, List.drop_zero, ensure_of _ (Nat.le_refl data.length), ok_bind]
  by_cases hlen : 0 < data.length
  · rw [if_pos ⟨by simp, hlen⟩]
    obtain ⟨w', hbuf, hflow, hframe, hsocket, hread⟩ :=
      bufferRest_spec h.tracked h.tight h.input h.output (List.length_pos_iff.mp hlen)
    refine ⟨w', hbuf, hflow, hframe, by rw [hsocket], fun _ => ?_⟩
    rw [hsocket, hread, List.append_assoc]
  · rw [if_neg (by simp [hlen])]
    have hnil : data = [] := List.eq_nil_of_length_eq_zero (by omega)
    exact ⟨w, rfl, h, .refl w, rfl, fun _ => by simp [hnil]⟩

/-- `sendInLoop` on a connection in any state. -/
theorem Flowing.sendInLoop {w : World} (h : w.Flowing) (data : List UInt8) (r : WriteResult)
    (hr : r.Within data.length) :
    ∃ w', w.sendInLoop data r = .ok w' ∧ w'.Flowing ∧ Framed w w' ∧
      w'.socket.shutdownAt = w.socket.shutdownAt ∧
      (w.conn.state ≠ .kDisconnected → r.Sound →
        w'.socket.written ++ w'.conn.outputBuffer.readable =
          w.socket.written ++ w.conn.outputBuffer.readable ++ data) := by
  by_cases hdead : w.conn.state = .kDisconnected
  · rw [World.sendInLoop, if_pos hdead]
    exact ⟨w, rfl, h, .refl w, rfl, fun hne => absurd hdead hne⟩
  · have hsent : ∃ w', w.sendInLoop data r = .ok w' ∧ Appended w w' data r := by
      by_cases hempty : w.conn.outputBuffer.readable = []
      · exact h.sendInLoop_of_nil hr hdead hempty
      · exact h.sendInLoop_of_ne_nil data r hdead hempty
    obtain ⟨w', hw', hsent⟩ := hsent
    exact ⟨w', hw', hsent.flowing, hsent.framed, hsent.shutdownAt, fun _ => hsent.stream⟩

/-! ### `handleWrite` -/

/-- The write of this `handleWrite` empties `outputBuffer_`. -/
def Drains (w : World) (r : WriteResult) : Prop :=
  w.conn.channel.isWriting = true ∧ r = .wrote w.conn.outputBuffer.readableBytes

instance (w : World) (r : WriteResult) : Decidable (w.Drains r) :=
  inferInstanceAs (Decidable (_ ∧ _))

theorem Flowing.readable_pos {w : World} (h : w.Flowing)
    (hw : w.conn.channel.isWriting = true) : 0 < w.conn.outputBuffer.readableBytes := by
  rw [h.output.holds.readableBytes_eq]
  exact List.length_pos_iff.mpr (h.writing.mp hw)

/-- The branch that found the buffer empty: writing is switched off, and a pending
half-close is carried out. -/
theorem writeDone_spec {w : World} (ht : w.Tracked) (htight : w.conn.channel.Tight)
    (hin : w.conn.inputBuffer.Valid) (hout : w.conn.outputBuffer.Holds [])
    (hw : w.conn.channel.isWriting = true) :
    ∃ w', w.writeDone = .ok w' ∧ w'.Flowing ∧ Framed w w' ∧
      w'.conn.outputBuffer = w.conn.outputBuffer ∧
      w'.socket = if w.conn.state = .kDisconnecting then w.socket.shutdownWrite else w.socket := by
  set w₁ := w.withEvents { w.conn.channel.events with write := false } with hw₁
  have hoff : w.onChannel Channel.disableWriting = .ok w₁ := ht.onChannel_modify _
  have hframe : Framed w w₁ := .withEvents _ _ rfl
  have hflow : w₁.Flowing := by
    refine ⟨Tracked.withEvents _ _, ?_, hin, hout.toValid, ?_⟩
    · apply htight.next
      refine Or.inr (fun hnone => ?_)
      simp [Channel.isWriting, hnone, Channel.kNoneEvent] at hw
    · simp [hw₁, hout.readable_eq]
  -- the write-complete callback is queued before the state is examined
  set w₂ := if w₁.conn.writeCompleteCallback then w₁.queueInLoop .writeCompleteCallback else w₁
    with hw₂
  have hconn : w₂.conn = w₁.conn := by rw [hw₂]; split <;> rfl
  have hpoller : w₂.loop.poller = w₁.loop.poller := by rw [hw₂]; split <;> rfl
  have hsocket : w₂.socket = w.socket := by rw [hw₂]; split <;> rfl
  have hframe₂ : Framed w w₂ := by
    rw [hw₂]
    split
    · exact hframe.trans (.queueInLoop _ (f := .writeCompleteCallback) trivial)
    · exact hframe
  have hflow₂ : w₂.Flowing := hflow.congr hconn hpoller
  have hnot : w₂.conn.channel.isWriting = false := by rw [hconn]; rfl
  have hdone : w.writeDone =
      .ok (if w.conn.state = .kDisconnecting then { w₂ with socket := w₂.socket.shutdownWrite }
        else w₂) := by
    have hshut : w₂.shutdownInLoop = { w₂ with socket := w₂.socket.shutdownWrite } :=
      if_neg (by rw [hnot]; decide)
    simp only [writeDone, hoff, ok_bind]
    rw [← hw₂, hframe₂.state, hshut]
    rfl
  refine ⟨_, hdone, ?_, ?_, ?_, ?_⟩
  · split
    · exact hflow₂.congr rfl rfl
    · exact hflow₂
  · split
    · exact hframe₂.trans (.setSocket _ _)
    · exact hframe₂
  · split <;> simp [hconn, hw₁]
  · split <;> simp [hsocket]

/-- The world after the socket has taken the first `n` bytes of the pending output. -/
structure Sent (w : World) (n : ℕ) (w₁ : World) : Prop where
  frame : Framed w w₁
  tracked : w₁.Tracked
  channel : w₁.conn.channel = w.conn.channel
  output : w₁.conn.outputBuffer.Holds (w.conn.outputBuffer.readable.drop n)
  socket : w₁.socket = w.socket.write (w.conn.outputBuffer.readable.take n)

theorem Flowing.handleWrite_wrote {w : World} (h : w.Flowing) {n : ℕ} (hn : 0 < n)
    (hr : n ≤ w.conn.outputBuffer.readableBytes) (hw : w.conn.channel.isWriting = true) :
    ∃ w₁, Sent w n w₁ ∧ w.handleWrite (.wrote n) =
      if w₁.conn.outputBuffer.readableBytes = 0 then w₁.writeDone else .ok w₁ := by
  have hlen : n ≤ w.conn.outputBuffer.readable.length := by
    rw [← h.output.holds.readableBytes_eq]
    exact hr
  obtain ⟨output, hret, hholds⟩ := h.output.holds.retrieve n hlen
  refine ⟨({ w with socket := w.socket.write (w.conn.outputBuffer.readable.take n) } :
    World).setOutput output, ⟨?_, h.tracked, rfl, hholds, rfl⟩, ?_⟩
  · exact ⟨rfl, rfl, rfl, rfl, rfl, rfl, rfl, rfl, rfl, rfl, rfl, [], by simp [setOutput],
      by simp⟩
  · simp only [World.handleWrite, if_pos hw, if_pos hn, hret, Except.mapError, ok_bind]
    rfl

/-- In every other case nothing happens. -/
theorem handleWrite_of_not {w : World} {r : WriteResult}
    (h : ¬ ∃ n, r = .wrote n ∧ 0 < n ∧ w.conn.channel.isWriting = true) :
    w.handleWrite r = .ok w := by
  unfold World.handleWrite
  by_cases hw : w.conn.channel.isWriting = true
  · cases r with
    | failed errno => simp [hw]
    | wrote n =>
        have hn : ¬ 0 < n := fun hn => h ⟨n, rfl, hn, hw⟩
        simp [hw, hn]
  · simp [hw]

theorem Sent.readableBytes_eq_zero_iff {w w₁ : World} {n : ℕ} (h : Sent w n w₁) :
    w₁.conn.outputBuffer.readableBytes = 0 ↔ w.conn.outputBuffer.readable.drop n = [] := by
  rw [h.output.readableBytes_eq]
  exact List.length_eq_zero_iff

theorem Sent.drains_iff {w w₁ : World} {n : ℕ} (h : Sent w n w₁) (hflow : w.Flowing)
    (hr : n ≤ w.conn.outputBuffer.readableBytes) (hw : w.conn.channel.isWriting = true) :
    w.Drains (.wrote n) ↔ w₁.conn.outputBuffer.readableBytes = 0 := by
  rw [h.output.readableBytes_eq, List.length_drop, Drains, ← hflow.output.holds.readableBytes_eq]
  simp only [hw, true_and, WriteResult.wrote.injEq]
  omega

/-- Some output is left, and the connection goes on writing. -/
theorem Sent.flowing {w w₁ : World} {n : ℕ} (h : Sent w n w₁) (hflow : w.Flowing)
    (hw : w.conn.channel.isWriting = true) (hleft : w.conn.outputBuffer.readable.drop n ≠ []) :
    w₁.Flowing := by
  refine ⟨h.tracked, h.channel ▸ hflow.tight, h.frame.inputBuffer ▸ hflow.input,
    h.output.toValid, ?_⟩
  rw [h.channel, h.output.readable_eq]
  exact iff_of_true hw hleft

/-- All output is written, so `writeDone` is entered with an empty buffer. -/
theorem Sent.writeDone {w w₁ : World} {n : ℕ} (h : Sent w n w₁) (hflow : w.Flowing)
    (hw : w.conn.channel.isWriting = true) (hnil : w.conn.outputBuffer.readable.drop n = []) :
    ∃ w', w₁.writeDone = .ok w' ∧ w'.Flowing ∧ Framed w w' ∧
      w'.conn.outputBuffer.readable = [] ∧
      w'.socket.written = w.socket.written ++ w.conn.outputBuffer.readable ∧
      w'.socket.shutdownAt = if w.conn.state = .kDisconnecting then
        some (w.socket.shutdownAt.getD w'.socket.written) else w.socket.shutdownAt := by
  have hempty : w₁.conn.outputBuffer.Holds [] := hnil ▸ h.output
  obtain ⟨w', hdone, hflow', hframe, hout, hsocket⟩ := writeDone_spec h.tracked
    (h.channel ▸ hflow.tight) (h.frame.inputBuffer ▸ hflow.input) hempty (h.channel ▸ hw)
  have htake : w.conn.outputBuffer.readable.take n = w.conn.outputBuffer.readable := by
    have := List.take_append_drop n w.conn.outputBuffer.readable
    rwa [hnil, List.append_nil] at this
  rw [h.socket, htake, h.frame.state] at hsocket
  refine ⟨w', hdone, hflow', h.frame.trans hframe, by rw [hout, hempty.readable_eq], ?_, ?_⟩
  · rw [hsocket]
    split <;> rfl
  · rw [hsocket]
    split <;> rfl

/-- `handleWrite` moves a prefix of the pending output to the socket. The half-close
is executed exactly when it drains the buffer of a disconnecting connection. -/
theorem Flowing.handleWrite {w : World} (h : w.Flowing) (r : WriteResult)
    (hr : r.Within w.conn.outputBuffer.readableBytes) :
    ∃ w', w.handleWrite r = .ok w' ∧ w'.Flowing ∧ Framed w w' ∧
      w'.socket.written ++ w'.conn.outputBuffer.readable =
        w.socket.written ++ w.conn.outputBuffer.readable ∧
      (¬ (w.Drains r ∧ w.conn.state = .kDisconnecting) →
        w'.socket.shutdownAt = w.socket.shutdownAt) ∧
      (w.Drains r ∧ w.conn.state = .kDisconnecting →
        w'.socket.shutdownAt = some (w.socket.shutdownAt.getD w'.socket.written) ∧
        w'.conn.outputBuffer.readable = []) := by
  by_cases hcase : ∃ n, r = .wrote n ∧ 0 < n ∧ w.conn.channel.isWriting = true
  · obtain ⟨n, rfl, hn, hw⟩ := hcase
    obtain ⟨w₁, hsent, hwrite⟩ := h.handleWrite_wrote hn hr hw
    have hdrains := hsent.drains_iff h hr hw
    rw [hwrite]
    by_cases hzero : w₁.conn.outputBuffer.readableBytes = 0
    · rw [if_pos hzero]
      obtain ⟨w', hdone, hflow, hframe, hread, hwritten, hshut⟩ :=
        hsent.writeDone h hw (hsent.readableBytes_eq_zero_iff.mp hzero)
      refine ⟨w', hdone, hflow, hframe, by rw [hread, hwritten, List.append_nil], ?_, ?_⟩
      · intro hnot
        rw [hshut, if_neg fun hs => hnot ⟨hdrains.mpr hzero, hs⟩]
      · rintro ⟨-, hstate⟩
        exact ⟨by rw [hshut, if_pos hstate], hread⟩
    · rw [if_neg hzero]
      have hleft := mt hsent.readableBytes_eq_zero_iff.mpr hzero
      refine ⟨w₁, rfl, hsent.flowing h hw hleft, hsent.frame, ?_, ?_, ?_⟩
      · rw [hsent.socket, hsent.output.readable_eq]
        simp [Socket.write]
      · intro _
        rw [hsent.socket]
        rfl
      · exact fun hd => absurd (hdrains.mp hd.1) hzero
  · have hquiet : ¬ w.Drains r := by
      rintro ⟨hw, rfl⟩
      exact hcase ⟨_, rfl, h.readable_pos hw, hw⟩
    exact ⟨w, handleWrite_of_not hcase, h, .refl w, rfl, fun _ => rfl,
      fun hd => absurd hd.1 hquiet⟩

end World

end Muduo.Net
