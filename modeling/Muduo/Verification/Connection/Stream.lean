import Muduo.Verification.Connection.Output

/-! Integrity of the output stream: the bytes accepted by the socket, followed by
the buffered ones, are the messages in the order in which they were sent. -/

namespace Muduo.Net.World

open Library TcpConnection

/-- A connection as its constructor leaves it, on a loop that does not know its
descriptor yet. The callbacks and the high-water mark are set by the user. -/
structure Fresh (w : World) : Prop where
  state : w.conn.state = .kConnecting
  channel : w.conn.channel = .init w.conn.channel.self w.conn.channel.fd
  input : w.conn.inputBuffer = .init Buffer.kInitialSize
  output : w.conn.outputBuffer = .init Buffer.kInitialSize
  unknown : w.loop.poller.channels w.conn.channel.fd = none
  unwatched : w.loop.poller.interest w.conn.channel.fd = none
  socket : w.socket = ⟨[], none⟩

theorem Fresh.tracked {w : World} (h : w.Fresh) : w.Tracked :=
  .new (by rw [h.channel]; rfl) h.unknown h.unwatched

/-- The world in which `connectEstablished` calls the connection callback. -/
def established (w : World) : World :=
  ((w.setState .kConnected).withEvents ⟨true, w.conn.channel.isWriting⟩).connectionCallback

theorem Fresh.connectEstablished {w : World} (h : w.Fresh) :
    w.connectEstablished = .ok w.established := by
  have ht : (w.setState .kConnected).Tracked := h.tracked
  simp only [World.connectEstablished, h.state, ensure_of, ok_bind]
  rw [Channel.enableReading, ht.onChannel_modify]
  rfl

theorem Fresh.flowing {w : World} (h : w.Fresh) : w.established.Flowing := by
  have hin : (Buffer.init Buffer.kInitialSize).Holds [] := Buffer.init_holds _
  refine ⟨Tracked.withEvents _ _, ?_, ?_, ?_, ?_⟩
  · refine .inl ⟨?_, by simp [established, connectionCallback, call, emit, Channel.kNoneEvent]⟩
    simp [established, connectionCallback, call, emit, Channel.next_index, Channel.kNoneEvent]
  · simpa [established, connectionCallback, call, emit, setState, h.input] using hin.toValid
  · simpa [established, connectionCallback, call, emit, setState, h.output] using hin.toValid
  · have hw : w.conn.channel.isWriting = false := by rw [h.channel]; rfl
    simp [established, connectionCallback, call, emit, setState, h.output, hin.readable_eq, hw]

/-- The steps of the output path. Between them other threads may move `state_`. -/
inductive OutputStep where
  | sendInLoop (message : List UInt8) (r : WriteResult)
  | handleWrite (r : WriteResult)
  | setState (s : StateE)

namespace OutputStep

def exec (w : World) : OutputStep → Except Fault World
  | sendInLoop message r => w.sendInLoop message r
  | handleWrite r => w.handleWrite r
  | setState s => .ok (w.setState s)

/-- The connection is not disconnected, and `::write` reports neither too many bytes
nor a broken socket. -/
def Legal (w : World) : OutputStep → Prop
  | sendInLoop message r => w.conn.state ≠ .kDisconnected ∧ r.Within message.length ∧ r.Sound
  | handleWrite r => w.conn.state ≠ .kDisconnected ∧
      r.Within w.conn.outputBuffer.readableBytes ∧ r.Sound
  | setState s => s ≠ .kDisconnected

instance (w : World) : ∀ l : OutputStep, Decidable (l.Legal w)
  | sendInLoop _ _ => inferInstanceAs (Decidable (_ ∧ _))
  | handleWrite _ => inferInstanceAs (Decidable (_ ∧ _))
  | setState _ => inferInstanceAs (Decidable (_ ≠ _))

/-- The bytes a step adds to the stream. -/
def message : OutputStep → List UInt8
  | sendInLoop message _ => message
  | _ => []

/-- Written and buffered bytes together are what has been sent. -/
structure Streamed (w : World) (sent : List UInt8) : Prop extends Flowing w where
  stream : w.socket.written ++ w.conn.outputBuffer.readable = sent

/-- One step appends its message to the stream and keeps the invariant. -/
theorem Streamed.exec (w : World) (sent : List UInt8) (l : OutputStep) (h : Streamed w sent)
    (hl : l.Legal w) : ∃ w', l.exec w = .ok w' ∧ Streamed w' (sent ++ l.message) := by
  cases l with
  | sendInLoop message r =>
      obtain ⟨w', hw, hflow, -, -, hstream⟩ := h.toFlowing.sendInLoop message r hl.2.1
      exact ⟨w', hw, hflow, by rw [hstream hl.1 hl.2.2, h.stream]; rfl⟩
  | handleWrite r =>
      obtain ⟨w', hw, hflow, -, hstream, -⟩ := h.toFlowing.handleWrite r hl.2.1
      exact ⟨w', hw, hflow, by rw [hstream, h.stream]; exact (List.append_nil sent).symm⟩
  | setState s =>
      exact ⟨_, rfl, h.toFlowing.setState s, h.stream.trans (List.append_nil sent).symm⟩

end OutputStep

/-- Nothing is lost, duplicated or reordered on the way to the socket, and writability
is polled for exactly while output is pending. -/
theorem output_stream_integrity {w₀ w : World} (hfresh : w₀.Fresh)
    (hest : w₀.connectEstablished = .ok w) (ls : List OutputStep)
    (hl : LegalRun OutputStep.exec OutputStep.Legal w ls) :
    ∃ w', run OutputStep.exec w ls = .ok w' ∧
      w'.socket.written ++ w'.conn.outputBuffer.readable = ls.flatMap OutputStep.message ∧
      (w'.conn.channel.isWriting = true ↔ w'.conn.outputBuffer.readableBytes ≠ 0) := by
  rw [hfresh.connectEstablished] at hest
  obtain rfl : w₀.established = w := Except.ok.inj hest
  have hstart : OutputStep.Streamed w₀.established [] := by
    refine ⟨hfresh.flowing, ?_⟩
    simp [established, connectionCallback, call, emit, setState, hfresh.socket, hfresh.output,
      (Buffer.init_holds Buffer.kInitialSize).readable_eq]
  obtain ⟨w', hrun, h⟩ := run_simulates OutputStep.Streamed.exec hstart hl
  refine ⟨w', hrun, by rw [h.stream, List.flatMap_eq_foldl], ?_⟩
  rw [h.writing, h.output.holds.readableBytes_eq]
  simp

/-- A connection on an otherwise idle loop. -/
def freshWorld : World where
  conn := TcpConnection.init 1 5 true false
  loop := .init
  socket := ⟨[], none⟩
  stack := []
  trace := []

theorem freshWorld_fresh : freshWorld.Fresh :=
  ⟨rfl, rfl, rfl, rfl, rfl, rfl, rfl⟩

/-- A short write, a message buffered behind it, an interrupted and a draining write. -/
theorem output_stream_integrity_partial :
    let ls : List OutputStep := [.sendInLoop [1, 2, 3] (.wrote 1), .sendInLoop [4] (.wrote 0),
      .handleWrite (.failed (.other 4)), .setState .kDisconnecting, .handleWrite (.wrote 3)]
    ∃ w', run OutputStep.exec freshWorld.established ls = .ok w' ∧
      w'.socket.written ++ w'.conn.outputBuffer.readable = [1, 2, 3, 4] ∧
      (w'.conn.channel.isWriting = true ↔ w'.conn.outputBuffer.readableBytes ≠ 0) := by
  intro ls
  exact output_stream_integrity (freshWorld_fresh) rfl ls (by decide +kernel)

end Muduo.Net.World
