import Muduo.Verification.Poller.Tracking
import Muduo.Verification.Buffer.Layout

/-! Computation rules for a connection whose channel the poller tracks. -/

namespace Muduo.Net.World

open Library TcpConnection

def Tracked (w : World) : Prop := Net.Tracked w.conn.channel w.loop.poller

/-- The world after its channel has been updated to the mask `e`. -/
def withEvents (w : World) (e : Events) : World :=
  { w with
    conn := { w.conn with channel := w.conn.channel.next e }
    loop := { w.loop with poller := w.loop.poller.watch (w.conn.channel.next e) } }

theorem Tracked.withEvents (w : World) (e : Events) : (w.withEvents e).Tracked :=
  Net.Tracked.watch w.conn.channel e w.loop.poller

theorem Tracked.onChannel_modify {w : World} (h : w.Tracked) (f : Events → Events) :
    w.onChannel (Channel.modify f) = .ok (w.withEvents (f w.conn.channel.events)) := by
  rw [onChannel, Net.Tracked.modify (l := w.loop) h f]
  rfl

section Fields

variable (w : World) (e : Events)

@[simp] theorem withEvents_state : (w.withEvents e).conn.state = w.conn.state := rfl

@[simp] theorem withEvents_channel :
    (w.withEvents e).conn.channel = w.conn.channel.next e := rfl

@[simp] theorem withEvents_outputBuffer :
    (w.withEvents e).conn.outputBuffer = w.conn.outputBuffer := rfl

@[simp] theorem withEvents_inputBuffer :
    (w.withEvents e).conn.inputBuffer = w.conn.inputBuffer := rfl

@[simp] theorem withEvents_socket : (w.withEvents e).socket = w.socket := rfl

@[simp] theorem withEvents_pendingFunctors :
    (w.withEvents e).loop.pendingFunctors = w.loop.pendingFunctors := rfl

end Fields

end Muduo.Net.World
