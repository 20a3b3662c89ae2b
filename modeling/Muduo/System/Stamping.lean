import Muduo.Base.Logging

/-! A thread that logs, and calls of `setTimeZone` between its records. -/

namespace Muduo.System.Stamping

open Library Base Logger

inductive Label where
  | log (time : ℤ)
  | setTimeZone (tz : TimeZone)

/-- What `formatTime` wrote at a time, and the zone that was in force. -/
structure Record where
  text : List UInt8
  time : ℤ
  zone : TimeZone

/-- The variables, and history: the records so far, and the zone that was in force when `t_time`
was filled. -/
structure State where
  globals : Globals
  records : List Record
  filledIn : TimeZone

def init (zone : TimeZone) : State := ⟨.init zone, [], zone⟩

def exec (s : State) : Label → Except Fault State
  | .log time => do
      let (stream, g) ← formatTime s.globals time .init
      return {
        globals := g
        records := s.records ++ [⟨stream.buffer.data, time, s.globals.logTimeZone⟩]
        filledIn :=
          if secondsOf time = s.globals.tLastSecond then s.filledIn
          else s.globals.logTimeZone }
  | .setTimeZone tz => .ok { s with globals := setTimeZone s.globals tz }

end Muduo.System.Stamping
