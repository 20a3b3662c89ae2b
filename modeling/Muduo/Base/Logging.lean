import Muduo.Base.LogStream
import Muduo.Base.TimeZone
import Muduo.Library.Numeral
import Mathlib.Data.List.DropRight

/-! A logger: the record it builds in its stream, from the time stamp of its constructor to the
end of the line in its destructor. The level below which nothing is logged is left out. -/

namespace Muduo.Base

open Library Net LogStream

namespace Logger

inductive LogLevel where
  | trace
  | debug
  | info
  | warn
  | error
  | fatal
  deriving DecidableEq, Repr

/-- `LogLevelName`. -/
def LogLevel.name : LogLevel → List UInt8
  | trace => ascii "TRACE "
  | debug => ascii "DEBUG "
  | info => ascii "INFO  "
  | warn => ascii "WARN  "
  | error => ascii "ERROR "
  | fatal => ascii "FATAL "

/-- The assertions on the texts of the time, the one of `T`, and faults below. -/
inductive Fault where
  | timeLength
  | microsecondsLength
  | strlen
  | zone (fault : TimeZone.Fault)
  | stream (fault : LogStream.Fault)
  deriving DecidableEq, Repr

/-- The characters of `data_`, of which there are `size_`. -/
structure SourceFile where
  data : List UInt8
  deriving DecidableEq, Repr

/-- What stands behind the last slash. -/
def SourceFile.ofName (filename : List UInt8) : SourceFile := ⟨filename.rtakeWhile (· ≠ 47)⟩

/-- `T(str, len)`, for the characters of `str` in front of its `NUL`. -/
def T (str : List UInt8) (len : ℕ) : Except Fault (List UInt8) := do
  ensure (str.length = len) .strlen
  return str

/-! ### Formats -/

def padded (width : ℕ) (fill : UInt8) (text : List UInt8) : List UInt8 :=
  List.replicate (width - text.length) fill ++ text

/-- `%d` with a width. -/
def spacePadded (width : ℕ) (x : ℤ) : List UInt8 := padded width 32 (intNumeral x)

/-- `%d` with a width and the flag `0`; the zeros follow the sign. -/
def zeroPadded (width : ℕ) (x : ℤ) : List UInt8 :=
  if x < 0 then 45 :: padded (width - 1) 48 (numeral 10 x.natAbs)
  else padded width 48 (numeral 10 x.natAbs)

/-! ### The time -/

/-- The thread-local variables, `t_time` without its `NUL`, and `g_logTimeZone`. -/
structure Globals where
  tTime : List UInt8
  tLastSecond : ℤ
  logTimeZone : TimeZone

/-- Before the first record of a thread. -/
def Globals.init (zone : TimeZone) : Globals := ⟨[], 0, zone⟩

def setTimeZone (g : Globals) (tz : TimeZone) : Globals := { g with logTimeZone := tz }

def kMicroSecondsPerSecond : ℤ := 1000 * 1000

def secondsOf (microSecondsSinceEpoch : ℤ) : ℤ := microSecondsSinceEpoch.tdiv kMicroSecondsPerSecond

/-- `tm_time`. -/
def brokenDown (zone : TimeZone) (seconds : ℤ) : Except Fault Tm :=
  if zone.valid then (zone.toLocalTime seconds).mapError .zone else .ok (Tm.gmtime seconds)

/-- `"%4d%02d%02d %02d:%02d:%02d"`. -/
def timeText (tm : Tm) : List UInt8 :=
  spacePadded 4 (tm.tmYear + 1900) ++ zeroPadded 2 (tm.tmMon + 1) ++ zeroPadded 2 tm.tmMday ++
    ascii " " ++ zeroPadded 2 tm.tmHour ++ ascii ":" ++ zeroPadded 2 tm.tmMin ++ ascii ":" ++
    zeroPadded 2 tm.tmSec

/-- The block for a second that differs from the last one. -/
def refresh (g : Globals) (seconds : ℤ) : Except Fault Globals :=
  if seconds ≠ g.tLastSecond then do
    let tmTime ← brokenDown g.logTimeZone seconds
    let text := timeText tmTime
    ensure (text.length = 17) .timeLength
    -- `t_time` has room for 63 characters.
    return { g with tTime := text.take 63, tLastSecond := seconds }
  else .ok g

/-- `us` and its length, for the zone in force. -/
def microsecondsText (zone : TimeZone) (microseconds : ℤ) : List UInt8 × ℕ :=
  if zone.valid then (ascii "." ++ zeroPadded 6 microseconds ++ ascii " ", 8)
  else (ascii "." ++ zeroPadded 6 microseconds ++ ascii "Z ", 9)

def formatTime (g : Globals) (time : ℤ) (stream : LogStream) :
    Except Fault (LogStream × Globals) := do
  let microseconds := time.tmod kMicroSecondsPerSecond
  let g ← refresh g (secondsOf time)
  let us := microsecondsText g.logTimeZone microseconds
  ensure (us.1.length = us.2) .microsecondsLength
  let tTime ← T g.tTime 17
  let us ← T us.1 us.2
  return ((stream.append tTime).append us, g)

/-! ### Constructors -/

/-- What a constructor asks the system for: the number of the thread, `errno`, and the text for
an error number. -/
structure Environment where
  tid : Value
  errno : Value
  strerror : ℤ → List UInt8

/-- `"%5d "`. -/
def Environment.tidString (env : Environment) : List UInt8 := spacePadded 5 env.tid.val ++ ascii " "

/-- Which constructor is called. A `func` may be null. -/
inductive Form where
  | plain
  | leveled (level : LogLevel)
  | function (level : LogLevel) (func : Option (List UInt8))
  | system (toAbort : Bool)
  deriving DecidableEq, Repr

/-- `operator<<` for each of the arguments. -/
def inserts (stream : LogStream) (xs : List Insertion) : Except Fault LogStream :=
  (stream.insertAll xs).mapError .stream

end Logger

open Logger

/-- `Logger::Impl`, without its time. The line number is an `int`; no function below depends on
which integer type it has. -/
structure Logger where
  stream : LogStream
  level : LogLevel
  line : Value
  basename : SourceFile

namespace Logger

/-- `Impl::Impl`. -/
def impl (g : Globals) (env : Environment) (time : ℤ) (level : LogLevel) (savedErrno : Value)
    (file : SourceFile) (line : Value) : Except Fault (Logger × Globals) := do
  let (stream, g) ← formatTime g time .init
  -- `t_tidString` has room for 31 characters.
  let tid ← T (env.tidString.take 31) env.tidString.length
  let name ← T level.name 6
  let stream := (stream.append tid).append name
  let stream ←
    if savedErrno.val ≠ 0 then
      inserts stream [.text (env.strerror savedErrno.val), .text (ascii " (errno="),
        .integer savedErrno, .text (ascii ") ")]
    else .ok stream
  return (⟨stream, level, line, file⟩, g)

/-- An insertion of a `const char*`. -/
def cString : Option (List UInt8) → Insertion
  | some str => .text str
  | none => .null

def ctor (g : Globals) (env : Environment) (time : ℤ) (file : SourceFile) (line : Value) :
    Form → Except Fault (Logger × Globals)
  | .plain => impl g env time .info (.zero .int) file line
  | .leveled level => impl g env time level (.zero .int) file line
  | .function level func => do
      let (l, g) ← impl g env time level (.zero .int) file line
      let stream ← inserts l.stream [cString func, .char 32]
      return ({ l with stream := stream }, g)
  | .system toAbort => impl g env time (if toAbort then .fatal else .error) env.errno file line

/-! ### The destructor -/

def finish (l : Logger) : Except Fault Logger := do
  let stream ← inserts l.stream [.text (ascii " - "), .text l.basename.data, .char 58,
    .integer l.line, .char 10]
  return { l with stream := stream }

/-- What is passed to `g_output`, and whether the process is ended then. -/
def dtor (l : Logger) : Except Fault (List UInt8 × Bool) := do
  let l ← l.finish
  return (l.stream.buffer.data, l.level = .fatal)

end Logger

end Muduo.Base
