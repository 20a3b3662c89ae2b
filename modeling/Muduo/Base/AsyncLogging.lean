import Muduo.Base.LogStream
import Muduo.Library.Run

/-! The asynchronous logger: `append` of the front end, and the pieces of `threadFunc`
between which other threads can run. -/

namespace Muduo.Base

open Library

namespace AsyncLogging

/-- Failed assertions, and the use of a null pointer. -/
inductive Fault where
  | running
  | newBuffer1
  | newBuffer2
  | notCleared
  | nothingSwapped
  | noBufferLeft
  | null
  deriving DecidableEq, Repr

abbrev Buffer := FixedBuffer kLargeBuffer

/-- A `unique_ptr`. -/
abbrev BufferPtr := Option Buffer

end AsyncLogging

open AsyncLogging

structure AsyncLogging where
  running : Bool
  currentBuffer : BufferPtr
  nextBuffer : BufferPtr
  buffers : List BufferPtr
  deriving DecidableEq, Repr

namespace AsyncLogging

def init : AsyncLogging where
  running := false
  currentBuffer := some .ctor
  nextBuffer := some .ctor
  buffers := []

/-- All of it is under the mutex. Whether there was a next buffer or not, there is none
when the current one had to be replaced. -/
def append (a : AsyncLogging) (logline : List UInt8) : Except Fault AsyncLogging :=
  match a.currentBuffer with
  | none => .error .null
  | some current =>
      if logline.length < current.avail then
        .ok { a with currentBuffer := some (current.append logline) }
      else
        .ok { a with
          buffers := a.buffers ++ [some current]
          currentBuffer := some ((a.nextBuffer.getD .ctor).append logline)
          nextBuffer := none }

/-- The variables of `threadFunc`; `output` is what `output.append` has been given. -/
structure Backend where
  newBuffer1 : BufferPtr
  newBuffer2 : BufferPtr
  buffersToWrite : List BufferPtr
  output : List UInt8
  deriving DecidableEq, Repr

/-- The end of the section under the mutex: what follows the wait, or what follows the test
if there was nothing to wait for. -/
def swap (a : AsyncLogging) (t : Backend) : AsyncLogging × Backend :=
  ({ a with
      currentBuffer := t.newBuffer1
      buffers := t.buffersToWrite
      nextBuffer := if a.nextBuffer.isSome then a.nextBuffer else t.newBuffer2 },
    { t with
      newBuffer1 := none
      newBuffer2 := if a.nextBuffer.isSome then t.newBuffer2 else none
      buffersToWrite := a.buffers ++ [a.currentBuffer] })

namespace Backend

def init : Backend where
  newBuffer1 := some .ctor
  newBuffer2 := some .ctor
  buffersToWrite := []
  output := []

/-- The assertions at the head of the loop. -/
def check (t : Backend) : Except Fault Unit := do
  ensure (t.newBuffer1.any (·.length = 0) = true) .newBuffer1
  ensure (t.newBuffer2.any (·.length = 0) = true) .newBuffer2
  ensure (t.buffersToWrite = []) .notCleared

/-- The text of `snprintf` into an array of 256 characters; `now` is the formatted time. It
goes to `stderr` as well. -/
def droppedText (now : String) (count : ℕ) : List UInt8 :=
  ("Dropped log messages at " ++ now ++ ", " ++ toString count ++
    " larger buffers\n").toUTF8.data.toList.take 255

/-- From the end of the section under the mutex to the loop that writes. -/
def dropBuffers (t : Backend) (now : String) : Except Fault Backend := do
  ensure (t.buffersToWrite ≠ []) .nothingSwapped
  return if 25 < t.buffersToWrite.length then
    { t with
      output := t.output ++ droppedText now (t.buffersToWrite.length - 2)
      buffersToWrite := t.buffersToWrite.take 2 }
  else t

def writeBuffer (t : Backend) (buffer : BufferPtr) : Except Fault Backend :=
  match buffer with
  | none => .error .null
  | some b => .ok { t with output := t.output ++ b.data }

/-- The last buffer is taken out and reset. -/
def takeBack (buffersToWrite : List BufferPtr) : Except Fault (BufferPtr × List BufferPtr) :=
  match buffersToWrite.getLast? with
  | none => .error .noBufferLeft
  | some none => .error .null
  | some (some b) => .ok (some b.reset, buffersToWrite.dropLast)

/-- From the loop that writes to the end of the round. -/
def recycle (t : Backend) : Except Fault Backend := do
  let left := if 2 < t.buffersToWrite.length then t.buffersToWrite.take 2 else t.buffersToWrite
  let (newBuffer1, left) ←
    if t.newBuffer1.isSome then .ok (t.newBuffer1, left) else takeBack left
  let (newBuffer2, _) ←
    if t.newBuffer2.isSome then .ok (t.newBuffer2, left) else takeBack left
  return ⟨newBuffer1, newBuffer2, [], t.output⟩

end Backend

end AsyncLogging

end Muduo.Base
