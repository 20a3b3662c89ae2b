import Muduo.Library.Loop
import Muduo.Net.Buffer

/-! The stream that compresses to a buffer. What `deflate` does in a call is an argument of the
functions that call it. -/

namespace Muduo.Net

open Library

namespace ZlibOutputStream

/-- The two assertions of `write`, the faults of a buffer, and a loop that `deflate` has not
brought to its end. -/
inductive Fault where
  | nextIn
  | bufEnd
  | buffer (fault : Buffer.Fault)
  | pending
  deriving DecidableEq, Repr

/-- What the functions of zlib return: `Z_OK`, `Z_STREAM_END`, or an error. -/
inductive Code where
  | ok
  | streamEnd
  | error (code : ℤ)
  deriving DecidableEq, Repr

/-- The memory that a pointer points into, and where. -/
structure Pointer where
  memory : List UInt8
  offset : ℕ
  deriving DecidableEq, Repr

/-- A call of `deflate`: how much it took from `next_in`, what it stored at `next_out`, and what
it returned. -/
structure Answer where
  consumed : ℕ
  produced : List UInt8
  code : Code
  deriving DecidableEq, Repr

end ZlibOutputStream

open ZlibOutputStream

/-- `next_out` and `avail_out` are set for each call of `deflate` and not kept. The last field
records history: the bytes that `deflate` has taken. -/
structure ZlibOutputStream where
  output : Buffer
  nextIn : Option Pointer
  availIn : ℕ
  zerror : Code
  bufferSize : ℕ
  taken : List UInt8
  deriving DecidableEq, Repr

namespace ZlibOutputStream

/-- The constructor, for what `deflateInit` returned. -/
def ctor (output : Buffer) (deflateInit : Code) : ZlibOutputStream :=
  ⟨output, none, 0, deflateInit, 1024, []⟩

/-- The first `n` bytes that a pointer points to. -/
def bytesAt : Option Pointer → ℕ → List UInt8
  | none, _ => []
  | some p, n => (p.memory.drop p.offset).take n

def advance (p : Option Pointer) (n : ℕ) : Option Pointer :=
  p.map fun p => { p with offset := p.offset + n }

/-- A size that is converted to `int` and stored as an `unsigned`. -/
def avail (n : ℕ) : ℕ := word 32 (castInt n)

/-- The argument `flush` matters only for what `deflate` may do. -/
def compress (z : ZlibOutputStream) (deflate : Answer) :
    Except Fault (Code × ZlibOutputStream) := do
  let output ← (z.output.ensureWritableBytes z.bufferSize).mapError .buffer
  let availOut := avail output.writableBytes
  let output := output.writeAt deflate.produced
  let availOut := availOut - deflate.produced.length
  let output ← (output.hasWritten (output.writableBytes - availOut)).mapError .buffer
  let bufferSize :=
    if output.writableBytes = 0 ∧ z.bufferSize < 65536 then z.bufferSize * 2 else z.bufferSize
  return (deflate.code, { z with
    output := output
    nextIn := advance z.nextIn deflate.consumed
    availIn := z.availIn - deflate.consumed
    bufferSize := bufferSize
    taken := z.taken ++ bytesAt z.nextIn deflate.consumed })

/-- `zerror_ = compress(flush)`. -/
def round (z : ZlibOutputStream) (deflate : Answer) : Except Fault ZlibOutputStream := do
  let (code, z) ← z.compress deflate
  return { z with zerror := code }

/-- `next_in` and `avail_in` are set. -/
def setIn (z : ZlibOutputStream) (p : Pointer) (n : ℕ) : ZlibOutputStream :=
  { z with nextIn := some p, availIn := n }

/-- The condition of the loop in `write(StringPiece)` and of the `if` in `write(Buffer*)`. -/
def Hungry (z : ZlibOutputStream) : Prop := 0 < z.availIn ∧ z.zerror = .ok

instance (z : ZlibOutputStream) : Decidable z.Hungry := inferInstanceAs (Decidable (_ ∧ _))

/-- `write(StringPiece)`. -/
def writePiece (z : ZlibOutputStream) (buf : StringPiece) (deflate : List Answer) :
    Except Fault (Bool × ZlibOutputStream) :=
  if z.zerror ≠ .ok then .ok (false, z)
  else do
    ensure (z.nextIn = none ∧ z.availIn = 0) .nextIn
    let z := z.setIn ⟨buf.data, 0⟩ (word 32 buf.length)
    let z ← loop Hungry round .pending z deflate
    if z.availIn = 0 then
      ensure (z.nextIn = some ⟨buf.data, buf.length.toNat⟩) .bufEnd
      return (z.zerror = .ok, { z with nextIn := none })
    else
      return (z.zerror = .ok, z)

/-- The `if` of `write(Buffer*)`. -/
def feed (z : ZlibOutputStream) (deflate : Answer) : Except Fault ZlibOutputStream :=
  if z.Hungry then z.round deflate else .ok z

/-- `write(Buffer*)`; the buffer is not the output. -/
def writeBuffer (z : ZlibOutputStream) (input : Buffer) (deflate : Answer) :
    Except Fault (Bool × Buffer × ZlibOutputStream) :=
  if z.zerror ≠ .ok then .ok (false, input, z)
  else do
    let z := z.setIn ⟨input.buffer, input.peek⟩ (avail input.readableBytes)
    let z ← z.feed deflate
    let input ← (input.retrieve (input.readableBytes - z.availIn)).mapError .buffer
    return (z.zerror = .ok, input, z)

/-- The condition of the loop in `finish`. -/
def Going (z : ZlibOutputStream) : Prop := z.zerror = .ok

instance (z : ZlibOutputStream) : Decidable z.Going := inferInstanceAs (Decidable (_ = _))

def finish (z : ZlibOutputStream) (deflate : List Answer) (deflateEnd : Code) :
    Except Fault (Bool × ZlibOutputStream) :=
  if z.zerror ≠ .ok then .ok (false, z)
  else do
    let z ← loop Going round .pending z deflate
    return (deflateEnd = .ok, { z with zerror := .streamEnd })

end ZlibOutputStream

end Muduo.Net
