import Muduo.Net.Buffer

/-! The codec that frames protobuf messages: a length, a tag, the payload and a
checksum. -/

namespace Muduo.Net

open Library

/-- The class of the messages: what the library of protocol buffers does for those that
are initialised. -/
structure Prototype (μ : Type) where
  byteSize : μ → ℕ
  serialize : μ → List UInt8
  parseFromArray : List UInt8 → Option μ

/-- `adler32` is the checksum of zlib, started at 1. The tag is short enough for
`kMinMessageLen + kHeaderLen` to be an `int`. -/
structure ProtobufCodecLite (μ : Type) where
  prototype : Prototype μ
  adler32 : List UInt8 → ℕ
  tag : List UInt8
  tag_lt : tag.length + 8 < 2 ^ 31
  rawCb : Option (List UInt8 → Bool)

namespace ProtobufCodecLite

inductive ErrorCode where
  | kNoError
  | kInvalidLength
  | kCheckSumError
  | kInvalidNameLen
  | kUnknownMessageType
  | kParseError
  deriving DecidableEq, Repr

/-- Failed assertions and checks, reads that leave the readable bytes or have a negative
length, and a loop that does not return. -/
inductive Fault where
  | buffer (fault : Buffer.Fault)
  | notEmpty
  | byteSizeConsistency
  | frameSize
  | negativeLength
  | outside
  | diverges
  deriving DecidableEq, Repr

/-- What the two callbacks are called with. -/
inductive Event (μ : Type) where
  | message (m : μ)
  | error (code : ErrorCode)
  deriving DecidableEq, Repr

/-- The input buffer of a connection and the calls of the callbacks so far. -/
structure Input (μ : Type) where
  buffer : Buffer
  trace : List (Event μ)

variable {μ : Type}

def Input.init : Input μ := ⟨.init Buffer.kInitialSize, []⟩

def kHeaderLen : ℤ := 4

def kChecksumLen : ℤ := 4

def kMaxMessageLen : ℤ := 64 * 1024 * 1024

def kMinMessageLen (c : ProtobufCodecLite μ) : ℤ := c.tag.length + kChecksumLen

/-- Reading `len` bytes at `p`, which have to be readable. -/
def load (b : Buffer) (p len : ℤ) : Except Fault (List UInt8) := do
  ensure (0 ≤ len) .negativeLength
  ensure (b.peek ≤ p ∧ p + len ≤ b.beginWrite) .outside
  return b.bytes p.toNat (p + len).toNat

def asInt32 (b : Buffer) (buf : ℤ) : Except Fault ℤ := do
  let be32 ← load b buf 4
  return networkToHost32 be32

def checksum (c : ProtobufCodecLite μ) (b : Buffer) (buf len : ℤ) : Except Fault ℤ := do
  let data ← load b buf len
  return signed 32 (c.adler32 data)

def validateChecksum (c : ProtobufCodecLite μ) (b : Buffer) (buf len : ℤ) :
    Except Fault Bool := do
  let expectedCheckSum ← asInt32 b (buf + len - kChecksumLen)
  let checkSum ← c.checksum b buf (len - kChecksumLen)
  return checkSum = expectedCheckSum

def parseFromBuffer (c : ProtobufCodecLite μ) (b : Buffer) (data dataLen : ℤ) :
    Except Fault (Option μ) := do
  let bytes ← load b data dataLen
  return c.prototype.parseFromArray bytes

/-- The error code is `kNoError` exactly when there is a message. -/
def parse (c : ProtobufCodecLite μ) (b : Buffer) (buf len : ℤ) :
    Except Fault (Except ErrorCode μ) := do
  if ← c.validateChecksum b buf len then
    let front ← load b buf c.tag.length
    if front = c.tag then
      match ← c.parseFromBuffer b (buf + c.tag.length) (len - kChecksumLen - c.tag.length) with
      | some m => return .ok m
      | none => return .error .kParseError
    else
      return .error .kUnknownMessageType
  else
    return .error .kCheckSumError

/-- `rawCb_ && !rawCb_(conn, StringPiece(buf->peek(), len), receiveTime)` -/
def rawRejects (c : ProtobufCodecLite μ) (b : Buffer) (len : ℤ) : Except Fault Bool :=
  match c.rawCb with
  | some rawCb => do
      let piece ← load b b.peek len
      return !rawCb piece
  | none => .ok false

/-- One iteration of the loop in `onMessage`, and whether it goes on. The error callback
leaves the buffer alone. -/
def onFrame (c : ProtobufCodecLite μ) (s : Input μ) : Except Fault (Bool × Input μ) := do
  if word 32 (c.kMinMessageLen + kHeaderLen) ≤ s.buffer.readableBytes then
    let len ← s.buffer.peekInt32.mapError .buffer
    if kMaxMessageLen < len ∨ len < c.kMinMessageLen then
      return (false, { s with trace := s.trace ++ [.error .kInvalidLength] })
    else if word 64 (kHeaderLen + len) ≤ s.buffer.readableBytes then
      if ← c.rawRejects s.buffer (kHeaderLen + len) then
        let buffer ← (s.buffer.retrieve (word 64 (kHeaderLen + len))).mapError .buffer
        return (true, { s with buffer := buffer })
      else
        match ← c.parse s.buffer (s.buffer.peek + kHeaderLen) len with
        | .ok m =>
            let buffer ← (s.buffer.retrieve (word 64 (kHeaderLen + len))).mapError .buffer
            return (true, { buffer := buffer, trace := s.trace ++ [.message m] })
        | .error code => return (false, { s with trace := s.trace ++ [.error code] })
    else
      return (false, s)
  else
    return (false, s)

def onMessageLoop (c : ProtobufCodecLite μ) : ℕ → Input μ → Except Fault (Input μ)
  | 0, _ => .error .diverges
  | fuel + 1, s => do
      let (goesOn, s) ← c.onFrame s
      if goesOn then c.onMessageLoop fuel s else return s

/-- An iteration after which the loop goes on has retrieved a frame, so a loop that
returns at all does so within this many iterations. -/
def onMessage (c : ProtobufCodecLite μ) (s : Input μ) : Except Fault (Input μ) :=
  c.onMessageLoop (s.buffer.readableBytes + 1) s

/-- A fragment is appended to the input buffer, and `onMessage` is called. -/
def deliver (c : ProtobufCodecLite μ) (s : Input μ) (fragment : List UInt8) :
    Except Fault (Input μ) := do
  let buffer ← (s.buffer.append fragment).mapError .buffer
  c.onMessage { s with buffer := buffer }

/-! ### Encoding -/

/-- The message is stored behind the readable bytes before the check. -/
def serializeToBuffer (c : ProtobufCodecLite μ) (m : μ) (b : Buffer) :
    Except Fault (ℕ × Buffer) := do
  let byteSize := c.prototype.byteSize m
  let b ← (b.ensureWritableBytes (byteSize + kChecksumLen.toNat)).mapError .buffer
  let b := b.writeAt (c.prototype.serialize m)
  ensure ((c.prototype.serialize m).length = byteSize) .byteSizeConsistency
  let b ← (b.hasWritten byteSize).mapError .buffer
  return (byteSize, b)

def fillEmptyBuffer (c : ProtobufCodecLite μ) (b : Buffer) (m : μ) : Except Fault Buffer := do
  ensure (b.readableBytes = 0) .notEmpty
  let b ← (b.appendPiece ⟨c.tag, castInt c.tag.length⟩).mapError .buffer
  let (byteSize, b) ← c.serializeToBuffer m b
  let checkSum ← c.checksum b b.peek (castInt b.readableBytes)
  let b ← (b.appendInt32 checkSum).mapError .buffer
  ensure (b.readableBytes = c.tag.length + byteSize + kChecksumLen.toNat) .frameSize
  (b.prepend (hostToNetwork32 (castInt b.readableBytes))).mapError .buffer

end ProtobufCodecLite

end Muduo.Net
