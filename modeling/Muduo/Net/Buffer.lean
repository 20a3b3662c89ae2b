import Muduo.Library.Run
import Muduo.Library.Copy
import Muduo.Library.Search
import Muduo.Library.Word

/-! The input and output buffer of a connection. A pointer into the storage is its
offset from `begin()`, and `std::vector<char>` is the list of its cells. -/

namespace Muduo.Net

open Library

/-- `StringPiece`: the memory that starts at `ptr_`, and `length_`, which is an `int`. -/
structure StringPiece where
  data : List UInt8
  length : ℤ
  deriving DecidableEq, Repr

/-- The bytes in memory of an integer of `size` bytes in network order. -/
def hostToNetwork (size : ℕ) (x : ℤ) : List UInt8 := toBytes size (word (8 * size) x)

/-- The signed integer of `size` bytes that memory holds in network order. -/
def networkToHost (size : ℕ) (be : List UInt8) : ℤ := signed (8 * size) (ofBytes be)

def hostToNetwork64 (x : ℤ) : List UInt8 := hostToNetwork 8 x

def networkToHost64 (be64 : List UInt8) : ℤ := networkToHost 8 be64

def hostToNetwork32 (x : ℤ) : List UInt8 := hostToNetwork 4 x

def networkToHost32 (be32 : List UInt8) : ℤ := networkToHost 4 be32

def hostToNetwork16 (x : ℤ) : List UInt8 := hostToNetwork 2 x

def networkToHost16 (be16 : List UInt8) : ℤ := networkToHost 2 be16

structure Buffer where
  buffer : List UInt8
  readerIndex : ℕ
  writerIndex : ℕ
  deriving DecidableEq, Repr

namespace Buffer

/-- The assertions of `Buffer`, and a read past the memory of a `StringPiece`. -/
inductive Fault where
  | ctor
  | retrieve
  | retrieveUntil
  | retrieveAsString
  | ensureWritableBytes
  | hasWritten
  | unwrite
  | peekInt
  | prepend
  | makeSpaceReader
  | makeSpaceReadable
  | stringPiece
  deriving DecidableEq, Repr

def kCheapPrepend : ℕ := 8

def kInitialSize : ℕ := 1024

def readableBytes (b : Buffer) : ℕ := b.writerIndex - b.readerIndex

def writableBytes (b : Buffer) : ℕ := b.buffer.length - b.writerIndex

def prependableBytes (b : Buffer) : ℕ := b.readerIndex

def peek (b : Buffer) : ℕ := b.readerIndex

def beginWrite (b : Buffer) : ℕ := b.writerIndex

/-- The bytes in `[first, last)`. -/
def bytes (b : Buffer) (first last : ℕ) : List UInt8 := (b.buffer.take last).drop first

/-- The readable bytes, from `peek()` to `beginWrite()`. -/
def readable (b : Buffer) : List UInt8 := b.bytes b.peek b.beginWrite

def kCRLF : List UInt8 := [13, 10]

/-- The pointer to the first `\r\n` among the readable bytes, if there is one. -/
def findCRLF (b : Buffer) : Option ℕ := (search kCRLF b.readable).map (b.peek + ·)

/-- The members as the constructor initialises them. -/
def init (initialSize : ℕ) : Buffer where
  buffer := List.replicate (kCheapPrepend + initialSize) 0
  readerIndex := kCheapPrepend
  writerIndex := kCheapPrepend

/-- `Buffer(initialSize)`, with its assertions. -/
def ctor (initialSize : ℕ) : Except Fault Buffer := do
  let b := init initialSize
  ensure (b.readableBytes = 0) .ctor
  ensure (b.writableBytes = initialSize) .ctor
  ensure (b.prependableBytes = kCheapPrepend) .ctor
  return b

/-- `vector::resize`: the cells it adds are zero. -/
def resize (v : List UInt8) (n : ℕ) : List UInt8 := v.take n ++ List.replicate (n - v.length) 0

def retrieveAll (b : Buffer) : Buffer :=
  { b with readerIndex := kCheapPrepend, writerIndex := kCheapPrepend }

def retrieve (b : Buffer) (len : ℕ) : Except Fault Buffer := do
  ensure (len ≤ b.readableBytes) .retrieve
  if len < b.readableBytes then
    return { b with readerIndex := b.readerIndex + len }
  else
    return b.retrieveAll

def retrieveUntil (b : Buffer) (last : ℕ) : Except Fault Buffer := do
  ensure (b.peek ≤ last) .retrieveUntil
  ensure (last ≤ b.beginWrite) .retrieveUntil
  b.retrieve (last - b.peek)

def retrieveAsString (b : Buffer) (len : ℕ) : Except Fault (List UInt8 × Buffer) := do
  ensure (len ≤ b.readableBytes) .retrieveAsString
  let result := b.bytes b.peek (b.peek + len)
  let b ← b.retrieve len
  return (result, b)

def retrieveAllAsString (b : Buffer) : Except Fault (List UInt8 × Buffer) :=
  b.retrieveAsString b.readableBytes

def toStringPiece (b : Buffer) : StringPiece where
  data := b.readable
  length := castInt b.readableBytes

/-- Grow, or move the readable bytes to the front of the storage. -/
def makeSpace (b : Buffer) (len : ℕ) : Except Fault Buffer :=
  if b.writableBytes + b.prependableBytes < len + kCheapPrepend then
    .ok { b with buffer := resize b.buffer (b.writerIndex + len) }
  else do
    ensure (kCheapPrepend < b.readerIndex) .makeSpaceReader
    let readable := b.readableBytes
    let b' : Buffer :=
      { buffer := copyWithin readable b.readerIndex kCheapPrepend b.buffer
        readerIndex := kCheapPrepend
        writerIndex := kCheapPrepend + readable }
    ensure (readable = b'.readableBytes) .makeSpaceReadable
    return b'

def ensureWritableBytes (b : Buffer) (len : ℕ) : Except Fault Buffer := do
  let b ← if b.writableBytes < len then b.makeSpace len else .ok b
  ensure (len ≤ b.writableBytes) .ensureWritableBytes
  return b

/-- Storing through the pointer `beginWrite()`; the indices do not move. -/
def writeAt (b : Buffer) (data : List UInt8) : Buffer :=
  { b with buffer := copyInto data b.beginWrite b.buffer }

def hasWritten (b : Buffer) (len : ℕ) : Except Fault Buffer := do
  ensure (len ≤ b.writableBytes) .hasWritten
  return { b with writerIndex := b.writerIndex + len }

def append (b : Buffer) (data : List UInt8) : Except Fault Buffer := do
  let b ← b.ensureWritableBytes data.length
  (b.writeAt data).hasWritten data.length

/-- `append(const StringPiece&)`: `size()` is converted to `size_t`. -/
def appendPiece (b : Buffer) (str : StringPiece) : Except Fault Buffer := do
  ensure (0 ≤ str.length ∧ str.length ≤ str.data.length) .stringPiece
  b.append (str.data.take str.length.toNat)

def unwrite (b : Buffer) (len : ℕ) : Except Fault Buffer := do
  ensure (len ≤ b.readableBytes) .unwrite
  return { b with writerIndex := b.writerIndex - len }

def prepend (b : Buffer) (data : List UInt8) : Except Fault Buffer := do
  ensure (data.length ≤ b.prependableBytes) .prepend
  let reader := b.readerIndex - data.length
  return { b with readerIndex := reader, buffer := copyInto data reader b.buffer }

def appendInt64 (b : Buffer) (x : ℤ) : Except Fault Buffer := b.append (hostToNetwork64 x)

def appendInt32 (b : Buffer) (x : ℤ) : Except Fault Buffer := b.append (hostToNetwork32 x)

def appendInt16 (b : Buffer) (x : ℤ) : Except Fault Buffer := b.append (hostToNetwork16 x)

/-- The byte of an `int8_t` is stored as it is. -/
def appendInt8 (b : Buffer) (x : ℤ) : Except Fault Buffer := b.append (toBytes 1 (word 8 x))

/-- `peekIntN`, with the conversion of the bytes it copies from `peek()`. -/
def peekInt (size : ℕ) (toHost : List UInt8 → ℤ) (b : Buffer) : Except Fault ℤ := do
  ensure (size ≤ b.readableBytes) .peekInt
  return toHost (b.bytes b.peek (b.peek + size))

def peekInt64 (b : Buffer) : Except Fault ℤ := b.peekInt 8 networkToHost64

def peekInt32 (b : Buffer) : Except Fault ℤ := b.peekInt 4 networkToHost32

def peekInt16 (b : Buffer) : Except Fault ℤ := b.peekInt 2 networkToHost16

def peekInt8 (b : Buffer) : Except Fault ℤ := b.peekInt 1 fun x => signed 8 (ofBytes x)

def retrieveInt64 (b : Buffer) : Except Fault Buffer := b.retrieve 8

def retrieveInt32 (b : Buffer) : Except Fault Buffer := b.retrieve 4

def retrieveInt16 (b : Buffer) : Except Fault Buffer := b.retrieve 2

def retrieveInt8 (b : Buffer) : Except Fault Buffer := b.retrieve 1

def readInt64 (b : Buffer) : Except Fault (ℤ × Buffer) := do
  let result ← b.peekInt64
  let b ← b.retrieveInt64
  return (result, b)

def readInt32 (b : Buffer) : Except Fault (ℤ × Buffer) := do
  let result ← b.peekInt32
  let b ← b.retrieveInt32
  return (result, b)

def readInt16 (b : Buffer) : Except Fault (ℤ × Buffer) := do
  let result ← b.peekInt16
  let b ← b.retrieveInt16
  return (result, b)

def readInt8 (b : Buffer) : Except Fault (ℤ × Buffer) := do
  let result ← b.peekInt8
  let b ← b.retrieveInt8
  return (result, b)

def prependInt64 (b : Buffer) (x : ℤ) : Except Fault Buffer := b.prepend (hostToNetwork64 x)

def prependInt32 (b : Buffer) (x : ℤ) : Except Fault Buffer := b.prepend (hostToNetwork32 x)

def prependInt16 (b : Buffer) (x : ℤ) : Except Fault Buffer := b.prepend (hostToNetwork16 x)

def prependInt8 (b : Buffer) (x : ℤ) : Except Fault Buffer := b.prepend (toBytes 1 (word 8 x))

/-- `swap(rhs)` gives each buffer the members of the other. -/
def shrink (b : Buffer) (reserve : ℕ) : Except Fault Buffer := do
  let other ← ctor kInitialSize
  let other ← other.ensureWritableBytes (b.readableBytes + reserve)
  other.appendPiece b.toStringPiece

/-- `sizeof extrabuf` in `readFd`. -/
def extrabuf : ℕ := 65536

/-- The bytes offered to `readv`: the writable ones, and `extrabuf` when these are
fewer than it holds. -/
def iovCapacity (b : Buffer) : ℕ :=
  b.writableBytes + if b.writableBytes < extrabuf then extrabuf else 0

/-- `readFd`, given what `readv` stored or the `errno` it failed with. The result is
the byte count it returns, or `savedErrno`. -/
def readFd (b : Buffer) : Except ℕ (List UInt8) → Except Fault (Except ℕ ℕ × Buffer)
  | .error errno => .ok (.error errno, b)
  | .ok data =>
      let writable := b.writableBytes
      -- `readv` fills the first area before it stores into the second one.
      let b := b.writeAt (data.take writable)
      if data.length ≤ writable then
        .ok (.ok data.length, { b with writerIndex := b.writerIndex + data.length })
      else do
        let b ← { b with writerIndex := b.buffer.length }.append (data.drop writable)
        return (.ok data.length, b)

end Buffer

end Muduo.Net
