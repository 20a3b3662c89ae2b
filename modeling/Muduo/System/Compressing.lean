import Muduo.Net.ZlibStream

/-! A stream that compresses what a sequence of calls hands to it. -/

namespace Muduo.System.Compressing

open Library Net ZlibOutputStream

/-- A call, with what `deflate` and `deflateEnd` do in it. -/
inductive Label where
  | writePiece (buf : StringPiece) (deflate : List Answer)
  | writeBuffer (input : Buffer) (deflate : Answer)
  | finish (deflate : List Answer) (deflateEnd : Code)
  deriving DecidableEq, Repr

/-- The stream, and history: the pieces that were written and the bytes that were retrieved from
input buffers. -/
structure State where
  stream : ZlibOutputStream
  due : List UInt8
  deriving DecidableEq, Repr

def start (output : Buffer) (deflateInit : Code) : State := ⟨.ctor output deflateInit, []⟩

/-- The characters of a piece. -/
def content (buf : StringPiece) : List UInt8 := buf.data.take buf.length.toNat

def exec (s : State) : Label → Except Fault State
  | .writePiece buf deflate => do
      let (_, stream) ← s.stream.writePiece buf deflate
      return ⟨stream, if s.stream.zerror = .ok then s.due ++ content buf else s.due⟩
  | .writeBuffer input deflate => do
      let (_, input', stream) ← s.stream.writeBuffer input deflate
      return ⟨stream, s.due ++ input.readable.take (input.readableBytes - input'.readableBytes)⟩
  | .finish deflate deflateEnd => do
      let (_, stream) ← s.stream.finish deflate deflateEnd
      return ⟨stream, s.due⟩

end Muduo.System.Compressing
