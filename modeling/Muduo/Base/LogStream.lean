import Muduo.Base.Literal
import Muduo.Library.Run
import Mathlib.Algebra.Group.Int.Defs
import Mathlib.Algebra.Group.Nat.Defs
import Mathlib.Data.List.Basic

/-! Log streams: their buffers, and how integers, pointers and texts are written to them. -/

namespace Muduo.Base

open Library Net

def kSmallBuffer : ℕ := 4000

def kLargeBuffer : ℕ := 4000 * 1000

/-- The bytes from `data_` to `cur_`. -/
structure FixedBuffer (size : ℕ) where
  data : List UInt8
  fits : data.length ≤ size
  deriving DecidableEq, Repr

namespace FixedBuffer

variable {size : ℕ}

def ctor : FixedBuffer size := ⟨[], Nat.zero_le _⟩

def length (b : FixedBuffer size) : ℕ := b.data.length

def avail (b : FixedBuffer size) : ℕ := size - b.length

theorem length_append_le {b : FixedBuffer size} {buf : List UInt8} (h : buf.length < b.avail) :
    (b.data ++ buf).length ≤ size := by
  rw [avail, length] at h
  rw [List.length_append]
  omega

/-- What does not fit is dropped. -/
def append (b : FixedBuffer size) (buf : List UInt8) : FixedBuffer size :=
  if h : buf.length < b.avail then ⟨b.data ++ buf, length_append_le h⟩ else b

def reset (_ : FixedBuffer size) : FixedBuffer size := ctor

end FixedBuffer

/-! ### Integers as text -/

namespace LogStream

/-- A store past the end of the memory, and an index outside a table of digits. -/
inductive Fault where
  | overrun
  | digits
  deriving DecidableEq, Repr

/-- The types whose values `operator<<` takes. -/
inductive IntType where
  | short
  | unsignedShort
  | int
  | unsignedInt
  | long
  | unsignedLong
  | longLong
  | unsignedLongLong
  deriving DecidableEq, Repr

def IntType.min : IntType → ℤ
  | short => -2 ^ 15
  | int => -2 ^ 31
  | long | longLong => -2 ^ 63
  | unsignedShort | unsignedInt | unsignedLong | unsignedLongLong => 0

def IntType.max : IntType → ℤ
  | short => 2 ^ 15 - 1
  | unsignedShort => 2 ^ 16 - 1
  | int => 2 ^ 31 - 1
  | unsignedInt => 2 ^ 32 - 1
  | long | longLong => 2 ^ 63 - 1
  | unsignedLong | unsignedLongLong => 2 ^ 64 - 1

/-- A value of an integer type. -/
structure Value where
  type : IntType
  val : ℤ
  min_le : type.min ≤ val
  le_max : val ≤ type.max

theorem IntType.min_le_zero (t : IntType) : t.min ≤ 0 := by
  cases t <;> decide

theorem IntType.zero_le_max (t : IntType) : 0 ≤ t.max := by
  cases t <;> decide

def Value.zero (type : IntType) : Value := ⟨type, 0, type.min_le_zero, type.zero_le_max⟩

/-- `*p = b`, for the element number `p` of `buf`. -/
def store (buf : List UInt8) (p : ℕ) (b : UInt8) : Except Fault (List UInt8) := do
  ensure (p < buf.length) .overrun
  return buf.set p b

def lookup (table : List UInt8) (i : ℤ) : Except Fault UInt8 :=
  if 0 ≤ i then
    match table[i.toNat]? with
    | some b => .ok b
    | none => .error .digits
  else .error .digits

def digits : List UInt8 := ascii "9876543210123456789" ++ [0]

/-- `zero[lsd]`, where `zero` points into the middle of `digits`. -/
def zero (lsd : ℤ) : Except Fault UInt8 := lookup digits (9 + lsd)

def digitsHex : List UInt8 := ascii "0123456789ABCDEF" ++ [0]

/-- The loop of `convert` and of `convertHex`. Division truncates, and no number in it is further
from zero than the value, so the arithmetic of the type is that of the integers. The first
argument bounds the rounds. -/
def convertLoop (base : ℤ) (digit : ℤ → Except Fault UInt8) :
    ℕ → ℤ → List UInt8 → ℕ → Except Fault (List UInt8 × ℕ)
  | 0, _, buf, p => .ok (buf, p)
  | rounds + 1, i, buf, p => do
      let lsd := i.tmod base
      let i := i.tdiv base
      let b ← digit lsd
      let buf ← store buf p b
      if i ≠ 0 then convertLoop base digit rounds i buf (p + 1) else return (buf, p + 1)

/-- `*p = 0` and the reversal of what stands before it. The result has the number of characters. -/
def terminate (buf : List UInt8) (p : ℕ) : Except Fault (List UInt8 × ℕ) := do
  let buf ← store buf p 0
  return ((buf.take p).reverse ++ buf.drop p, p)

def convert (buf : List UInt8) (value : ℤ) : Except Fault (List UInt8 × ℕ) := do
  let (buf, p) ← convertLoop 10 zero (value.natAbs + 1) value buf 0
  if value < 0 then
    let buf ← store buf p 45
    terminate buf (p + 1)
  else
    terminate buf p

def convertHex (buf : List UInt8) (value : ℕ) : Except Fault (List UInt8 × ℕ) := do
  let (buf, p) ← convertLoop 16 (lookup digitsHex) (value + 1) value buf 0
  terminate buf p

end LogStream

/-! ### Streams -/

structure LogStream where
  buffer : FixedBuffer kSmallBuffer
  deriving DecidableEq, Repr

namespace LogStream

def kMaxNumericSize : ℕ := 32

def init : LogStream := ⟨.ctor⟩

/-- The memory from `current()` to the end. Nothing reads it before it is written, so zeros stand
for what it holds. -/
def current (s : LogStream) : List UInt8 := List.replicate s.buffer.avail 0

/-- `buffer_.add(len)`, behind which `buf` has been written. -/
def add (s : LogStream) (buf : List UInt8) (len : ℕ) : Except Fault LogStream :=
  if h : (s.buffer.data ++ buf.take len).length ≤ kSmallBuffer then
    .ok ⟨⟨s.buffer.data ++ buf.take len, h⟩⟩
  else .error .overrun

def formatInteger (s : LogStream) (v : ℤ) : Except Fault LogStream :=
  if kMaxNumericSize ≤ s.buffer.avail then do
    let (buf, len) ← convert s.current v
    s.add buf len
  else .ok s

/-- `operator<<(const void*)`, for the number of the address. -/
def formatPointer (s : LogStream) (p : ℕ) : Except Fault LogStream :=
  if kMaxNumericSize ≤ s.buffer.avail then do
    let buf ← store s.current 0 48
    let buf ← store buf 1 120
    let (rest, len) ← convertHex (buf.drop 2) p
    s.add (buf.take 2 ++ rest) (len + 2)
  else .ok s

def append (s : LogStream) (data : List UInt8) : LogStream := ⟨s.buffer.append data⟩

/-- What `operator<<` takes: a `short` is inserted as an `int`, a `const char*` that is not null
with the characters in front of its `NUL`. Floating-point numbers are left out. -/
inductive Insertion where
  | bool (v : Bool)
  | integer (v : Value)
  | pointer (v : ℕ) (h : v < 2 ^ 64)
  | char (v : UInt8)
  | text (v : List UInt8)
  | null

def insert (s : LogStream) : Insertion → Except Fault LogStream
  | .bool v => .ok (s.append (if v then ascii "1" else ascii "0"))
  | .integer v => s.formatInteger v.val
  | .pointer v _ => s.formatPointer v
  | .char v => .ok (s.append [v])
  | .text v => .ok (s.append v)
  | .null => .ok (s.append (ascii "(null)"))

def insertAll (s : LogStream) (xs : List Insertion) : Except Fault LogStream :=
  xs.foldlM insert s

end LogStream

end Muduo.Base
