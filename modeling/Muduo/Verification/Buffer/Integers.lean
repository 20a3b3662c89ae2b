import Muduo.Verification.Buffer.Layout

/-! Integers in network order: what is appended at any width is read back. -/

namespace Muduo.Net.Buffer

open Library

/-- The widths of the integer functions. -/
inductive Width where
  | int8
  | int16
  | int32
  | int64
  deriving DecidableEq, Repr

namespace Width

/-- `sizeof` of the type. -/
def size : Width → ℕ
  | int8 => 1
  | int16 => 2
  | int32 => 4
  | int64 => 8

/-- The values of the type. -/
def InRange (w : Width) (x : ℤ) : Prop :=
  -(2 ^ (8 * w.size - 1) : ℕ) ≤ x ∧ x < (2 ^ (8 * w.size - 1) : ℕ)

instance (w : Width) (x : ℤ) : Decidable (w.InRange x) :=
  inferInstanceAs (Decidable (_ ∧ _))

def append : Width → Buffer → ℤ → Except Fault Buffer
  | int8, b, x => b.appendInt8 x
  | int16, b, x => b.appendInt16 x
  | int32, b, x => b.appendInt32 x
  | int64, b, x => b.appendInt64 x

def prepend : Width → Buffer → ℤ → Except Fault Buffer
  | int8, b, x => b.prependInt8 x
  | int16, b, x => b.prependInt16 x
  | int32, b, x => b.prependInt32 x
  | int64, b, x => b.prependInt64 x

def peek : Width → Buffer → Except Fault ℤ
  | int8, b => b.peekInt8
  | int16, b => b.peekInt16
  | int32, b => b.peekInt32
  | int64, b => b.peekInt64

def read : Width → Buffer → Except Fault (ℤ × Buffer)
  | int8, b => b.readInt8
  | int16, b => b.readInt16
  | int32, b => b.readInt32
  | int64, b => b.readInt64

/-! ### One function for all widths -/

theorem append_eq (w : Width) (b : Buffer) (x : ℤ) :
    w.append b x = b.append (hostToNetwork w.size x) := by
  cases w <;> rfl

theorem prepend_eq (w : Width) (b : Buffer) (x : ℤ) :
    w.prepend b x = b.prepend (hostToNetwork w.size x) := by
  cases w <;> rfl

theorem peek_eq (w : Width) (b : Buffer) : w.peek b = b.peekInt w.size (networkToHost w.size) := by
  cases w <;> rfl

theorem read_eq (w : Width) (b : Buffer) :
    w.read b = w.peek b >>= fun x => b.retrieve w.size >>= fun b' => .ok (x, b') := by
  cases w <;> rfl

theorem networkToHost_hostToNetwork {w : Width} {x : ℤ} (h : w.InRange x) :
    networkToHost w.size (hostToNetwork w.size x) = x := by
  have hbits : 8 * w.size = 8 * w.size - 1 + 1 := by cases w <;> rfl
  have hpow : 256 ^ w.size = 2 ^ (8 * w.size) := by rw [Nat.pow_mul]
  rw [networkToHost, hostToNetwork, ofBytes_toBytes, hpow, signed_mod, hbits]
  exact signed_word h.1 h.2

end Width

/-- An integer and the type it has. -/
structure TaggedInt where
  width : Width
  value : ℤ
  inRange : width.InRange value

/-- The two's complement bytes of the integer, the most significant one first. -/
def TaggedInt.encoding (x : TaggedInt) : List UInt8 :=
  toBytes x.width.size (word (8 * x.width.size) x.value)

theorem TaggedInt.length_encoding (x : TaggedInt) : x.encoding.length = x.width.size :=
  length_toBytes _ _

/-- Append the integers in order. -/
def appendAll (b : Buffer) (xs : List TaggedInt) : Except Fault Buffer :=
  xs.foldlM (fun b x => x.width.append b x.value) b

/-- Read integers of the given widths in order. -/
def readAll : Buffer → List Width → Except Fault (List ℤ × Buffer)
  | b, [] => .ok ([], b)
  | b, w :: ws => do
      let first ← w.read b
      let others ← readAll first.2 ws
      return (first.1 :: others.1, others.2)

section

variable {b : Buffer} {content rest : List UInt8}

theorem Holds.peekTagged {x : TaggedInt} (hb : b.Holds (x.encoding ++ rest)) :
    x.width.peek b = .ok x.value := by
  have hsize : x.width.size ≤ (x.encoding ++ rest).length := by
    rw [List.length_append, x.length_encoding]
    omega
  have hbytes : b.bytes b.peek (b.peek + x.width.size) = x.encoding := by
    rw [hb.bytes_eq _ hsize, List.take_left' x.length_encoding]
  have hread : x.width.size ≤ b.readableBytes := by rwa [hb.readableBytes_eq]
  rw [Width.peek_eq, peekInt, ensure_of _ hread, ok_bind, hbytes]
  exact congrArg Except.ok (Width.networkToHost_hostToNetwork x.inRange)

theorem Holds.readTagged {x : TaggedInt} (hb : b.Holds (x.encoding ++ rest)) :
    ∃ b', x.width.read b = .ok (x.value, b') ∧ b'.Holds rest := by
  obtain ⟨b', hret, hb'⟩ := hb.retrieve x.width.size (by
    rw [List.length_append, x.length_encoding]
    omega)
  rw [List.drop_left' x.length_encoding] at hb'
  exact ⟨b', by rw [Width.read_eq, hb.peekTagged, ok_bind, hret, ok_bind], hb'⟩

theorem Holds.appendAll (hb : b.Holds content) (xs : List TaggedInt) :
    ∃ b', b.appendAll xs = .ok b' ∧ b'.Holds (content ++ xs.flatMap TaggedInt.encoding) := by
  induction xs generalizing b content with
  | nil => exact ⟨b, rfl, by simpa using hb⟩
  | cons x xs ih =>
      obtain ⟨b₁, happ, hb₁⟩ := hb.append x.encoding
      obtain ⟨b₂, hrest, hb₂⟩ := ih hb₁
      refine ⟨b₂, ?_, by rwa [List.flatMap_cons, ← List.append_assoc]⟩
      have hfirst : x.width.append b x.value = .ok b₁ := by rw [Width.append_eq]; exact happ
      rw [Buffer.appendAll, List.foldlM_cons, hfirst, ok_bind, ← hrest, Buffer.appendAll]

theorem Holds.readAll {xs : List TaggedInt}
    (hb : b.Holds (xs.flatMap TaggedInt.encoding ++ rest)) :
    ∃ b', b.readAll (xs.map TaggedInt.width) = .ok (xs.map TaggedInt.value, b') ∧
      b'.Holds rest := by
  induction xs generalizing b with
  | nil => exact ⟨b, rfl, hb⟩
  | cons x xs ih =>
      rw [List.flatMap_cons, List.append_assoc] at hb
      obtain ⟨b₁, hread, hb₁⟩ := hb.readTagged
      obtain ⟨b₂, hrest, hb₂⟩ := ih hb₁
      refine ⟨b₂, ?_, hb₂⟩
      rw [List.map_cons, List.map_cons, Buffer.readAll, hread, ok_bind, hrest, ok_bind]
      rfl

theorem Holds.prependTagged (hb : b.Holds content) (x : TaggedInt)
    (hroom : x.width.size ≤ b.prependableBytes) :
    ∃ b', x.width.prepend b x.value = .ok b' ∧ b'.Holds (x.encoding ++ content) := by
  obtain ⟨b', hpre, hb'⟩ := hb.prepend x.encoding (by rwa [x.length_encoding])
  exact ⟨b', by rw [Width.prepend_eq]; exact hpre, hb'⟩

/-- Integers of any widths are stored in network order and come back in order once the
content before them is gone, and a prepended integer can be peeked. -/
theorem integers_round_trip (hb : b.Holds content) :
    (∀ xs : List TaggedInt, ∃ stored retrieved empty,
      b.appendAll xs = .ok stored ∧
      stored.Holds (content ++ xs.flatMap TaggedInt.encoding) ∧
      stored.retrieve content.length = .ok retrieved ∧
      retrieved.readAll (xs.map TaggedInt.width) = .ok (xs.map TaggedInt.value, empty) ∧
      empty.Holds []) ∧
    ∀ x : TaggedInt, x.width.size ≤ b.prependableBytes → ∃ stored,
      x.width.prepend b x.value = .ok stored ∧
      x.width.peek stored = .ok x.value ∧
      stored.Holds (x.encoding ++ content) := by
  constructor
  · intro xs
    obtain ⟨stored, happ, hstored⟩ := hb.appendAll xs
    obtain ⟨retrieved, hret, hretrieved⟩ := hstored.retrieve content.length (by simp)
    rw [List.drop_left, ← List.append_nil (xs.flatMap _)] at hretrieved
    obtain ⟨empty, hread, hempty⟩ := hretrieved.readAll
    exact ⟨stored, retrieved, empty, happ, hstored, hret, hread, hempty⟩
  · intro x hroom
    obtain ⟨stored, hpre, hstored⟩ := hb.prependTagged x hroom
    exact ⟨stored, hpre, hstored.peekTagged, hstored⟩

theorem integers_round_trip_mixed :
    let b : Buffer := ⟨List.replicate 8 0 ++ [65], 8, 9⟩
    let x : TaggedInt := ⟨.int16, -2, by decide⟩
    let y : TaggedInt := ⟨.int64, 258, by decide⟩
    (∃ stored, b.appendAll [x, y] = .ok stored ∧
      stored.readable = [65, 255, 254, 0, 0, 0, 0, 0, 0, 1, 2]) ∧
    ∃ stored, y.width.prepend b y.value = .ok stored ∧ y.width.peek stored = .ok 258 := by
  have hb : Buffer.Holds ⟨List.replicate 8 0 ++ [65], 8, 9⟩ [65] :=
    ⟨⟨by decide, by decide, by decide⟩, by decide⟩
  intro b x y
  obtain ⟨happend, hprepend⟩ := integers_round_trip hb
  obtain ⟨stored, -, -, happ, hstored, -⟩ := happend [x, y]
  obtain ⟨stored', hpre, hpeek, -⟩ := hprepend y (by decide)
  refine ⟨⟨stored, happ, ?_⟩, stored', hpre, hpeek⟩
  rw [hstored.readable_eq]
  decide

end

end Muduo.Net.Buffer
