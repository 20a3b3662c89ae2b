import Muduo.Verification.Protobuf.Decoding

/-! Encoding, and decoding of what was encoded. -/

namespace Muduo.Net

open Library

namespace Buffer

/-- A buffer with room for a header in front of its content. -/
def Roomy (b : Buffer) (content : List UInt8) : Prop :=
  ∃ front back, b.Layout front content back ∧ front.length = kCheapPrepend

theorem init_roomy (initialSize : ℕ) : (init initialSize).Roomy [] :=
  ⟨_, _, init_layout initialSize, List.length_replicate⟩

variable {b : Buffer} {content : List UInt8}

theorem Roomy.holds (h : b.Roomy content) : b.Holds content := by
  obtain ⟨front, back, hl, -⟩ := h
  exact hl.holds

theorem Roomy.append (h : b.Roomy content) (data : List UInt8) :
    ∃ b', b.append data = .ok b' ∧ b'.Roomy (content ++ data) := by
  obtain ⟨front, back, hl, hfront⟩ := h
  obtain ⟨b', front', back', happend, hl', hlen⟩ := hl.append data
  refine ⟨b', happend, front', back', hl', ?_⟩
  rcases hlen with hlen | hlen
  · exact hlen.trans hfront
  · exact hlen

theorem Roomy.appendPiece (h : b.Roomy content) (data : List UInt8) (hlt : data.length < 2 ^ 31) :
    ∃ b', b.appendPiece ⟨data, castInt data.length⟩ = .ok b' ∧ b'.Roomy (content ++ data) := by
  rw [Buffer.appendPiece, castInt_of_lt hlt, ensure_of _ ⟨Int.natCast_nonneg _, Int.le_refl _⟩,
    ok_bind, Int.toNat_natCast, List.take_length]
  exact h.append data

theorem Roomy.prepend (h : b.Roomy content) (data : List UInt8)
    (hlen : data.length ≤ kCheapPrepend) :
    ∃ b', b.prepend data = .ok b' ∧ b'.Holds (data ++ content) := by
  obtain ⟨front, back, hl, hfront⟩ := h
  refine hl.holds.prepend data ?_
  rwa [hl.prependableBytes_eq, hfront]

/-- Storing data behind the readable bytes, in space that was made for it and more. -/
theorem Roomy.store (h : b.Roomy content) (data : List UInt8) {len : ℕ} (hlen : data.length ≤ len) :
    ∃ b₁ b₂, b.ensureWritableBytes len = .ok b₁ ∧
      (b₁.writeAt data).hasWritten data.length = .ok b₂ ∧ b₂.Roomy (content ++ data) := by
  obtain ⟨front, back, hl, hfront⟩ := h
  obtain ⟨b₁, front', back', hspace, hl₁, hroom, hlen'⟩ := hl.ensureWritableBytes len
  obtain ⟨b₂, hwritten, hl₂⟩ := (hl₁.writeAt data (hlen.trans hroom)).hasWritten
  refine ⟨b₁, b₂, hspace, hwritten, front', _, hl₂, ?_⟩
  rcases hlen' with hlen' | hlen'
  · exact hlen'.trans hfront
  · exact hlen'

end Buffer

/-- What is assumed of the library: the announced size is the size, and a serialised
message is parsed as that message. -/
structure Prototype.Lawful {μ : Type} (p : Prototype μ) : Prop where
  byteSize_eq : ∀ m, p.byteSize m = (p.serialize m).length
  parse_serialize : ∀ m, p.parseFromArray (p.serialize m) = some m

namespace ProtobufCodecLite

variable {μ : Type} {c : ProtobufCodecLite μ}

/-- What the length field of a message says. -/
def frameLen (c : ProtobufCodecLite μ) (m : μ) : ℕ :=
  c.tag.length + (c.prototype.serialize m).length + 4

/-- The bytes of a message on the wire. -/
def frame (c : ProtobufCodecLite μ) (m : μ) : List UInt8 :=
  hostToNetwork32 (c.frameLen m) ++ (c.tag ++ c.prototype.serialize m ++
    hostToNetwork32 (signed 32 (c.adler32 (c.tag ++ c.prototype.serialize m))))

theorem length_hostToNetwork32 (x : ℤ) : (hostToNetwork32 x).length = 4 := length_toBytes _ _

theorem networkToHost32_hostToNetwork32 (n : ℕ) :
    networkToHost32 (hostToNetwork32 (signed 32 n)) = signed 32 n :=
  signed_ofBytes_word n

theorem frame_good (hlawful : c.prototype.Lawful) {m : μ}
    (hmax : (c.frameLen m : ℤ) ≤ kMaxMessageLen) : c.GoodFrame (c.frame m) m := by
  have hlen : (c.tag ++ c.prototype.serialize m).length + 4 = c.frameLen m := by
    rw [List.length_append, frameLen]
  have hsmall : c.frameLen m < 2 ^ 31 := by
    rw [kMaxMessageLen] at hmax
    omega
  refine .mk ⟨length_toBytes _ _, length_toBytes _ _, ?_, ?_, ?_⟩
    (networkToHost32_hostToNetwork32 _) (hlawful.parse_serialize m)
  · rw [hlen, ← signed_of_lt (w := 32) hsmall]
    exact networkToHost32_hostToNetwork32 _
  · rw [List.length_append]
    exact Nat.le_add_right _ _
  · rwa [hlen]

variable {b : Buffer} {content : List UInt8}

theorem serializeToBuffer_eq (hlawful : c.prototype.Lawful) (m : μ) (hb : b.Roomy content) :
    ∃ b', c.serializeToBuffer m b = .ok ((c.prototype.serialize m).length, b') ∧
      b'.Roomy (content ++ c.prototype.serialize m) := by
  obtain ⟨b₁, b₂, hspace, hwritten, hb₂⟩ := hb.store (c.prototype.serialize m)
    (Nat.le_add_right _ kChecksumLen.toNat)
  refine ⟨b₂, ?_, hb₂⟩
  rw [serializeToBuffer, hlawful.byteSize_eq m]
  simp only [hspace, Except.mapError, ok_bind, ensure_of, hwritten]
  rfl

theorem checksum_eq (hb : b.Holds content) (hlt : content.length < 2 ^ 31) :
    c.checksum b b.peek (castInt b.readableBytes) = .ok (signed 32 (c.adler32 content)) := by
  have hload : load b b.peek (castInt b.readableBytes) = .ok content := by
    refine load_eq [] content [] (by rwa [List.append_nil]) (Int.add_zero _).symm ?_
    rw [hb.readableBytes_eq, castInt_of_lt hlt]
  rw [checksum, hload]
  rfl

/-- Encoding passes its assertions and yields the frame of the message. -/
theorem fillEmptyBuffer_eq (hlawful : c.prototype.Lawful) {m : μ}
    (hmax : (c.frameLen m : ℤ) ≤ kMaxMessageLen) (initialSize : ℕ) :
    ∃ b, c.fillEmptyBuffer (.init initialSize) m = .ok b ∧ b.Holds (c.frame m) := by
  have htag := c.tag_lt
  have hempty : (Buffer.init initialSize).readableBytes = 0 :=
    (Buffer.init_holds initialSize).readableBytes_eq
  obtain ⟨b₁, happend, hb₁⟩ := (Buffer.init_roomy initialSize).appendPiece c.tag (by omega)
  obtain ⟨b₂, hserialize, hb₂⟩ := serializeToBuffer_eq hlawful m hb₁
  rw [List.nil_append] at hb₂
  have hsmall : c.frameLen m < 2 ^ 31 := by
    rw [kMaxMessageLen] at hmax
    omega
  have hbody : (c.tag ++ c.prototype.serialize m).length + 4 = c.frameLen m := by
    rw [List.length_append, frameLen]
  have hsum := checksum_eq (c := c) hb₂.holds (by omega)
  obtain ⟨b₃, happend₃, hb₃⟩ :=
    hb₂.append (hostToNetwork32 (signed 32 (c.adler32 (c.tag ++ c.prototype.serialize m))))
  have hread : b₃.readableBytes = c.frameLen m := by
    rw [hb₃.holds.readableBytes_eq, List.length_append, length_hostToNetwork32, hbody]
  obtain ⟨b₄, hprepend, hb₄⟩ :=
    hb₃.prepend (hostToNetwork32 (c.frameLen m)) (by rw [length_hostToNetwork32]; decide)
  refine ⟨b₄, ?_, hb₄⟩
  rw [fillEmptyBuffer, ensure_of _ hempty]
  simp only [ok_bind, happend, Except.mapError, hserialize, hsum, Buffer.appendInt32, happend₃]
  rw [ensure_of _ (show b₃.readableBytes = _ + kChecksumLen.toNat from hread), ok_bind, hread,
    castInt_of_lt hsmall, hprepend]

theorem encode_all (hlawful : c.prototype.Lawful) {msgs : List μ}
    (hmax : ∀ m ∈ msgs, (c.frameLen m : ℤ) ≤ kMaxMessageLen) (initialSize : ℕ) :
    ∃ bufs : List Buffer, msgs.mapM (c.fillEmptyBuffer (.init initialSize)) = .ok bufs ∧
      bufs.map (·.readable) = msgs.map c.frame := by
  induction msgs with
  | nil => exact ⟨[], rfl, rfl⟩
  | cons m msgs ih =>
      obtain ⟨b, hfill, hb⟩ := fillEmptyBuffer_eq hlawful (hmax m List.mem_cons_self) initialSize
      obtain ⟨bufs, hbufs, hreadable⟩ := ih fun m hm => hmax m (List.mem_cons_of_mem _ hm)
      refine ⟨b :: bufs, ?_, ?_⟩
      · rw [List.mapM_cons, hfill, ok_bind, hbufs, ok_bind]
        rfl
      · rw [List.map_cons, List.map_cons, hb.readable_eq, hreadable]

theorem frames_good (hlawful : c.prototype.Lawful) {msgs : List μ}
    (hmax : ∀ m ∈ msgs, (c.frameLen m : ℤ) ≤ kMaxMessageLen) :
    List.Forall₂ c.GoodFrame (msgs.map c.frame) msgs := by
  induction msgs with
  | nil => exact .nil
  | cons m msgs ih =>
      exact .cons (frame_good hlawful (hmax m List.mem_cons_self))
        (ih fun m hm => hmax m (List.mem_cons_of_mem _ hm))

/-- Messages that fit are encoded, each into a fresh buffer. However the bytes are cut, the
other side gets exactly these messages in order and no error, and has no bytes left. -/
theorem framing_round_trip (c : ProtobufCodecLite μ) (hraw : c.rawCb = none)
    (hlawful : c.prototype.Lawful) (msgs : List μ)
    (hmax : ∀ m ∈ msgs, (c.frameLen m : ℤ) ≤ kMaxMessageLen) :
    ∃ bufs : List Buffer,
      msgs.mapM (c.fillEmptyBuffer (.init Buffer.kInitialSize)) = .ok bufs ∧
      ∀ frags : List (List UInt8), frags.flatten = (bufs.map (·.readable)).flatten →
        ∃ s, run c.deliver .init frags = .ok s ∧ s.trace = msgs.map .message ∧
          s.buffer.readable = [] := by
  obtain ⟨bufs, hbufs, hreadable⟩ := encode_all hlawful hmax Buffer.kInitialSize
  refine ⟨bufs, hbufs, ?_⟩
  intro frags hfrags
  obtain ⟨s, msgs', errs, e, hrun, hdrains, htrace, hhead⟩ := run_init_drains hraw frags
  rw [hfrags, hreadable] at hdrains
  obtain ⟨rfl, -, hrest, rfl⟩ := hdrains.det (drains_of_goodFrames (frames_good hlawful hmax))
  refine ⟨s, hrun, ?_, hrest⟩
  rw [htrace, List.head?_eq_none_iff.mp hhead, List.map_nil, List.append_nil]

theorem rawPrototype_lawful : rawPrototype.Lawful := ⟨fun _ => rfl, fun _ => rfl⟩

theorem framing_round_trip_two :
    ∃ bufs : List Buffer,
      [[8, 1], []].mapM (rpcCodec.fillEmptyBuffer (.init Buffer.kInitialSize)) = .ok bufs ∧
      ∀ frags : List (List UInt8), frags.flatten = (bufs.map (·.readable)).flatten →
        ∃ s, run rpcCodec.deliver .init frags = .ok s ∧ s.trace = [.message [8, 1], .message []] ∧
          s.buffer.readable = [] :=
  framing_round_trip rpcCodec rfl rawPrototype_lawful [[8, 1], []] (by decide)

-- The bytes that the unit test of the codec expects.
example : ∃ b, rpcCodec.fillEmptyBuffer (.init Buffer.kInitialSize)
      [8, 1, 17, 2, 0, 0, 0, 0, 0, 0, 0] = .ok b ∧
    b.readable = [0, 0, 0, 19, 82, 80, 67, 48] ++ [8, 1, 17, 2, 0, 0, 0, 0, 0, 0, 0] ++
      [15, 239, 1, 50] := by
  decide +kernel

end ProtobufCodecLite

end Muduo.Net
