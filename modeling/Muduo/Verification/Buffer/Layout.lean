import Muduo.Net.Buffer

/-! The three areas of a buffer, and what each operation does to them. -/

namespace Muduo.Net.Buffer

open Library

/-- `readerIndex <= writerIndex <= size`, and room for the cheap prepend. -/
structure Valid (b : Buffer) : Prop where
  reader_le : b.readerIndex ≤ b.writerIndex
  writer_le : b.writerIndex ≤ b.buffer.length
  cheap_le : kCheapPrepend ≤ b.buffer.length

/-- A valid buffer whose readable bytes are `content`. -/
structure Holds (b : Buffer) (content : List UInt8) : Prop extends Valid b where
  readable_eq : b.readable = content

theorem Valid.holds {b : Buffer} (h : b.Valid) : b.Holds b.readable := ⟨h, rfl⟩

/-- The storage cut at the two indices: prependable, readable and writable bytes. -/
structure Layout (b : Buffer) (front content back : List UInt8) : Prop where
  buffer_eq : b.buffer = front ++ content ++ back
  reader_eq : b.readerIndex = front.length
  writer_eq : b.writerIndex = front.length + content.length
  cheap_le : kCheapPrepend ≤ b.buffer.length

variable {b : Buffer} {content front back : List UInt8}

theorem Layout.writableBytes_eq (h : b.Layout front content back) :
    b.writableBytes = back.length := by
  simp only [writableBytes, h.buffer_eq, h.writer_eq, List.length_append]
  omega

theorem Layout.readableBytes_eq (h : b.Layout front content back) :
    b.readableBytes = content.length := by
  simp [readableBytes, h.reader_eq, h.writer_eq]

theorem Layout.prependableBytes_eq (h : b.Layout front content back) :
    b.prependableBytes = front.length := h.reader_eq

theorem Layout.length_eq (h : b.Layout front content back) :
    b.buffer.length = front.length + content.length + back.length := by
  simp [h.buffer_eq, Nat.add_assoc]

theorem Layout.readable_eq (h : b.Layout front content back) : b.readable = content := by
  have htake : (front ++ content ++ back).take (front.length + content.length) =
      front ++ content := by
    rw [← List.length_append, List.take_left]
  rw [readable, bytes, peek, beginWrite, h.buffer_eq, h.reader_eq, h.writer_eq, htake,
    List.drop_left]

theorem Layout.holds (h : b.Layout front content back) : b.Holds content where
  reader_le := by rw [h.reader_eq, h.writer_eq]; omega
  writer_le := by rw [h.writer_eq, h.length_eq]; omega
  cheap_le := h.cheap_le
  readable_eq := h.readable_eq

theorem Holds.layout (h : b.Holds content) : ∃ front back, b.Layout front content back := by
  refine ⟨b.buffer.take b.readerIndex, b.buffer.drop b.writerIndex, ?_, ?_, ?_, h.cheap_le⟩
  · have hsplit := List.take_append_drop b.readerIndex (b.buffer.take b.writerIndex)
    rw [List.take_take, Nat.min_eq_left h.reader_le] at hsplit
    rw [← h.readable_eq, readable, bytes, peek, beginWrite, hsplit, List.take_append_drop]
  · simp [Nat.min_eq_left (Nat.le_trans h.reader_le h.writer_le)]
  · have hr := h.reader_le
    have hw := h.writer_le
    rw [← h.readable_eq]
    simp only [readable, bytes, peek, beginWrite, List.length_take, List.length_drop]
    omega

theorem Holds.readableBytes_eq (h : b.Holds content) : b.readableBytes = content.length := by
  obtain ⟨front, back, hl⟩ := h.layout
  exact hl.readableBytes_eq

/-! ### The constructor -/

theorem init_layout (initialSize : ℕ) :
    (init initialSize).Layout (List.replicate kCheapPrepend 0) []
      (List.replicate initialSize 0) := by
  refine ⟨?_, by simp [init], by simp [init], by simp [init]⟩
  simp only [init, List.append_nil]
  rw [List.replicate_append_replicate]

theorem ctor_eq (initialSize : ℕ) : ctor initialSize = .ok (init initialSize) := by
  have h := init_layout initialSize
  have hr : (init initialSize).readableBytes = 0 := by simpa using h.readableBytes_eq
  have hw : (init initialSize).writableBytes = initialSize := by
    simpa using h.writableBytes_eq
  have hp : (init initialSize).prependableBytes = kCheapPrepend := rfl
  simp [ctor, hr, hw, hp, pure, Except.pure]

theorem init_holds (initialSize : ℕ) : (init initialSize).Holds [] :=
  (init_layout initialSize).holds

/-! ### Taking bytes out -/

theorem retrieveAll_layout (hcheap : kCheapPrepend ≤ b.buffer.length) :
    b.retrieveAll.Layout (b.buffer.take kCheapPrepend) [] (b.buffer.drop kCheapPrepend) := by
  refine ⟨?_, ?_, ?_, hcheap⟩
  · simp [retrieveAll]
  · simp [retrieveAll, Nat.min_eq_left hcheap]
  · simp [retrieveAll, Nat.min_eq_left hcheap]

theorem Holds.retrieve (h : b.Holds content) (len : ℕ) (hlen : len ≤ content.length) :
    ∃ b', b.retrieve len = .ok b' ∧ b'.Holds (content.drop len) := by
  obtain ⟨front, back, hl⟩ := h.layout
  simp only [Buffer.retrieve, hl.readableBytes_eq, ensure_of _ hlen, ok_bind]
  by_cases hlt : len < content.length
  · rw [if_pos hlt]
    have hl' : ({ b with readerIndex := b.readerIndex + len } : Buffer).Layout
        (front ++ content.take len) (content.drop len) back := by
      refine ⟨?_, ?_, ?_, h.cheap_le⟩
      · rw [hl.buffer_eq, List.append_assoc front (content.take len), List.take_append_drop]
      · simp [hl.reader_eq, hlen]
      · simp only [hl.writer_eq, List.length_append, List.length_take, List.length_drop]
        omega
    exact ⟨_, rfl, hl'.holds⟩
  · rw [if_neg hlt]
    have hnil : content.drop len = [] := List.drop_eq_nil_of_le (Nat.le_of_not_lt hlt)
    rw [hnil]
    exact ⟨_, rfl, (retrieveAll_layout h.cheap_le).holds⟩

theorem Holds.retrieveAll (h : b.Holds content) : b.retrieveAll.Holds [] :=
  (retrieveAll_layout h.cheap_le).holds

theorem Holds.retrieveUntil (h : b.Holds content) (len : ℕ) (hlen : len ≤ content.length) :
    ∃ b', b.retrieveUntil (b.peek + len) = .ok b' ∧ b'.Holds (content.drop len) := by
  obtain ⟨front, back, hl⟩ := h.layout
  have hend : b.peek + len ≤ b.beginWrite := by
    simp only [peek, beginWrite, hl.reader_eq, hl.writer_eq]
    omega
  simp only [Buffer.retrieveUntil, ensure_of _ (Nat.le_add_right b.peek len), ensure_of _ hend,
    ok_bind, Nat.add_sub_cancel_left]
  exact h.retrieve len hlen

theorem Holds.bytes_range (h : b.Holds content) (i len : ℕ) (hlen : i + len ≤ content.length) :
    b.bytes (b.peek + i) (b.peek + i + len) = (content.drop i).take len := by
  obtain ⟨front, back, hl⟩ := h.layout
  have hend : b.peek + i + len ≤ (front ++ content).length := by
    rw [peek, hl.reader_eq, List.length_append]
    omega
  rw [bytes, hl.buffer_eq, List.take_append_of_le_length hend, List.drop_take, peek, hl.reader_eq,
    List.drop_append, List.drop_eq_nil_of_le (Nat.le_add_right _ _), List.nil_append,
    Nat.add_sub_cancel_left, Nat.add_sub_cancel_left]

theorem Holds.bytes_eq (h : b.Holds content) (len : ℕ) (hlen : len ≤ content.length) :
    b.bytes b.peek (b.peek + len) = content.take len :=
  h.bytes_range 0 len (by rwa [Nat.zero_add])

theorem Holds.retrieveAsString (h : b.Holds content) (len : ℕ) (hlen : len ≤ content.length) :
    ∃ b', b.retrieveAsString len = .ok (content.take len, b') ∧
      b'.Holds (content.drop len) := by
  obtain ⟨b', hb, hh⟩ := h.retrieve len hlen
  refine ⟨b', ?_, hh⟩
  simp only [Buffer.retrieveAsString, h.readableBytes_eq, ensure_of _ hlen, ok_bind,
    h.bytes_eq len hlen, hb]
  rfl

theorem Holds.unwrite (h : b.Holds content) (len : ℕ) (hlen : len ≤ content.length) :
    ∃ b', b.unwrite len = .ok b' ∧ b'.Holds (content.take (content.length - len)) := by
  obtain ⟨front, back, hl⟩ := h.layout
  simp only [Buffer.unwrite, hl.readableBytes_eq, ensure_of _ hlen, ok_bind]
  have hl' : ({ b with writerIndex := b.writerIndex - len } : Buffer).Layout
      front (content.take (content.length - len))
      (content.drop (content.length - len) ++ back) := by
    refine ⟨?_, hl.reader_eq, ?_, h.cheap_le⟩
    · rw [hl.buffer_eq, List.append_assoc front (content.take _),
        ← List.append_assoc (content.take _),
        List.take_append_drop, List.append_assoc]
    · simp only [hl.writer_eq, List.length_take]
      omega
  exact ⟨_, rfl, hl'.holds⟩

/-! ### Putting bytes in front -/

theorem Holds.prepend (h : b.Holds content) (data : List UInt8)
    (hlen : data.length ≤ b.prependableBytes) :
    ∃ b', b.prepend data = .ok b' ∧ b'.Holds (data ++ content) := by
  obtain ⟨front, back, hl⟩ := h.layout
  have hfront : data.length ≤ front.length := hl.prependableBytes_eq ▸ hlen
  simp only [Buffer.prepend, ensure_of _ hlen, ok_bind]
  have hl' : ({ b with
      readerIndex := b.readerIndex - data.length
      buffer := copyInto data (b.readerIndex - data.length) b.buffer } : Buffer).Layout
      (front.take (front.length - data.length)) (data ++ content) back := by
    refine ⟨?_, ?_, ?_, by simpa using h.cheap_le⟩
    · have hbound : front.length - data.length + data.length = front.length := by omega
      rw [copyInto_eq _ _ _ (by rw [hl.reader_eq, hl.length_eq]; omega), hl.reader_eq, hbound,
        hl.buffer_eq]
      simp [List.take_append]
    · simp only [hl.reader_eq, List.length_take]
      omega
    · simp only [hl.writer_eq, List.length_take, List.length_append]
      omega
  exact ⟨_, rfl, hl'.holds⟩

/-! ### Making room and writing behind -/

/-- Either regime of `makeSpace` leaves `len` writable bytes and the same content.
The reader index stays, or becomes the cheap-prepend offset. -/
theorem Layout.makeSpace (hl : b.Layout front content back) (len : ℕ) (hback : back.length < len) :
    ∃ b' front' back', b.makeSpace len = .ok b' ∧ b'.Layout front' content back' ∧
      len ≤ back'.length ∧ (front'.length = front.length ∨ front'.length = kCheapPrepend) := by
  unfold Buffer.makeSpace
  rw [hl.writableBytes_eq, hl.prependableBytes_eq, hl.readableBytes_eq]
  by_cases hgrow : back.length + front.length < len + kCheapPrepend
  · rw [if_pos hgrow]
    refine ⟨_, front, back ++ List.replicate (len - back.length) 0, rfl, ⟨?_, hl.reader_eq,
      hl.writer_eq, ?_⟩, ?_, Or.inl rfl⟩
    · have hlong : b.buffer.length ≤ b.writerIndex + len := by
        rw [hl.length_eq, hl.writer_eq]
        omega
      have hpad : b.writerIndex + len - b.buffer.length = len - back.length := by
        rw [hl.length_eq, hl.writer_eq]
        omega
      simp only [resize]
      rw [List.take_of_length_le hlong, hpad, hl.buffer_eq]
      simp
    · have hcheap := hl.cheap_le
      rw [hl.length_eq] at hcheap
      simp only [resize, List.length_append, List.length_take, List.length_replicate, hl.length_eq,
        hl.writer_eq]
      omega
    · simp only [List.length_append, List.length_replicate]
      omega
  · -- here the writable bytes fall short, so the prependable ones exceed the reserve
    have hreader : kCheapPrepend < b.readerIndex := by
      rw [hl.reader_eq]
      omega
    rw [if_neg hgrow, ensure_of _ hreader]
    simp only [ok_bind, readableBytes, Nat.add_sub_cancel_left, ensure_of]
    have hmove := copyWithin_eq content.length b.readerIndex kCheapPrepend b.buffer
      (Nat.le_of_lt hreader) (by rw [hl.reader_eq, hl.length_eq]; omega)
    have hmid : (b.buffer.drop b.readerIndex).take content.length = content := by
      simp [hl.buffer_eq, hl.reader_eq, List.append_assoc]
    rw [hmid] at hmove
    have hcheap := hl.cheap_le
    rw [hl.reader_eq] at hreader
    refine ⟨_, b.buffer.take kCheapPrepend, b.buffer.drop (kCheapPrepend + content.length), rfl,
      ⟨hmove, ?_, ?_, by simpa using hcheap⟩, ?_, Or.inr ?_⟩
    · simp [Nat.min_eq_left hcheap]
    · simp [Nat.min_eq_left hcheap]
    · simp only [List.length_drop, hl.length_eq]
      omega
    · simp [Nat.min_eq_left hcheap]

theorem Layout.ensureWritableBytes (hl : b.Layout front content back) (len : ℕ) :
    ∃ b' front' back', b.ensureWritableBytes len = .ok b' ∧ b'.Layout front' content back' ∧
      len ≤ back'.length ∧ (front'.length = front.length ∨ front'.length = kCheapPrepend) := by
  unfold Buffer.ensureWritableBytes
  rw [hl.writableBytes_eq]
  by_cases hshort : back.length < len
  · obtain ⟨b', front', back', hb, hl', hroom, hfront⟩ := hl.makeSpace len hshort
    refine ⟨b', front', back', ?_, hl', hroom, hfront⟩
    simp only [if_pos hshort, hb, ok_bind, ensure_of _ (hl'.writableBytes_eq ▸ hroom)]
    rfl
  · have hroom : len ≤ back.length := Nat.le_of_not_lt hshort
    refine ⟨b, front, back, ?_, hl, hroom, Or.inl rfl⟩
    simp only [if_neg hshort, ok_bind, ensure_of _ (hl.writableBytes_eq ▸ hroom)]
    rfl

theorem Layout.writeAt (hl : b.Layout front content back) (data : List UInt8)
    (hdata : data.length ≤ back.length) :
    (b.writeAt data).Layout front content (data ++ back.drop data.length) := by
  refine ⟨?_, hl.reader_eq, hl.writer_eq, by simpa [Buffer.writeAt] using hl.cheap_le⟩
  have hwriter : b.writerIndex = (front ++ content).length := by simp [hl.writer_eq]
  simp only [Buffer.writeAt, beginWrite]
  rw [copyInto_eq _ _ _ (by rw [hl.writer_eq, hl.length_eq]; omega), hwriter, hl.buffer_eq,
    List.take_left, List.drop_length_add_append, List.append_assoc (front ++ content)]

/-- Moving the writer index over stored bytes makes them readable. -/
theorem Layout.advance {data : List UInt8} (hl : b.Layout front content (data ++ back)) :
    ({ b with writerIndex := b.writerIndex + data.length } : Buffer).Layout
      front (content ++ data) back := by
  refine ⟨?_, hl.reader_eq, ?_, hl.cheap_le⟩
  · simp [hl.buffer_eq, List.append_assoc]
  · simp [hl.writer_eq, Nat.add_assoc]

theorem Layout.hasWritten {data : List UInt8} (hl : b.Layout front content (data ++ back)) :
    ∃ b', b.hasWritten data.length = .ok b' ∧ b'.Layout front (content ++ data) back := by
  have hroom : data.length ≤ b.writableBytes := by
    rw [hl.writableBytes_eq]
    simp
  exact ⟨_, by rw [Buffer.hasWritten, ensure_of _ hroom]; rfl, hl.advance⟩

theorem Layout.append (hl : b.Layout front content back) (data : List UInt8) :
    ∃ b' front' back', b.append data = .ok b' ∧ b'.Layout front' (content ++ data) back' ∧
      (front'.length = front.length ∨ front'.length = kCheapPrepend) := by
  obtain ⟨b₁, front', back₁, hb₁, hl₁, hroom, hfront⟩ := hl.ensureWritableBytes data.length
  obtain ⟨b₂, hb₂, hl₂⟩ := (hl₁.writeAt data hroom).hasWritten
  exact ⟨b₂, front', _, by rw [Buffer.append, hb₁, ok_bind, hb₂], hl₂, hfront⟩

theorem Holds.append (h : b.Holds content) (data : List UInt8) :
    ∃ b', b.append data = .ok b' ∧ b'.Holds (content ++ data) := by
  obtain ⟨front, back, hl⟩ := h.layout
  obtain ⟨b', front', back', hb, hl', -⟩ := hl.append data
  exact ⟨b', hb, hl'.holds⟩

theorem Holds.ensureWritableBytes (h : b.Holds content) (len : ℕ) :
    ∃ b', b.ensureWritableBytes len = .ok b' ∧ b'.Holds content ∧ len ≤ b'.writableBytes := by
  obtain ⟨front, back, hl⟩ := h.layout
  obtain ⟨b', front', back', hb, hl', hroom, -⟩ := hl.ensureWritableBytes len
  exact ⟨b', hb, hl'.holds, hl'.writableBytes_eq ▸ hroom⟩

/-- Storing through `beginWrite` and then `hasWritten`, as a serializer does. -/
theorem Holds.write (h : b.Holds content) (data : List UInt8)
    (hdata : data.length ≤ b.writableBytes) :
    ∃ b', (b.writeAt data).hasWritten data.length = .ok b' ∧ b'.Holds (content ++ data) := by
  obtain ⟨front, back, hl⟩ := h.layout
  obtain ⟨b', hb, hl'⟩ := (hl.writeAt data (hl.writableBytes_eq ▸ hdata)).hasWritten
  exact ⟨b', hb, hl'.holds⟩

/-! ### Shrinking and reading from a descriptor -/

theorem Holds.shrink (h : b.Holds content) (reserve : ℕ) (hsize : content.length < 2 ^ 31) :
    ∃ b', b.shrink reserve = .ok b' ∧ b'.Holds content := by
  obtain ⟨other, hother, hholds, -⟩ :=
    (init_holds kInitialSize).ensureWritableBytes (b.readableBytes + reserve)
  obtain ⟨b', hb, hh⟩ := hholds.append content
  have hpiece : b.toStringPiece = ⟨content, content.length⟩ := by
    rw [toStringPiece, h.readable_eq, h.readableBytes_eq, castInt_of_lt hsize]
  refine ⟨b', ?_, by simpa using hh⟩
  simp only [Buffer.shrink, ctor_eq, ok_bind, hother, appendPiece, hpiece]
  rw [ensure_of _ ⟨Int.natCast_nonneg _, Int.le_refl _⟩]
  simp only [ok_bind, Int.toNat_natCast, List.take_length, hb]

/-- `shrink` builds its result from a fresh buffer. -/
theorem Valid.of_shrink {b' : Buffer} {reserve : ℕ} (h : b.shrink reserve = .ok b') :
    b'.Valid := by
  obtain ⟨other, hother, hholds, -⟩ :=
    (init_holds kInitialSize).ensureWritableBytes (b.readableBytes + reserve)
  simp only [Buffer.shrink, ctor_eq, ok_bind, hother, appendPiece] at h
  obtain ⟨-, h⟩ := of_ensure_bind h
  obtain ⟨b'', hb, hh⟩ := hholds.append (b.toStringPiece.data.take b.toStringPiece.length.toNat)
  obtain rfl := Except.ok.inj (h.symm.trans hb)
  exact hh.toValid

/-- Whatever part of the input lands in `extrabuf`, the buffer gains all of it. -/
theorem Holds.readFd_ok (h : b.Holds content) (data : List UInt8) :
    ∃ b', b.readFd (.ok data) = .ok (.ok data.length, b') ∧ b'.Holds (content ++ data) := by
  obtain ⟨front, back, hl⟩ := h.layout
  have hstore := hl.writeAt (data.take back.length) (List.length_take_le _ _)
  unfold Buffer.readFd
  simp only [hl.writableBytes_eq]
  by_cases hfit : data.length ≤ back.length
  · rw [List.take_of_length_le hfit] at hstore ⊢
    rw [if_pos hfit]
    exact ⟨_, rfl, hstore.advance.holds⟩
  · have hfull : (data.take back.length).length = back.length := by
      simp only [List.length_take]
      omega
    rw [hfull, List.drop_length] at hstore
    have hadv := hstore.advance
    have hend : (b.writeAt (data.take back.length)).writerIndex + (data.take back.length).length =
        (b.writeAt (data.take back.length)).buffer.length := by
      rw [hstore.writer_eq, hstore.length_eq, List.append_nil]
    rw [hend] at hadv
    obtain ⟨b', hb, hh⟩ := hadv.holds.append (data.drop back.length)
    refine ⟨b', ?_, ?_⟩
    · rw [if_neg hfit, hb]
      rfl
    · rwa [List.append_assoc, List.take_append_drop] at hh

end Muduo.Net.Buffer
