import Muduo.Verification.Buffer.Layout
import Muduo.Verification.Protobuf.Frames

/-! The decoding side of the codec on arbitrary bytes: it stays within the readable
bytes, returns, and delivers the messages of the good frames up to the first fault. -/

namespace Muduo.Net

open Library

theorem Buffer.Holds.peekInt32 {b : Buffer} {bs : List UInt8} (hb : b.Holds bs)
    (h : 4 ≤ bs.length) : b.peekInt32 = .ok (networkToHost32 (bs.take 4)) := by
  have hread : 4 ≤ b.readableBytes := by rwa [hb.readableBytes_eq]
  rw [Buffer.peekInt32, Buffer.peekInt, ensure_of _ hread, ok_bind, hb.bytes_eq 4 h]
  rfl

namespace ProtobufCodecLite

variable {μ : Type} {c : ProtobufCodecLite μ} {b : Buffer} {bs : List UInt8}

/-! ### Reads -/

/-- Bytes that are readable can be loaded. -/
theorem load_eq (pre data post : List UInt8) {p len : ℤ} (hb : b.Holds (pre ++ (data ++ post)))
    (hp : p = b.peek + pre.length) (hlen : len = data.length) : load b p len = .ok data := by
  have hrange := hb.bytes_range pre.length data.length (by simp only [List.length_append]; omega)
  rw [List.drop_left, List.take_left] at hrange
  have hend : b.peek + pre.length + data.length ≤ b.beginWrite := by
    have := hb.readableBytes_eq
    have := hb.reader_le
    simp only [Buffer.readableBytes, Buffer.peek, Buffer.beginWrite, List.length_append] at *
    omega
  subst hp hlen
  rw [load, ensure_of _ (by omega), ok_bind, ensure_of _ ⟨by omega, by omega⟩, ok_bind]
  exact congrArg Except.ok hrange

theorem Complete.validateChecksum {header body sum rest : List UInt8}
    (hc : c.Complete header body sum) (hb : b.Holds (header ++ (body ++ (sum ++ rest)))) :
    c.validateChecksum b (b.peek + kHeaderLen) (body.length + 4 : ℕ) =
      .ok (decide (signed 32 (c.adler32 body) = networkToHost32 sum)) := by
  have hsum : load b (b.peek + kHeaderLen + (body.length + 4 : ℕ) - kChecksumLen) 4 = .ok sum := by
    refine load_eq (header ++ body) sum rest (by rwa [List.append_assoc]) ?_ ?_
    · rw [List.length_append, hc.header_length, kHeaderLen, kChecksumLen]
      omega
    · rw [hc.sum_length]
      rfl
  have hbody : load b (b.peek + kHeaderLen) ((body.length + 4 : ℕ) - kChecksumLen) = .ok body := by
    refine load_eq header body (sum ++ rest) hb ?_ ?_
    · rw [hc.header_length, kHeaderLen]
      rfl
    · rw [kChecksumLen]
      omega
  rw [ProtobufCodecLite.validateChecksum, asInt32, hsum, ok_bind, checksum, hbody]
  rfl

theorem Complete.parse {header body sum rest : List UInt8} (hc : c.Complete header body sum)
    (hb : b.Holds (header ++ (body ++ (sum ++ rest)))) :
    c.parse b (b.peek + kHeaderLen) (body.length + 4 : ℕ) = .ok (c.verdict body sum) := by
  obtain ⟨front, payload, rfl, hfront⟩ :
      ∃ front payload, body = front ++ payload ∧ front.length = c.tag.length :=
    ⟨body.take c.tag.length, body.drop c.tag.length, (List.take_append_drop _ _).symm,
      List.length_take_of_le hc.tag_le⟩
  have htag : load b (b.peek + kHeaderLen) c.tag.length = .ok front := by
    refine load_eq header front (payload ++ (sum ++ rest)) ?_ ?_ ?_
    · rwa [← List.append_assoc front]
    · rw [hc.header_length, kHeaderLen]
      rfl
    · rw [hfront]
  have hpayload : load b (b.peek + kHeaderLen + c.tag.length)
      (((front ++ payload).length + 4 : ℕ) - kChecksumLen - c.tag.length) = .ok payload := by
    refine load_eq (header ++ front) payload (sum ++ rest) ?_ ?_ ?_
    · simpa only [List.append_assoc] using hb
    · rw [List.length_append, hc.header_length, hfront, kHeaderLen]
      omega
    · rw [List.length_append, hfront, kChecksumLen]
      omega
  have hsplit : (front ++ payload).take c.tag.length = front ∧
      (front ++ payload).drop c.tag.length = payload := by
    rw [← hfront, List.take_left, List.drop_left]
    exact ⟨rfl, rfl⟩
  rw [ProtobufCodecLite.parse, hc.validateChecksum hb, ok_bind, verdict, hsplit.1, hsplit.2]
  by_cases hsum : signed 32 (c.adler32 (front ++ payload)) = networkToHost32 sum
  · rw [if_pos (decide_eq_true hsum), if_pos hsum, htag, ok_bind]
    by_cases heq : front = c.tag
    · rw [if_pos heq, if_pos heq, parseFromBuffer, hpayload, ok_bind]
      cases c.prototype.parseFromArray payload <;> rfl
    · rw [if_neg heq, if_neg heq]
      rfl
  · rw [if_neg (by simpa using hsum), if_neg hsum]
    rfl

/-! ### The loop -/

/-- What one iteration has done with the readable bytes, told from what it returns. -/
inductive FrameRead (c : ProtobufCodecLite μ) (trace : List (Event μ)) (bs : List UInt8) :
    Bool × Input μ → Prop
  | wait {b : Buffer} (h : c.decoder.next () bs = .more) (hb : b.Holds bs) :
      FrameRead c trace bs (false, ⟨b, trace⟩)
  | message {n : ℕ} {m : μ} {b : Buffer} (h : c.decoder.next () bs = .consume n () (some m))
      (hb : b.Holds (bs.drop n)) : FrameRead c trace bs (true, ⟨b, trace ++ [.message m]⟩)
  | error {code : ErrorCode} {b : Buffer} (h : c.decoder.next () bs = .reject () code)
      (hb : b.Holds bs) : FrameRead c trace bs (false, ⟨b, trace ++ [.error code]⟩)

theorem word_min (c : ProtobufCodecLite μ) :
    word 32 (c.kMinMessageLen + kHeaderLen) = c.tag.length + 8 := by
  have := c.tag_lt
  rw [kMinMessageLen, kChecksumLen, kHeaderLen, word_of_nonneg (by omega) (by omega)]
  omega

theorem word_len {len : ℤ} (h : ¬ c.OutOfRange len) :
    word 64 (kHeaderLen + len) = 4 + len.toNat := by
  rw [OutOfRange, kMinMessageLen, kChecksumLen, kMaxMessageLen] at h
  rw [kHeaderLen, word_of_nonneg (by omega) (by omega)]
  omega

/-- With no raw callback, an iteration does what the decoder does. -/
theorem onFrame_frameRead (hraw : c.rawCb = none) (trace : List (Event μ)) (hb : b.Holds bs) :
    ∃ res, c.onFrame ⟨b, trace⟩ = .ok res ∧ FrameRead c trace bs res := by
  have hread := hb.readableBytes_eq
  unfold onFrame
  simp only [word_min, hread]
  cases c.view bs with
  | short absent =>
      rw [if_neg (Nat.not_le.mpr absent)]
      exact ⟨_, rfl, .wait (nextFrame_short absent) hb⟩
  | range present range =>
      rw [if_pos present, hb.peekInt32 (by omega)]
      exact ⟨_, if_pos range, .error (nextFrame_range present range) hb⟩
  | part present range absent =>
      rw [if_pos present, hb.peekInt32 (by omega)]
      simp only [Except.mapError, ok_bind, word_len range]
      rw [if_neg (show ¬ (_ ∨ _) from range), if_neg (Nat.not_le.mpr absent)]
      exact ⟨_, rfl, .wait (nextFrame_part present range absent) hb⟩
  | @complete header body sum rest hc =>
      have htag := hc.tag_le
      have hlen := hc.length_eq rest
      have hword : word 64 (kHeaderLen + (body.length + 4 : ℕ)) = 4 + (body.length + 4) :=
        word_len hc.inRange
      rw [if_pos (by omega), hb.peekInt32 (by omega), hc.take_header, hc.len_eq]
      simp only [Except.mapError, ok_bind, hword, rawRejects, hraw, hc.parse hb]
      rw [if_neg (show ¬ (_ ∨ _) from hc.inRange), if_pos (by omega), if_neg Bool.false_ne_true]
      have hnext := hc.nextFrame rest
      cases hv : c.verdict body sum with
      | error code =>
          rw [hv] at hnext
          exact ⟨_, rfl, .error hnext hb⟩
      | ok m =>
          rw [hv] at hnext
          obtain ⟨b', hret, hb'⟩ := hb.retrieve (4 + (body.length + 4)) (by omega)
          refine ⟨_, ?_, .message hnext hb'⟩
          simp only [hret]
          rfl

theorem onMessageLoop_drains (hraw : c.rawCb = none) (trace : List (Event μ)) {fuel : ℕ}
    (hb : b.Holds bs) (hfuel : bs.length < fuel) :
    ∃ b' msgs rest e, b'.Holds rest ∧ c.decoder.Drains () bs msgs () rest e ∧
      c.onMessageLoop fuel ⟨b, trace⟩ =
        .ok ⟨b', trace ++ (msgs.map .message ++ e.toList.map .error)⟩ := by
  induction fuel generalizing b bs trace with
  | zero => exact absurd hfuel (Nat.not_lt_zero _)
  | succ fuel ih =>
      obtain ⟨res, hres, hread⟩ := onFrame_frameRead hraw trace hb
      rw [onMessageLoop, hres, ok_bind]
      cases hread with
      | @wait b' h hb' =>
          refine ⟨b', [], bs, none, hb', .more h, ?_⟩
          rw [List.map_nil, List.nil_append, Option.toList_none, List.map_nil, List.append_nil]
          rfl
      | @error code b' h hb' => exact ⟨b', [], bs, some code, hb', .reject h, rfl⟩
      | @message n m b' h hb' =>
          have hpos := c.decoder.consume_pos h
          have hle := c.decoder.consume_le h
          have hshort : (bs.drop n).length < fuel := by
            rw [List.length_drop]
            omega
          obtain ⟨b'', msgs, rest, e, hb'', hdrains, hloop⟩ := ih (trace ++ [.message m]) hb' hshort
          refine ⟨b'', m :: msgs, rest, e, hb'', .consume h hdrains, ?_⟩
          refine hloop.trans ?_
          rw [List.append_assoc]
          rfl

theorem deliver_drains (hraw : c.rawCb = none) (trace : List (Event μ)) (hb : b.Holds bs)
    (frag : List UInt8) :
    ∃ b' msgs rest e, b'.Holds rest ∧ c.decoder.Drains () (bs ++ frag) msgs () rest e ∧
      c.deliver ⟨b, trace⟩ frag =
        .ok ⟨b', trace ++ (msgs.map .message ++ e.toList.map .error)⟩ := by
  obtain ⟨b₁, happend, hb₁⟩ := hb.append frag
  have hfuel : (bs ++ frag).length < b₁.readableBytes + 1 := by
    rw [hb₁.readableBytes_eq]
    exact Nat.lt_succ_self _
  obtain ⟨b', msgs, rest, e, hb', hdrains, hloop⟩ := onMessageLoop_drains hraw trace hb₁ hfuel
  refine ⟨b', msgs, rest, e, hb', hdrains, ?_⟩
  simp only [deliver, happend, Except.mapError, ok_bind]
  exact hloop

/-! ### Fragments -/

/-- Once a frame is at fault, every call reports it again. -/
theorem run_offended (hraw : c.rawCb = none) {code : ErrorCode} (trace : List (Event μ))
    (hb : b.Holds bs) (h : c.decoder.next () bs = .reject () code) (frags : List (List UInt8)) :
    ∃ b', b'.Holds (bs ++ frags.flatten) ∧ run c.deliver ⟨b, trace⟩ frags =
      .ok ⟨b', trace ++ List.replicate frags.length (.error code)⟩ := by
  induction frags generalizing b bs trace with
  | nil =>
      refine ⟨b, ?_, ?_⟩
      · rwa [List.flatten_nil, List.append_nil]
      · rw [run_nil, List.length_nil, List.replicate_zero, List.append_nil]
  | cons frag frags ih =>
      have hnext := c.decoder.reject_append h frag
      obtain ⟨b₁, msgs, rest, e, hb₁, hdrains, hstep⟩ := deliver_drains hraw trace hb frag
      obtain ⟨rfl, -, rfl, rfl⟩ := hdrains.det (.reject hnext)
      obtain ⟨b', hb', hrun⟩ := ih (trace ++ [.error code]) hb₁ hnext
      refine ⟨b', ?_, ?_⟩
      · rwa [List.flatten_cons, ← List.append_assoc]
      · rw [run_cons_of_ok hstep]
        refine hrun.trans ?_
        rw [List.append_assoc, List.length_cons, List.replicate_succ]
        rfl

/-- Over all fragments: the messages, then the first error as often as there were calls. -/
theorem run_drains (hraw : c.rawCb = none) (trace : List (Event μ)) (hb : b.Holds bs)
    (hmore : c.decoder.next () bs = .more) (frags : List (List UInt8)) :
    ∃ (s : Input μ) (msgs : List μ) (errs : List ErrorCode) (e : Option ErrorCode),
      run c.deliver ⟨b, trace⟩ frags = .ok s ∧
      c.decoder.Drains () (bs ++ frags.flatten) msgs () s.buffer.readable e ∧
      s.trace = trace ++ (msgs.map .message ++ errs.map .error) ∧ errs.head? = e := by
  induction frags generalizing b bs trace with
  | nil =>
      refine ⟨⟨b, trace⟩, [], [], none, rfl, ?_, (List.append_nil _).symm, rfl⟩
      rw [List.flatten_nil, List.append_nil, hb.readable_eq]
      exact .more hmore
  | cons frag frags ih =>
      obtain ⟨b₁, msgs, rest, e, hb₁, hdrains, hstep⟩ := deliver_drains hraw trace hb frag
      rw [run_cons_of_ok hstep, List.flatten_cons, ← List.append_assoc bs]
      cases e with
      | none =>
          obtain ⟨s, msgs', errs, e, hrun, hdrains', htrace, hhead⟩ :=
            ih (trace ++ (msgs.map .message ++ [])) hb₁ hdrains.next_more
          refine ⟨s, msgs ++ msgs', errs, e, hrun, hdrains.append hdrains', ?_, hhead⟩
          rw [htrace, List.append_nil, List.append_assoc, List.map_append, List.append_assoc]
      | some code =>
          obtain ⟨_, hreject⟩ := hdrains.next_reject
          obtain ⟨b', hb', hrun⟩ :=
            run_offended hraw (trace ++ (msgs.map .message ++ [.error code])) hb₁ hreject frags
          refine ⟨_, msgs, code :: List.replicate frags.length code, some code, hrun, ?_, ?_, rfl⟩
          · rw [hb'.readable_eq]
            exact hdrains.append_error _
          · rw [List.append_assoc, List.append_assoc, List.map_cons, List.map_replicate]
            rfl

theorem run_init_drains (hraw : c.rawCb = none) (frags : List (List UInt8)) :
    ∃ (s : Input μ) (msgs : List μ) (errs : List ErrorCode) (e : Option ErrorCode),
      run c.deliver .init frags = .ok s ∧
      c.decoder.Drains () frags.flatten msgs () s.buffer.readable e ∧
      s.trace = msgs.map .message ++ errs.map .error ∧ errs.head? = e :=
  run_drains hraw [] (Buffer.init_holds _) c.decoder_next_nil frags

/-- The error that stops the decoder is that of the frame it stops at. -/
theorem error_iff_offends {msgs : List μ} {rest : List UInt8} {e : Option ErrorCode}
    (h : c.decoder.Drains () bs msgs () rest e) (code : ErrorCode) :
    e = some code ↔ c.Offends rest code := by
  constructor
  · rintro rfl
    obtain ⟨_, hreject⟩ := h.next_reject
    exact offends_of_nextFrame hreject
  · intro hbad
    cases e with
    | none => cases hbad.nextFrame.symm.trans h.next_more
    | some code' =>
        obtain ⟨_, hreject⟩ := h.next_reject
        cases hbad.nextFrame.symm.trans hreject
        rfl

theorem not_goodFrame_of_drains {msgs : List μ} {rest : List UInt8} {e : Option ErrorCode}
    (h : c.decoder.Drains () bs msgs () rest e) (f : List UInt8) (m : μ) (hf : c.GoodFrame f m) :
    ¬ f <+: rest := by
  rintro ⟨xs, rfl⟩
  cases e with
  | none => cases (hf.nextFrame xs).symm.trans h.next_more
  | some code =>
      obtain ⟨_, hreject⟩ := h.next_reject
      cases (hf.nextFrame xs).symm.trans hreject

/-- However a stream is cut, the codec does not leave the readable bytes and returns from
every call. It delivers the messages of the longest prefix made of good frames, and then
reports, if anything, the error of the frame behind them and no message ever after. -/
theorem decoding_sound (c : ProtobufCodecLite μ) (hraw : c.rawCb = none) (stream : List UInt8) :
    ∃ (frames : List (List UInt8)) (msgs : List μ) (tail : List UInt8) (first : Option ErrorCode),
      stream = frames.flatten ++ tail ∧ List.Forall₂ c.GoodFrame frames msgs ∧
      (∀ frames' msgs', List.Forall₂ c.GoodFrame frames' msgs' → frames'.flatten <+: stream →
        frames' <+: frames) ∧
      (∀ code, first = some code ↔ c.Offends tail code) ∧
      ∀ frags : List (List UInt8), frags.flatten = stream →
        ∃ (s : Input μ) (errs : List ErrorCode), run c.deliver .init frags = .ok s ∧
          s.trace = msgs.map .message ++ errs.map .error ∧ errs.head? = first := by
  obtain ⟨t, msgs, _, first, -, hdrains, -, -⟩ := run_init_drains hraw [stream]
  rw [List.flatten_singleton] at hdrains
  obtain ⟨frames, hsplit, hgood⟩ := goodFrames_of_drains hdrains
  refine ⟨frames, msgs, t.buffer.readable, first, hsplit, hgood, ?_, error_iff_offends hdrains, ?_⟩
  · intro frames' msgs' hgood' hpre
    rw [hsplit] at hpre
    exact goodFrames_longest hgood (not_goodFrame_of_drains hdrains) hgood' hpre
  · rintro frags rfl
    obtain ⟨s, msgs', errs, e, hrun, hdrains', htrace, hhead⟩ := run_init_drains hraw frags
    obtain ⟨rfl, -, -, rfl⟩ := hdrains.det hdrains'
    exact ⟨s, errs, hrun, htrace, hhead⟩

/-- The checksum of zlib. -/
def zlibAdler32 (data : List UInt8) : ℕ :=
  let (a, b) := data.foldl
    (fun (a, b) x => ((a + x.toNat) % 65521, (b + a + x.toNat) % 65521)) (1, 0)
  b * 65536 + a

/-- Messages that are their own serialisation. -/
def rawPrototype : Prototype (List UInt8) := ⟨List.length, id, some⟩

/-- A codec with the tag `RPC0`. -/
def rpcCodec : ProtobufCodecLite (List UInt8) where
  prototype := rawPrototype
  adler32 := zlibAdler32
  tag := [82, 80, 67, 48]
  tag_lt := by decide
  rawCb := none

theorem decoding_sound_negative_length :
    ∃ (frames : List (List UInt8)) (msgs : List (List UInt8)) (tail : List UInt8)
      (first : Option ErrorCode),
      List.replicate 12 255 = frames.flatten ++ tail ∧
      List.Forall₂ rpcCodec.GoodFrame frames msgs ∧
      (∀ frames' msgs', List.Forall₂ rpcCodec.GoodFrame frames' msgs' →
        frames'.flatten <+: List.replicate 12 255 → frames' <+: frames) ∧
      (∀ code, first = some code ↔ rpcCodec.Offends tail code) ∧
      ∀ frags : List (List UInt8), frags.flatten = List.replicate 12 255 →
        ∃ (s : Input (List UInt8)) (errs : List ErrorCode),
          run rpcCodec.deliver .init frags = .ok s ∧
          s.trace = msgs.map .message ++ errs.map .error ∧ errs.head? = first :=
  decoding_sound rpcCodec rfl (List.replicate 12 255)

example : ∃ s, run rpcCodec.deliver .init [[255, 255], List.replicate 10 255, [0]] = .ok s ∧
    s.trace = [.error .kInvalidLength, .error .kInvalidLength] := by
  decide +kernel

end ProtobufCodecLite

end Muduo.Net
