import Muduo.System.Compressing
import Muduo.Verification.Buffer.Layout
import Mathlib.Algebra.Group.Int.Defs

/-! The two `write`s of a compressing stream. They compose as long as no piece follows a buffer,
`finish` finds nothing left of the last buffer, and sizes fit 32 bits. -/

namespace Muduo.Net.ZlibOutputStream

open Library

/-! ### What zlib promises -/

inductive Flush where
  | noFlush
  | finish
  deriving DecidableEq, Repr

/-- `deflate` stays within what it is given, and reports no error. With `Z_NO_FLUSH` it stops early
only if nothing is left of `avail_out`; with `Z_FINISH` it takes all of its input before it reports
`Z_STREAM_END`, which nothing else makes it report. -/
structure Lawful (flush : Flush) (z : ZlibOutputStream) (a : Answer) : Prop where
  consumed_le : a.consumed ≤ z.availIn
  produced_le : ∀ output, z.output.ensureWritableBytes z.bufferSize = .ok output →
    a.produced.length ≤ avail output.writableBytes
  early : flush = .noFlush → a.consumed < z.availIn →
    ∀ output, z.output.ensureWritableBytes z.bufferSize = .ok output →
      a.produced.length = avail output.writableBytes
  noFlush : flush = .noFlush → a.code = .ok
  finish : flush = .finish → a.code = .ok ∨ a.code = .streamEnd ∧ a.consumed = z.availIn

/-! ### One call of `deflate` -/

theorem avail_eq (n : ℕ) : avail n = n % 2 ^ 32 := by
  rw [avail, castInt_natCast, word_signed]

/-- The output stays valid whatever is stored in it. -/
theorem hasWritten_valid {b : Buffer} (hb : b.Valid) (data : List UInt8) {len : ℕ}
    (hlen : len ≤ (b.writeAt data).writableBytes) :
    ∃ b', (b.writeAt data).hasWritten len = .ok b' ∧ b'.Valid := by
  have hlength : (b.writeAt data).buffer.length = b.buffer.length := length_copyInto ..
  refine ⟨_, by rw [Buffer.hasWritten, ensure_of _ hlen]; rfl, ?_, ?_, ?_⟩
  · exact Nat.le_trans hb.reader_le (Nat.le_add_right _ _)
  · have hwriter := hb.writer_le
    rw [Buffer.writableBytes] at hlen
    rw [hlength] at hlen ⊢
    change b.writerIndex + len ≤ b.buffer.length
    have : (b.writeAt data).writerIndex = b.writerIndex := rfl
    omega
  · rw [hlength]
    exact hb.cheap_le

/-- The input moves on by what `deflate` took. -/
structure Advanced (z : ZlibOutputStream) (a : Answer) (z' : ZlibOutputStream) : Prop where
  output : z'.output.Valid
  nextIn : z'.nextIn = advance z.nextIn a.consumed
  availIn : z'.availIn = z.availIn - a.consumed
  zerror : z'.zerror = a.code
  taken : z'.taken = z.taken ++ bytesAt z.nextIn a.consumed

theorem round_advanced {z : ZlibOutputStream} (hz : z.output.Valid) (a : Answer) :
    ∃ z', z.round a = .ok z' ∧ Advanced z a z' := by
  obtain ⟨output, houtput, hholds, -⟩ := hz.holds.ensureWritableBytes z.bufferSize
  obtain ⟨output', houtput', hvalid⟩ := hasWritten_valid hholds.toValid a.produced
    (Nat.sub_le (output.writeAt a.produced).writableBytes
      (avail output.writableBytes - a.produced.length))
  rw [round, compress, houtput]
  simp only [Except.mapError, ok_bind]
  rw [houtput']
  exact ⟨_, rfl, hvalid, rfl, rfl, rfl, rfl⟩

theorem of_round {z z' : ZlibOutputStream} {a : Answer} (h : z.round a = .ok z') :
    z'.availIn = z.availIn - a.consumed ∧ z'.zerror = a.code := by
  obtain ⟨⟨code, z₁⟩, hcompress, h⟩ := of_bind h
  obtain ⟨output, -, hcompress⟩ := of_bind hcompress
  obtain ⟨output', -, hcompress⟩ := of_bind hcompress
  obtain ⟨rfl, rfl⟩ := Prod.mk.inj (Except.ok.inj hcompress)
  obtain rfl := Except.ok.inj h
  exact ⟨rfl, rfl⟩

/-- Nothing is left of the input, and nothing comes out yet. -/
theorem lawful_all {flush : Flush} {z : ZlibOutputStream} {n : ℕ} (h : z.availIn = n) {code : Code}
    (hnoFlush : flush = .noFlush → code = .ok)
    (hfinish : flush = .finish → code = .ok ∨ code = .streamEnd) :
    Lawful flush z ⟨n, [], code⟩ := by
  refine ⟨Nat.le_of_eq h.symm, fun _ _ => Nat.zero_le _, fun _ hlt => ?_, hnoFlush,
    fun hflush => ?_⟩
  · exact absurd h.symm (Nat.ne_of_lt hlt)
  · exact (hfinish hflush).imp_right fun hcode => ⟨hcode, h.symm⟩

theorem driven_noFlush {z : ZlibOutputStream} {n : ℕ} (h : z.availIn = n) :
    Driven Hungry round (Lawful .noFlush) z [⟨n, [], .ok⟩] := by
  refine fun _ => ⟨lawful_all h (fun _ => rfl) fun _ => .inl rfl, fun z' hz' hhungry => ?_⟩
  rw [Hungry, (of_round hz').1, h, Nat.sub_self] at hhungry
  exact Nat.lt_irrefl 0 hhungry.1

theorem driven_finish {z : ZlibOutputStream} {n : ℕ} (h : z.availIn = n) :
    Driven Going round (Lawful .finish) z [⟨n, [], .streamEnd⟩] := by
  refine fun _ => ⟨lawful_all h (fun hflush => by cases hflush) fun _ => .inr rfl,
    fun z' hz' hgoing => ?_⟩
  rw [Going, (of_round hz').2] at hgoing
  cases hgoing

/-! ### The input that is left -/

/-- The bytes that `next_in` and `avail_in` stand for. -/
def left (z : ZlibOutputStream) : List UInt8 := bytesAt z.nextIn z.availIn

theorem bytesAt_split (p : Option Pointer) {c n : ℕ} (h : c ≤ n) :
    bytesAt p n = bytesAt p c ++ bytesAt (advance p c) (n - c) := by
  cases p with
  | none => rfl
  | some p =>
      obtain ⟨k, rfl⟩ := Nat.exists_eq_add_of_le h
      simp only [bytesAt, advance, Option.map_some]
      rw [List.take_add, List.drop_drop, Nat.add_sub_cancel_left]

theorem Advanced.taken_left {z z' : ZlibOutputStream} {a : Answer} (h : Advanced z a z')
    (hle : a.consumed ≤ z.availIn) : z'.taken ++ z'.left = z.taken ++ z.left := by
  rw [h.taken, left, left, h.nextIn, h.availIn, List.append_assoc, ← bytesAt_split _ hle]

/-- The output is valid, and there is memory behind `next_in`. -/
structure Sound (z : ZlibOutputStream) : Prop where
  output : z.output.Valid
  null : z.nextIn = none → z.availIn = 0
  memory : ∀ p, z.nextIn = some p → p.offset + z.availIn ≤ p.memory.length

theorem Advanced.sound {z z' : ZlibOutputStream} {a : Answer} (h : Advanced z a z') (hz : z.Sound)
    (hle : a.consumed ≤ z.availIn) : z'.Sound := by
  refine ⟨h.output, fun hnull => ?_, fun p hp => ?_⟩
  · rw [h.nextIn, advance, Option.map_eq_none_iff] at hnull
    rw [h.availIn, hz.null hnull, Nat.zero_sub]
  · rw [h.nextIn] at hp
    obtain ⟨q, hq, rfl⟩ := Option.map_eq_some_iff.mp hp
    have hmemory := hz.memory q hq
    rw [h.availIn]
    change q.offset + a.consumed + (z.availIn - a.consumed) ≤ q.memory.length
    omega

theorem Sound.left_eq_nil_iff {z : ZlibOutputStream} (hz : z.Sound) :
    z.left = [] ↔ z.availIn = 0 := by
  cases hp : z.nextIn with
  | none =>
      rw [left, hp]
      exact iff_of_true rfl (hz.null hp)
  | some p =>
      have hmemory := hz.memory p hp
      rw [left, hp, bytesAt, ← List.length_eq_zero_iff, List.length_take, List.length_drop]
      omega

theorem Sound.setIn {z : ZlibOutputStream} (hz : z.Sound) {p : Pointer} {n : ℕ}
    (h : p.offset + n ≤ p.memory.length) : (z.setIn p n).Sound := by
  refine ⟨hz.output, fun hnull => absurd hnull (Option.some_ne_none p), fun q hq => ?_⟩
  obtain rfl : p = q := Option.some.inj hq
  exact h

/-! ### `write(StringPiece)` -/

/-- The characters are there, and their number is an `int`. -/
structure WellFormed (buf : StringPiece) : Prop where
  nonneg : 0 ≤ buf.length
  le : buf.length ≤ buf.data.length
  lt : buf.length < 2 ^ 31

/-- In the loop: `target` is what `deflate` will have taken. -/
structure Feeding (buf : StringPiece) (target : List UInt8) (z : ZlibOutputStream) : Prop where
  sound : z.Sound
  zerror : z.zerror = .ok
  nextIn : ∃ offset, z.nextIn = some ⟨buf.data, offset⟩ ∧ offset + z.availIn = buf.length.toNat
  target : z.taken ++ z.left = target

theorem Feeding.round {buf : StringPiece} {target : List UInt8} {z : ZlibOutputStream} {a : Answer}
    (h : Feeding buf target z) (ha : Lawful .noFlush z a) :
    ∃ z', z.round a = .ok z' ∧ Feeding buf target z' := by
  obtain ⟨z', hround, hz'⟩ := round_advanced h.sound.output a
  obtain ⟨offset, hp, hoffset⟩ := h.nextIn
  refine ⟨z', hround, hz'.sound h.sound ha.consumed_le, hz'.zerror.trans (ha.noFlush rfl),
    ⟨offset + a.consumed, by rw [hz'.nextIn, hp]; rfl, ?_⟩,
    (hz'.taken_left ha.consumed_le).trans h.target⟩
  have hle := ha.consumed_le
  rw [hz'.availIn]
  omega

theorem writePiece_eq {z : ZlibOutputStream} {buf : StringPiece} {answers : List Answer}
    (hz : z.Sound) (hok : z.zerror = .ok) (hnull : z.nextIn = none) (hbuf : WellFormed buf)
    (hdriven : Driven Hungry round (Lawful .noFlush)
      (z.setIn ⟨buf.data, 0⟩ (word 32 buf.length)) answers) :
    ∃ z', z.writePiece buf answers = .ok (true, z') ∧ z'.Sound ∧
      z'.taken = z.taken ++ buf.data.take buf.length.toNat := by
  have hsize : word 32 buf.length = buf.length.toNat :=
    word_of_nonneg hbuf.nonneg (Int.lt_trans hbuf.lt (by decide))
  have hlength : buf.length.toNat ≤ buf.data.length := Int.toNat_le.mpr hbuf.le
  rw [hsize] at hdriven
  have hstart : Feeding buf (z.taken ++ buf.data.take buf.length.toNat)
      (z.setIn ⟨buf.data, 0⟩ buf.length.toNat) :=
    ⟨hz.setIn (by rwa [Nat.zero_add]), hok, ⟨0, rfl, Nat.zero_add _⟩, rfl⟩
  obtain ⟨z', hloop, hend, hnot⟩ := loop_rule Fault.pending
    (fun _ _ hfeeding _ hlawful => Feeding.round hfeeding hlawful) hstart hdriven
  obtain ⟨offset, hp, hoffset⟩ := hend.nextIn
  have hzero : z'.availIn = 0 := by
    by_contra hne
    exact hnot ⟨Nat.pos_of_ne_zero hne, hend.zerror⟩
  have hbufEnd : z'.nextIn = some ⟨buf.data, buf.length.toNat⟩ := by
    rw [hp, ← hoffset, hzero, Nat.add_zero]
  have htaken := hend.target
  rw [hend.sound.left_eq_nil_iff.mpr hzero, List.append_nil] at htaken
  refine ⟨{ z' with nextIn := none }, ?_, ⟨hend.sound.output, fun _ => hzero, fun p hp => ?_⟩,
    htaken⟩
  · rw [writePiece, if_neg (not_not_intro hok), ensure_of _ ⟨hnull, hz.null hnull⟩, ok_bind, hsize]
    dsimp only
    rw [hloop, ok_bind, if_pos hzero, ensure_of _ hbufEnd, ok_bind, hend.zerror]
    rfl
  · cases hp

/-- A pointer that a call has left makes the assertion fail. -/
theorem writePiece_of_ne {z : ZlibOutputStream} (hok : z.zerror = .ok) (hne : z.nextIn ≠ none)
    (buf : StringPiece) (answers : List Answer) : z.writePiece buf answers = .error .nextIn := by
  rw [writePiece, if_neg (not_not_intro hok), ensure_of_not _ fun h => hne h.1]
  rfl

/-! ### `write(Buffer*)` -/

/-- What the buffer holds stands at the pointer. -/
theorem bytesAt_peek {input : Buffer} {k : ℕ} (hk : k ≤ input.readableBytes) :
    bytesAt (some ⟨input.buffer, input.peek⟩) k = input.readable.take k := by
  rw [bytesAt, Buffer.readable, Buffer.bytes, List.drop_take, List.take_take]
  exact congrArg (fun n => List.take n _) (Nat.min_eq_left hk).symm

/-- The call of `deflate`, if there is one. -/
theorem feed_eq {z : ZlibOutputStream} {a : Answer} (hz : z.Sound) (hok : z.zerror = .ok)
    (ha : z.Hungry → Lawful .noFlush z a) :
    ∃ c z', z.feed a = .ok z' ∧ z'.Sound ∧ z'.zerror = .ok ∧
      c ≤ z.availIn ∧ z'.taken = z.taken ++ bytesAt z.nextIn c ∧ z'.availIn = z.availIn - c := by
  by_cases hhungry : z.Hungry
  · have hlawful := ha hhungry
    obtain ⟨z', hround, hz'⟩ := round_advanced hz.output a
    exact ⟨a.consumed, z', by rw [feed, if_pos hhungry, hround], hz'.sound hz hlawful.consumed_le,
      hz'.zerror.trans (hlawful.noFlush rfl), hlawful.consumed_le, hz'.taken, hz'.availIn⟩
  · have hnone : bytesAt z.nextIn 0 = [] := by
      cases z.nextIn with
      | none => rfl
      | some p => rfl
    exact ⟨0, z, if_neg hhungry, hz, hok, Nat.zero_le _, by rw [hnone, List.append_nil], rfl⟩

/-- `deflate` takes some bytes of those that `avail_in` counts, and what it leaves of them stays in
the buffer. -/
theorem writeBuffer_eq {z : ZlibOutputStream} {input : Buffer} {a : Answer} (hz : z.Sound)
    (hok : z.zerror = .ok) (hinput : input.Valid)
    (ha : (z.setIn ⟨input.buffer, input.peek⟩ (avail input.readableBytes)).Hungry →
      Lawful .noFlush (z.setIn ⟨input.buffer, input.peek⟩ (avail input.readableBytes)) a) :
    ∃ c z' input', z.writeBuffer input a = .ok (true, input', z') ∧ z'.Sound ∧
      c ≤ avail input.readableBytes ∧ z'.taken = z.taken ++ input.readable.take c ∧
      input'.readableBytes = avail input.readableBytes - c := by
  have hle : avail input.readableBytes ≤ input.readableBytes := by
    rw [avail_eq]
    exact Nat.mod_le _ _
  have hreadable : input.readableBytes = input.readable.length := hinput.holds.readableBytes_eq
  have hsound : (z.setIn ⟨input.buffer, input.peek⟩ (avail input.readableBytes)).Sound := by
    refine hz.setIn ?_
    have hreader := hinput.reader_le
    have hwriter := hinput.writer_le
    simp only [Buffer.peek]
    rw [Buffer.readableBytes] at hle ⊢
    omega
  obtain ⟨c, z', hfeed, hz', hok', hc, htaken, havail⟩ := feed_eq hsound hok ha
  have hc' : c ≤ avail input.readableBytes := hc
  have havail' : z'.availIn = avail input.readableBytes - c := havail
  obtain ⟨input', hretrieve, hholds⟩ := hinput.holds.retrieve
    (input.readableBytes - z'.availIn) (hreadable ▸ Nat.sub_le _ _)
  refine ⟨c, z', input', ?_, hz', hc', ?_, ?_⟩
  · rw [writeBuffer, if_neg (not_not_intro hok)]
    dsimp only
    rw [hfeed, ok_bind, hretrieve, hok']
    rfl
  · rw [htaken]
    exact congrArg (z.taken ++ ·) (bytesAt_peek (Nat.le_trans hc' hle))
  · rw [hholds.readableBytes_eq, List.length_drop, ← hreadable, havail']
    omega

/-! ### `finish` -/

/-- In the loop of `finish`. -/
structure Draining (target : List UInt8) (z : ZlibOutputStream) : Prop where
  sound : z.Sound
  zerror : z.zerror = .ok ∨ z.zerror = .streamEnd ∧ z.availIn = 0
  target : z.taken ++ z.left = target

theorem Draining.round {target : List UInt8} {z : ZlibOutputStream} {a : Answer}
    (h : Draining target z) (ha : Lawful .finish z a) :
    ∃ z', z.round a = .ok z' ∧ Draining target z' := by
  obtain ⟨z', hround, hz'⟩ := round_advanced h.sound.output a
  refine ⟨z', hround, hz'.sound h.sound ha.consumed_le, ?_,
    (hz'.taken_left ha.consumed_le).trans h.target⟩
  rw [hz'.zerror, hz'.availIn]
  rcases ha.finish rfl with hcode | ⟨hcode, hall⟩
  · exact .inl hcode
  · exact .inr ⟨hcode, by rw [hall, Nat.sub_self]⟩

/-- All that is left of the input is taken. -/
theorem finish_eq {z : ZlibOutputStream} {answers : List Answer} (hz : z.Sound)
    (hok : z.zerror = .ok) (hdriven : Driven Going round (Lawful .finish) z answers)
    (deflateEnd : Code) :
    ∃ z', z.finish answers deflateEnd = .ok (decide (deflateEnd = .ok), z') ∧ z'.Sound ∧
      z'.taken = z.taken ++ z.left := by
  have hstart : Draining (z.taken ++ z.left) z := ⟨hz, .inl hok, rfl⟩
  obtain ⟨z', hloop, hend, hnot⟩ := loop_rule Fault.pending
    (fun _ _ hdraining _ hlawful => Draining.round hdraining hlawful) hstart hdriven
  have hzero : z'.availIn = 0 := (hend.zerror.resolve_left hnot).2
  have htaken := hend.target
  rw [hend.sound.left_eq_nil_iff.mpr hzero, List.append_nil] at htaken
  refine ⟨{ z' with zerror := .streamEnd }, ?_,
    ⟨hend.sound.output, hend.sound.null, hend.sound.memory⟩, htaken⟩
  rw [finish, if_neg (not_not_intro hok), hloop]
  rfl

end Muduo.Net.ZlibOutputStream

namespace Muduo.System.Compressing

open Library Net ZlibOutputStream

/-! ### Runs -/

/-- Pieces and buffers are well formed, and `deflate` keeps its promises until the call ends. -/
def Legal (s : State) : Label → Prop
  | .writePiece buf deflate => WellFormed buf ∧ (s.stream.zerror = .ok →
      Driven Hungry round (Lawful .noFlush)
        (s.stream.setIn ⟨buf.data, 0⟩ (word 32 buf.length)) deflate)
  | .writeBuffer input deflate => input.Valid ∧ (s.stream.zerror = .ok →
      (s.stream.setIn ⟨input.buffer, input.peek⟩ (avail input.readableBytes)).Hungry →
        Lawful .noFlush (s.stream.setIn ⟨input.buffer, input.peek⟩ (avail input.readableBytes))
          deflate)
  | .finish deflate _ => s.stream.zerror = .ok →
      Driven Going round (Lawful .finish) s.stream deflate

/-- As long as the stream is open: no buffer was written before a piece, the number of readable
bytes of a buffer fits 32 bits, and nothing is left of the last buffer at the end. -/
def Fit (s : State) : Label → Prop
  | .writePiece _ _ => s.stream.zerror = .ok → s.stream.nextIn = none
  | .writeBuffer input _ => s.stream.zerror = .ok → input.readableBytes < 2 ^ 32
  | .finish _ _ => s.stream.zerror = .ok → s.stream.availIn = 0

/-- What `deflate` has taken is what was written and retrieved. -/
def Exact (s : State) : Prop := s.stream.taken = s.due

structure Inv (s : State) : Prop where
  sound : s.stream.Sound
  exact : Exact s

/-- What has to be shown of a step. -/
def Settles (s : State) (l : Label) : Prop :=
  ((∃ s', exec s l = .ok s' ∧ Exact s') ↔ Fit s l) ∧ ∀ s', exec s l = .ok s' → Exact s' → Inv s'

/-- A step that succeeds. -/
theorem settles_of_ok {s s' : State} {l : Label} (hexec : exec s l = .ok s')
    (hsound : s'.stream.Sound) (hiff : Exact s' ↔ Fit s l) : Settles s l := by
  refine ⟨⟨?_, fun hfit => ⟨s', hexec, hiff.mpr hfit⟩⟩, fun t ht hexact => ?_⟩
  · rintro ⟨t, ht, hexact⟩
    obtain rfl : s' = t := Except.ok.inj (hexec.symm.trans ht)
    exact hiff.mp hexact
  · obtain rfl : s' = t := Except.ok.inj (hexec.symm.trans ht)
    exact ⟨hsound, hexact⟩

theorem settles_of_error {s : State} {l : Label} {e : Fault} (hexec : exec s l = .error e)
    (hfit : ¬ Fit s l) : Settles s l := by
  refine ⟨⟨?_, fun h => absurd h hfit⟩, fun t ht => ?_⟩
  · rintro ⟨t, ht, -⟩
    rw [hexec] at ht
    cases ht
  · rw [hexec] at ht
    cases ht

/-- Behind `finish`, or an error, every call returns at once. -/
theorem exec_of_closed {s : State} (h : s.stream.zerror ≠ .ok) (l : Label) : exec s l = .ok s := by
  cases l with
  | writePiece buf deflate =>
      rw [exec, ZlibOutputStream.writePiece, if_pos h, ok_bind]
      dsimp only
      rw [if_neg h]
      rfl
  | writeBuffer input deflate =>
      rw [exec, ZlibOutputStream.writeBuffer, if_pos h, ok_bind]
      dsimp only
      rw [Nat.sub_self, List.take_zero, List.append_nil]
      rfl
  | finish deflate deflateEnd =>
      rw [exec, ZlibOutputStream.finish, if_pos h]
      rfl

theorem fit_of_closed {s : State} (h : s.stream.zerror ≠ .ok) (l : Label) : Fit s l := by
  cases l <;> exact fun hok => absurd hok h

section

variable {s : State} (h : Inv s) (hok : s.stream.zerror = .ok)
include h hok

theorem settles_writePiece {buf : StringPiece} {deflate : List Answer}
    (hlegal : Legal s (.writePiece buf deflate)) : Settles s (.writePiece buf deflate) := by
  by_cases hnull : s.stream.nextIn = none
  · obtain ⟨z', hwrite, hz', htaken⟩ := writePiece_eq h.sound hok hnull hlegal.1 (hlegal.2 hok)
    have hexec : exec s (.writePiece buf deflate) = .ok ⟨z', s.due ++ content buf⟩ := by
      rw [exec, hwrite, ok_bind]
      dsimp only
      rw [if_pos hok]
      rfl
    refine settles_of_ok hexec hz' (iff_of_true ?_ fun _ => hnull)
    exact htaken.trans (congrArg (· ++ content buf) h.exact)
  · have hexec : exec s (.writePiece buf deflate) = .error .nextIn := by
      rw [exec, writePiece_of_ne hok hnull]
      rfl
    exact settles_of_error hexec fun hfit => hnull (hfit hok)

theorem settles_writeBuffer {input : Buffer} {deflate : Answer}
    (hlegal : Legal s (.writeBuffer input deflate)) : Settles s (.writeBuffer input deflate) := by
  obtain ⟨c, z', input', hwrite, hz', hc, htaken, hleft⟩ :=
    writeBuffer_eq h.sound hok hlegal.1 (hlegal.2 hok)
  have hexec : exec s (.writeBuffer input deflate) =
      .ok ⟨z', s.due ++ input.readable.take (input.readableBytes - input'.readableBytes)⟩ := by
    rw [exec, hwrite]
    rfl
  refine settles_of_ok hexec hz' ?_
  have hreadable : input.readableBytes = input.readable.length := hlegal.1.holds.readableBytes_eq
  have hexact : s.stream.taken = s.due := h.exact
  rw [avail_eq] at hc hleft
  have hmod := Nat.mod_le input.readableBytes (2 ^ 32)
  -- The two prefixes are the same exactly if their lengths are.
  have hcount : c = input.readableBytes - input'.readableBytes ↔
      input.readableBytes < 2 ^ 32 := by
    rw [hleft]
    omega
  rw [Exact, htaken, hexact, List.append_cancel_left_eq]
  constructor
  · intro htake _
    refine hcount.mp ?_
    have hlength := congrArg List.length htake
    rw [List.length_take, List.length_take, ← hreadable] at hlength
    omega
  · intro hfit
    rw [← hcount.mpr (hfit hok)]

theorem settles_finish {deflate : List Answer} {deflateEnd : Code}
    (hlegal : Legal s (.finish deflate deflateEnd)) : Settles s (.finish deflate deflateEnd) := by
  obtain ⟨z', hfinish, hz', htaken⟩ := finish_eq h.sound hok (hlegal hok) deflateEnd
  have hexec : exec s (.finish deflate deflateEnd) = .ok ⟨z', s.due⟩ := by
    rw [exec, hfinish]
    rfl
  refine settles_of_ok hexec hz' ?_
  have hexact : s.stream.taken = s.due := h.exact
  rw [Exact, htaken, hexact, List.append_right_eq_self, h.sound.left_eq_nil_iff]
  exact ⟨fun hzero _ => hzero, fun hfit => hfit hok⟩

end

theorem settles {s : State} (l : Label) (h : Inv s) (hlegal : Legal s l) : Settles s l := by
  by_cases hok : s.stream.zerror = .ok
  · cases l with
    | writePiece buf deflate => exact settles_writePiece h hok hlegal
    | writeBuffer input deflate => exact settles_writeBuffer h hok hlegal
    | finish deflate deflateEnd => exact settles_finish h hok hlegal
  · exact settles_of_ok (exec_of_closed hok l) h.sound
      (iff_of_true h.exact (fit_of_closed hok l))

/-- No assertion fails, and after every call the bytes that `deflate` has taken are those that were
handed over, exactly if every call meets the condition. -/
theorem writes_compose_iff (output : Buffer) (houtput : output.Valid) (deflateInit : Code)
    (calls : List Label) (hlegal : LegalRun exec Legal (start output deflateInit) calls) :
    (∀ xs, xs <+: calls → ∃ s, run exec (start output deflateInit) xs = .ok s ∧ Exact s) ↔
      LegalRun exec Fit (start output deflateInit) calls := by
  have hinv : Inv (start output deflateInit) :=
    ⟨⟨houtput, fun _ => rfl, fun p hp => by cases hp⟩, rfl⟩
  exact run_safe_iff (fun _ h => h.exact) (fun _ l h hl => settles l h hl) hinv hlegal

/-- A buffer that holds one byte. -/
def oneByte : Buffer := ⟨List.replicate 8 0 ++ [97], 8, 9⟩

theorem oneByte_valid : oneByte.Valid := ⟨by decide, by decide, by decide⟩

theorem legal_oneByte (s : State) : Legal s (.writeBuffer oneByte ⟨1, [], .ok⟩) :=
  ⟨oneByte_valid, fun _ _ => lawful_all rfl (fun _ => rfl) fun _ => .inl rfl⟩

theorem legal_oneChar (s : State) : Legal s (.writePiece ⟨[98], 1⟩ [⟨1, [], .ok⟩]) :=
  ⟨⟨by decide, by decide, by decide⟩, fun _ => driven_noFlush rfl⟩

def fresh : State := start (.init Buffer.kInitialSize) .ok

/-- A piece, a buffer and the end. -/
def inOrder : List Label :=
  [.writePiece ⟨[98], 1⟩ [⟨1, [], .ok⟩], .writeBuffer oneByte ⟨1, [], .ok⟩,
    .finish [⟨0, [], .streamEnd⟩] .ok]

theorem writes_compose_iff_inOrder :
    LegalRun exec Legal fresh inOrder ∧
      ((∀ xs, xs <+: inOrder → ∃ s, run exec fresh xs = .ok s ∧ Exact s) ↔
        LegalRun exec Fit fresh inOrder) := by
  have hfit : ∀ s, run exec fresh (inOrder.take 2) = .ok s →
      s.stream.availIn = 0 := by
    have hrun : (run exec fresh (inOrder.take 2)).map (·.stream.availIn) = .ok 0 := by
      decide +kernel
    intro s hs
    rw [hs] at hrun
    exact Except.ok.inj hrun
  have hlegal : LegalRun exec Legal fresh inOrder := by
    refine ⟨legal_oneChar _, fun s₁ hs₁ => ⟨legal_oneByte _, fun s₂ hs₂ => ⟨fun _ => ?_, ?_⟩⟩⟩
    · refine driven_finish (hfit s₂ ?_)
      exact (run_cons_of_ok hs₁ _).trans (run_cons_of_ok hs₂ _)
    · exact fun _ _ => trivial
  exact ⟨hlegal, writes_compose_iff (.init Buffer.kInitialSize) (Buffer.init_holds _).toValid .ok
    inOrder hlegal⟩

/-- A piece after a buffer of which nothing is left. -/
theorem piece_after_buffer :
    LegalRun exec Legal fresh
        [.writeBuffer oneByte ⟨1, [], .ok⟩, .writePiece ⟨[98], 1⟩ [⟨1, [], .ok⟩]] ∧
      run exec fresh [.writeBuffer oneByte ⟨1, [], .ok⟩, .writePiece ⟨[98], 1⟩ [⟨1, [], .ok⟩]] =
        .error .nextIn := by
  refine ⟨⟨legal_oneByte _, fun s _ => ⟨legal_oneChar s, fun _ _ => trivial⟩⟩, ?_⟩
  decide +kernel

end Muduo.System.Compressing
