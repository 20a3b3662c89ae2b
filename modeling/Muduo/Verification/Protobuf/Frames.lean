import Mathlib.Data.List.Forall2
import Muduo.Library.Incremental
import Muduo.Net.Protobuf.ProtobufCodecLite

/-! Frames on the wire, and the codec as a decoder of frames. -/

namespace Muduo.Net.ProtobufCodecLite

open Library

variable {μ : Type}

/-- A frame with all its bytes and a length in range: `body` is what the checksum covers. -/
structure Complete (c : ProtobufCodecLite μ) (header body sum : List UInt8) : Prop where
  header_length : header.length = 4
  sum_length : sum.length = 4
  len_eq : networkToHost32 header = (body.length + 4 : ℕ)
  tag_le : c.tag.length ≤ body.length
  le_max : ((body.length + 4 : ℕ) : ℤ) ≤ kMaxMessageLen

/-- The test of `onMessage` on the length. -/
def OutOfRange (c : ProtobufCodecLite μ) (len : ℤ) : Prop :=
  kMaxMessageLen < len ∨ len < c.kMinMessageLen

instance (c : ProtobufCodecLite μ) (len : ℤ) : Decidable (c.OutOfRange len) :=
  inferInstanceAs (Decidable (_ ∨ _))

def ChecksumMatches (c : ProtobufCodecLite μ) (body sum : List UInt8) : Prop :=
  networkToHost32 sum = signed 32 (c.adler32 body)

/-- A frame that carries a message. -/
inductive GoodFrame (c : ProtobufCodecLite μ) : List UInt8 → μ → Prop
  | mk {header payload sum m} (complete : c.Complete header (c.tag ++ payload) sum)
      (checksum : c.ChecksumMatches (c.tag ++ payload) sum)
      (parses : c.prototype.parseFromArray payload = some m) :
      GoodFrame c (header ++ (c.tag ++ payload ++ sum)) m

/-- Bytes that start with a frame at fault, and its error code. The length is judged as
soon as the shortest frame could be there. -/
inductive Offends (c : ProtobufCodecLite μ) : List UInt8 → ErrorCode → Prop
  | length {bs} (present : c.tag.length + 8 ≤ bs.length)
      (range : c.OutOfRange (networkToHost32 (bs.take 4))) :
      Offends c bs .kInvalidLength
  | checksum {header body sum} (rest : List UInt8) (complete : c.Complete header body sum)
      (fails : ¬ c.ChecksumMatches body sum) :
      Offends c (header ++ (body ++ (sum ++ rest))) .kCheckSumError
  | tag {header body sum} (rest : List UInt8) (complete : c.Complete header body sum)
      (checksum : c.ChecksumMatches body sum) (differs : ¬ c.tag <+: body) :
      Offends c (header ++ (body ++ (sum ++ rest))) .kUnknownMessageType
  | parse {header payload sum} (rest : List UInt8)
      (complete : c.Complete header (c.tag ++ payload) sum)
      (checksum : c.ChecksumMatches (c.tag ++ payload) sum)
      (fails : c.prototype.parseFromArray payload = none) :
      Offends c (header ++ (c.tag ++ payload ++ (sum ++ rest))) .kParseError

/-! ### The decoder -/

/-- What `parse` makes of a complete frame. -/
def verdict (c : ProtobufCodecLite μ) (body sum : List UInt8) : Except ErrorCode μ :=
  if signed 32 (c.adler32 body) = networkToHost32 sum then
    if body.take c.tag.length = c.tag then
      match c.prototype.parseFromArray (body.drop c.tag.length) with
      | some m => .ok m
      | none => .error .kParseError
    else .error .kUnknownMessageType
  else .error .kCheckSumError

/-- The frame at the front of the bytes, when its `len` bytes behind the header are there. -/
def onComplete (c : ProtobufCodecLite μ) (len : ℕ) (bs : List UInt8) : Progress Unit μ ErrorCode :=
  match c.verdict ((bs.drop 4).take (len - 4)) ((bs.drop len).take 4) with
  | .ok m => .consume (4 + len) () (some m)
  | .error code => .reject () code

def nextFrame (c : ProtobufCodecLite μ) (bs : List UInt8) : Progress Unit μ ErrorCode :=
  if bs.length < c.tag.length + 8 then .more
  else if c.OutOfRange (networkToHost32 (bs.take 4)) then .reject () .kInvalidLength
  else if bs.length < 4 + (networkToHost32 (bs.take 4)).toNat then .more
  else c.onComplete (networkToHost32 (bs.take 4)).toNat bs

/-- What is there of the frame at the front of the bytes. -/
inductive View (c : ProtobufCodecLite μ) : List UInt8 → Prop
  | short {bs} (absent : bs.length < c.tag.length + 8) : View c bs
  | range {bs} (present : c.tag.length + 8 ≤ bs.length)
      (range : c.OutOfRange (networkToHost32 (bs.take 4))) : View c bs
  | part {bs} (present : c.tag.length + 8 ≤ bs.length)
      (range : ¬ c.OutOfRange (networkToHost32 (bs.take 4)))
      (absent : bs.length < 4 + (networkToHost32 (bs.take 4)).toNat) : View c bs
  | complete {header body sum} (rest : List UInt8) (complete : c.Complete header body sum) :
      View c (header ++ (body ++ (sum ++ rest)))

variable {c : ProtobufCodecLite μ} {header body sum : List UInt8}

theorem Complete.onComplete (h : c.Complete header body sum) (rest : List UInt8) :
    c.onComplete (body.length + 4) (header ++ (body ++ (sum ++ rest))) =
      match c.verdict body sum with
      | .ok m => .consume (4 + (body.length + 4)) () (some m)
      | .error code => .reject () code := by
  have hbody : ((header ++ (body ++ (sum ++ rest))).drop 4).take (body.length + 4 - 4) = body := by
    rw [← h.header_length, List.drop_left, Nat.add_sub_cancel, List.take_left]
  have hsum : ((header ++ (body ++ (sum ++ rest))).drop (body.length + 4)).take 4 = sum := by
    rw [Nat.add_comm, ← List.drop_drop, ← h.header_length, List.drop_left, List.drop_left,
      h.header_length, ← h.sum_length, List.take_left]
  rw [ProtobufCodecLite.onComplete, hbody, hsum]

theorem Complete.length_eq (h : c.Complete header body sum) (rest : List UInt8) :
    (header ++ (body ++ (sum ++ rest))).length = 4 + (body.length + (4 + rest.length)) := by
  simp only [List.length_append, h.header_length, h.sum_length]

theorem Complete.take_header (h : c.Complete header body sum) (rest : List UInt8) :
    (header ++ (body ++ (sum ++ rest))).take 4 = header := by
  rw [← h.header_length, List.take_left]

theorem Complete.inRange (h : c.Complete header body sum) :
    ¬ c.OutOfRange (body.length + 4 : ℕ) := by
  have htag := h.tag_le
  have hmax := h.le_max
  rw [OutOfRange, kMinMessageLen, kChecksumLen]
  omega

theorem Complete.nextFrame (h : c.Complete header body sum) (rest : List UInt8) :
    c.nextFrame (header ++ (body ++ (sum ++ rest))) =
      match c.verdict body sum with
      | .ok m => .consume (4 + (body.length + 4)) () (some m)
      | .error code => .reject () code := by
  have htag := h.tag_le
  rw [ProtobufCodecLite.nextFrame, h.take_header, h.len_eq, h.length_eq, Int.toNat_natCast,
    if_neg (by omega), if_neg h.inRange, if_neg (by omega), h.onComplete rest]

theorem exists_complete {bs : List UInt8} (present : c.tag.length + 8 ≤ bs.length)
    (range : ¬ c.OutOfRange (networkToHost32 (bs.take 4)))
    (hall : 4 + (networkToHost32 (bs.take 4)).toNat ≤ bs.length) :
    ∃ header body sum rest, bs = header ++ (body ++ (sum ++ rest)) ∧
      c.Complete header body sum := by
  rw [OutOfRange, kMinMessageLen, kChecksumLen] at range
  obtain ⟨len, hlen⟩ : ∃ len : ℕ, networkToHost32 (bs.take 4) = (len + 4 : ℕ) :=
    ⟨(networkToHost32 (bs.take 4)).toNat - 4, by omega⟩
  rw [hlen] at range hall
  have hbody : ((bs.drop 4).take len).length = len := by
    rw [List.length_take, List.length_drop]
    omega
  refine ⟨bs.take 4, (bs.drop 4).take len, ((bs.drop 4).drop len).take 4,
    ((bs.drop 4).drop len).drop 4, ?_, ?_, ?_, ?_, ?_, ?_⟩
  · rw [List.take_append_drop, List.take_append_drop, List.take_append_drop]
  · rw [List.length_take]
    omega
  · rw [List.length_take, List.length_drop, List.length_drop]
    omega
  · rw [hlen, hbody]
  · rw [hbody]
    omega
  · rw [hbody]
    omega

theorem view (c : ProtobufCodecLite μ) (bs : List UInt8) : c.View bs := by
  by_cases hshort : bs.length < c.tag.length + 8
  · exact .short hshort
  have present := Nat.le_of_not_lt hshort
  by_cases hrange : c.OutOfRange (networkToHost32 (bs.take 4))
  · exact .range present hrange
  by_cases hpart : bs.length < 4 + (networkToHost32 (bs.take 4)).toNat
  · exact .part present hrange hpart
  · obtain ⟨header, body, sum, rest, rfl, hc⟩ :=
      exists_complete present hrange (Nat.le_of_not_lt hpart)
    exact .complete rest hc

theorem nextFrame_short {bs : List UInt8} (absent : bs.length < c.tag.length + 8) :
    c.nextFrame bs = .more := if_pos absent

theorem nextFrame_range {bs : List UInt8} (present : c.tag.length + 8 ≤ bs.length)
    (range : c.OutOfRange (networkToHost32 (bs.take 4))) :
    c.nextFrame bs = .reject () .kInvalidLength := by
  rw [nextFrame, if_neg (Nat.not_lt.mpr present), if_pos range]

theorem nextFrame_part {bs : List UInt8} (present : c.tag.length + 8 ≤ bs.length)
    (range : ¬ c.OutOfRange (networkToHost32 (bs.take 4)))
    (absent : bs.length < 4 + (networkToHost32 (bs.take 4)).toNat) : c.nextFrame bs = .more := by
  rw [nextFrame, if_neg (Nat.not_lt.mpr present), if_neg range, if_pos absent]

theorem nextFrame_append {bs : List UInt8} (h : c.nextFrame bs ≠ .more) (xs : List UInt8) :
    c.nextFrame (bs ++ xs) = c.nextFrame bs := by
  cases c.view bs with
  | short absent => exact absurd (nextFrame_short absent) h
  | part present range absent => exact absurd (nextFrame_part present range absent) h
  | range present range =>
      have htake : (bs ++ xs).take 4 = bs.take 4 := List.take_append_of_le_length (by omega)
      rw [nextFrame_range present range, nextFrame, htake, List.length_append, if_neg (by omega),
        if_pos range]
  | complete rest hc =>
      rw [List.append_assoc, List.append_assoc, List.append_assoc, hc.nextFrame, hc.nextFrame]

theorem verdict_good {payload : List UInt8} {m : μ}
    (hsum : c.ChecksumMatches (c.tag ++ payload) sum)
    (hparse : c.prototype.parseFromArray payload = some m) :
    c.verdict (c.tag ++ payload) sum = .ok m := by
  rw [verdict, if_pos hsum.symm, List.take_left, if_pos rfl, List.drop_left, hparse]

theorem verdict_checksum (hsum : ¬ c.ChecksumMatches body sum) :
    c.verdict body sum = .error .kCheckSumError :=
  if_neg fun h => hsum h.symm

theorem verdict_tag (hsum : c.ChecksumMatches body sum) (htag : ¬ c.tag <+: body) :
    c.verdict body sum = .error .kUnknownMessageType := by
  rw [verdict, if_pos hsum.symm, if_neg]
  exact fun h => htag (h ▸ List.take_prefix _ _)

theorem verdict_parse {payload : List UInt8} (hsum : c.ChecksumMatches (c.tag ++ payload) sum)
    (hparse : c.prototype.parseFromArray payload = none) :
    c.verdict (c.tag ++ payload) sum = .error .kParseError := by
  rw [verdict, if_pos hsum.symm, List.take_left, if_pos rfl, List.drop_left, hparse]

/-- A complete frame is good or offends, and the verdict tells which. -/
theorem Complete.judged (hc : c.Complete header body sum) (rest : List UInt8) :
    (∃ m, c.GoodFrame (header ++ (body ++ sum)) m ∧ c.verdict body sum = .ok m) ∨
      ∃ code, c.Offends (header ++ (body ++ (sum ++ rest))) code ∧
        c.verdict body sum = .error code := by
  by_cases hsum : c.ChecksumMatches body sum
  · by_cases htag : c.tag <+: body
    · obtain ⟨payload, rfl⟩ := htag
      cases hparse : c.prototype.parseFromArray payload with
      | some m => exact .inl ⟨m, .mk hc hsum hparse, verdict_good hsum hparse⟩
      | none => exact .inr ⟨_, .parse rest hc hsum hparse, verdict_parse hsum hparse⟩
    · exact .inr ⟨_, .tag rest hc hsum htag, verdict_tag hsum htag⟩
  · exact .inr ⟨_, .checksum rest hc hsum, verdict_checksum hsum⟩

/-! ### Good frames and offending ones -/

theorem GoodFrame.nextFrame {f : List UInt8} {m : μ} (h : c.GoodFrame f m) (rest : List UInt8) :
    c.nextFrame (f ++ rest) = .consume f.length () (some m) := by
  cases h with
  | @mk header payload sum m hc hsum hparse =>
      rw [List.append_assoc, List.append_assoc (c.tag ++ payload), hc.nextFrame,
        verdict_good hsum hparse]
      simp only [List.length_append, hc.header_length, hc.sum_length]

theorem GoodFrame.length_pos {f : List UInt8} {m : μ} (h : c.GoodFrame f m) : 0 < f.length := by
  cases h with
  | mk hc =>
      rw [List.length_append, hc.header_length]
      omega

/-- What is consumed is a good frame. -/
theorem goodFrame_of_nextFrame {bs : List UInt8} {n : ℕ} {out : Option μ}
    (h : c.nextFrame bs = .consume n () out) :
    ∃ f m rest, bs = f ++ rest ∧ n = f.length ∧ out = some m ∧ c.GoodFrame f m := by
  cases c.view bs with
  | short absent => cases h.symm.trans (nextFrame_short absent)
  | part present range absent => cases h.symm.trans (nextFrame_part present range absent)
  | range present range => cases h.symm.trans (nextFrame_range present range)
  | @complete header body sum rest hc =>
      rw [hc.nextFrame] at h
      rcases hc.judged rest with ⟨m, hgood, hv⟩ | ⟨code, -, hv⟩
      · rw [hv] at h
        cases h
        refine ⟨header ++ (body ++ sum), m, rest, ?_, ?_, rfl, hgood⟩
        · simp only [List.append_assoc]
        · simp only [List.length_append, hc.header_length, hc.sum_length]
      · rw [hv] at h
        cases h

theorem Offends.nextFrame {bs : List UInt8} {code : ErrorCode} (h : c.Offends bs code) :
    c.nextFrame bs = .reject () code := by
  cases h with
  | length present range => exact nextFrame_range present range
  | checksum rest hc fails => rw [hc.nextFrame, verdict_checksum fails]
  | tag rest hc hsum differs => rw [hc.nextFrame, verdict_tag hsum differs]
  | parse rest hc hsum fails => rw [hc.nextFrame, verdict_parse hsum fails]

theorem offends_of_nextFrame {bs : List UInt8} {code : ErrorCode}
    (h : c.nextFrame bs = .reject () code) : c.Offends bs code := by
  cases c.view bs with
  | short absent => cases h.symm.trans (nextFrame_short absent)
  | part present range absent => cases h.symm.trans (nextFrame_part present range absent)
  | range present range =>
      cases h.symm.trans (nextFrame_range present range)
      exact .length present range
  | complete rest hc =>
      rw [hc.nextFrame] at h
      rcases hc.judged rest with ⟨m, -, hv⟩ | ⟨code, hbad, hv⟩
      · rw [hv] at h
        cases h
      · rw [hv] at h
        cases h
        exact hbad

/-- The codec as a decoder of frames, which keeps nothing but the bytes. -/
def decoder (c : ProtobufCodecLite μ) : Decoder UInt8 Unit μ ErrorCode where
  next _ bs := c.nextFrame bs
  consume_pos := by
    intro _ bs n _ out h
    obtain ⟨f, m, rest, -, rfl, -, hf⟩ := goodFrame_of_nextFrame h
    exact hf.length_pos
  consume_le := by
    intro _ bs n _ out h
    obtain ⟨f, m, rest, rfl, rfl, -, -⟩ := goodFrame_of_nextFrame h
    rw [List.length_append]
    exact Nat.le_add_right _ _
  consume_take := by
    intro _ bs n _ out h
    obtain ⟨f, m, rest, rfl, rfl, rfl, hf⟩ := goodFrame_of_nextFrame h
    have hnext := hf.nextFrame []
    rw [List.append_nil] at hnext
    rw [List.take_left, hnext]
  consume_append := by
    intro _ bs n _ out h xs
    rw [nextFrame_append (by rw [h]; exact nofun), h]
  reject_append := by
    intro _ bs _ code h xs
    rw [nextFrame_append (by rw [h]; exact nofun), h]

theorem decoder_next_nil (c : ProtobufCodecLite μ) : c.decoder.next () [] = .more := by
  have hshort : ([] : List UInt8).length < c.tag.length + 8 := Nat.succ_pos _
  exact nextFrame_short hshort

/-! ### Streams of frames -/

/-- At most one good frame starts a stream. -/
theorem GoodFrame.unique {f f' bs : List UInt8} {m m' : μ} (h : c.GoodFrame f m)
    (h' : c.GoodFrame f' m') (hf : f <+: bs) (hf' : f' <+: bs) : f = f' ∧ m = m' := by
  obtain ⟨rest, rfl⟩ := hf
  obtain ⟨rest', heq⟩ := hf'
  have hnext := h.nextFrame rest
  rw [← heq, h'.nextFrame rest'] at hnext
  injection hnext with hlen _ hm
  exact ⟨(List.append_inj heq hlen).1.symm, (Option.some.inj hm).symm⟩

/-- Frames of which nothing more follows in a stream are all that start it. -/
theorem goodFrames_longest {frames frames' : List (List UInt8)} {msgs msgs' : List μ}
    {tail : List UInt8} (hgood : List.Forall₂ c.GoodFrame frames msgs)
    (htail : ∀ f m, c.GoodFrame f m → ¬ f <+: tail)
    (hgood' : List.Forall₂ c.GoodFrame frames' msgs')
    (hpre : frames'.flatten <+: frames.flatten ++ tail) : frames' <+: frames := by
  induction hgood' generalizing frames msgs with
  | nil => exact List.nil_prefix
  | @cons f' m' frames' msgs' hf' _ ih =>
      have hstart := (List.prefix_append f' frames'.flatten).trans hpre
      cases hgood with
      | nil => exact absurd hstart (htail f' m' hf')
      | @cons f m frames msgs hf hgood =>
          rw [List.flatten_cons, List.append_assoc] at hstart
          rw [List.flatten_cons, List.flatten_cons, List.append_assoc] at hpre
          obtain ⟨rfl, -⟩ := hf.unique hf' (List.prefix_append f _) hstart
          rw [List.prefix_append_right_inj] at hpre
          exact (List.prefix_cons_inj f).mpr (ih hgood hpre)

/-- What the decoder takes from a stream are good frames. -/
theorem goodFrames_of_drains {bs rest : List UInt8} {msgs : List μ} {e : Option ErrorCode}
    (h : c.decoder.Drains () bs msgs () rest e) :
    ∃ frames, bs = frames.flatten ++ rest ∧ List.Forall₂ c.GoodFrame frames msgs := by
  obtain ⟨frames, part, _, hsplit, hpart, hall⟩ := h.segments (fun _ => rfl) (.nil (s := ()))
  cases hpart with
  | consume h =>
      obtain ⟨_, _, _, -, -, hout, -⟩ := goodFrame_of_nextFrame h
      cases hout
  | nil =>
      refine ⟨frames, hsplit, hall.imp ?_⟩
      intro f m hf
      cases hf with
      | consume h =>
          obtain ⟨_, _, _, -, -, hout, -⟩ := goodFrame_of_nextFrame h
          cases hout
      | item h =>
          obtain ⟨f', m', rest', rfl, hlen, hout, hgood⟩ := goodFrame_of_nextFrame h
          rw [List.length_append, Nat.add_eq_left, List.length_eq_zero_iff] at hlen
          cases hout
          rwa [hlen, List.append_nil]

/-- Good frames are all taken. -/
theorem drains_of_goodFrames {frames : List (List UInt8)} {msgs : List μ}
    (h : List.Forall₂ c.GoodFrame frames msgs) :
    c.decoder.Drains () frames.flatten msgs () [] none := by
  induction h with
  | nil => exact .more c.decoder_next_nil
  | @cons f m frames msgs hf _ ih =>
      have hnext : c.decoder.next () (f ++ frames.flatten) = .consume f.length () (some m) :=
        hf.nextFrame frames.flatten
      refine .consume hnext ?_
      rwa [List.drop_left]

end Muduo.Net.ProtobufCodecLite
