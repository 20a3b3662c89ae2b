import Muduo.Verification.Fastcgi.Parameters

/-! Answers of a FastCGI application, and what `readFromPhp` makes of them. Its first `read` takes
up to a thousand bytes that nobody looks at, so no answer is decoded from its start; its loop
keeps the content of one record only. -/

namespace Muduo.Net.FastCgi

open Library Util

/-! ### Answers -/

inductive StreamType where
  | stdout
  | stderr
  deriving DecidableEq, Repr

def StreamType.code : StreamType → UInt8
  | stdout => fcgiStdout
  | stderr => fcgiStderr

/-- A record of `FCGI_STDOUT` or `FCGI_STDERR`. -/
structure StreamRecord where
  type : StreamType
  requestId : ℤ
  content : List UInt8
  padding : List UInt8
  content_le : content.length ≤ 65535
  padding_le : padding.length ≤ 255

namespace StreamRecord

def header (x : StreamRecord) : Header :=
  makeHeader x.type.code x.requestId x.content.length x.padding.length

def bytes (x : StreamRecord) : List UInt8 := x.header.bytes ++ (x.content ++ x.padding)

end StreamRecord

/-- A record of `FCGI_END_REQUEST`. -/
structure EndRecord where
  requestId : ℤ
  body : List UInt8
  body_length : body.length = 8

namespace EndRecord

def header (x : EndRecord) : Header := makeHeader fcgiEndRequest x.requestId 8 0

def bytes (x : EndRecord) : List UInt8 := x.header.bytes ++ x.body

end EndRecord

/-- Where segments start, when the first one starts at `n`. -/
def starts (n : ℕ) : List (List UInt8) → List ℕ
  | [] => []
  | x :: xs => n :: starts (n + x.length) xs

structure Response where
  records : List StreamRecord
  ending : EndRecord

namespace Response

def segments (r : Response) : List (List UInt8) :=
  r.records.map StreamRecord.bytes ++ [r.ending.bytes]

def bytes (r : Response) : List UInt8 := r.segments.flatten

/-- The contents of the records of `FCGI_STDOUT`. -/
def stdout (r : Response) : List UInt8 :=
  (r.records.filter (·.type = .stdout)).flatMap StreamRecord.content

end Response

/-- Every record is read at its boundary, and the result starts with the contents of the records
of `FCGI_STDOUT`. -/
def Decodes (response : Response) (r : Reader) : Prop :=
  r.heads = starts 0 response.segments ∧ response.stdout <+: r.content

/-! ### Reading goes forward -/

/-- The headers of a reader lie behind `k`, and so does what it reads next. -/
structure Behind (k : ℕ) (r : Reader) : Prop where
  position : k ≤ r.position
  heads : ∀ h ∈ r.heads, k ≤ h

namespace Behind

variable {k : ℕ} {r r' : Reader}

theorem read {n size : ℕ} {fault : Fault} {data : List UInt8} (h : Behind k r)
    (hread : r.read n size fault = .ok (data, r')) : Behind k r' := by
  obtain ⟨-, hread⟩ := of_ensure_bind hread
  obtain ⟨-, rfl⟩ := Prod.mk.inj (Except.ok.inj hread)
  exact ⟨Nat.le_trans h.position (Nat.le_add_right _ _), h.heads⟩

theorem readContent (h : Behind k r) (hread : r.readContent = .ok r') : Behind k r' := by
  obtain ⟨⟨data, r₁⟩, hr₁, hread⟩ := of_bind hread
  obtain ⟨-, hread⟩ := of_ensure_bind hread
  obtain rfl := Except.ok.inj hread
  exact ⟨(h.read hr₁).position, (h.read hr₁).heads⟩

theorem skipPadding (h : Behind k r) (hread : r.skipPadding = .ok r') : Behind k r' := by
  unfold Reader.skipPadding at hread
  split at hread
  · obtain ⟨⟨data, r₁⟩, hr₁, hread⟩ := of_bind hread
    obtain ⟨-, hread⟩ := of_ensure_bind hread
    obtain rfl := Except.ok.inj hread
    exact h.read hr₁
  · obtain rfl := Except.ok.inj hread
    exact h

theorem printError (h : Behind k r) (hprint : r.printError = .ok r') : Behind k r' := by
  obtain ⟨-, hprint⟩ := of_ensure_bind hprint
  obtain rfl := Except.ok.inj hprint
  exact ⟨h.position, h.heads⟩

theorem readRecord (h : Behind k r) (hread : r.readRecord = .ok r') : Behind k r' := by
  unfold Reader.readRecord at hread
  split at hread
  · obtain ⟨r₁, hr₁, hread⟩ := of_bind hread
    exact (h.readContent hr₁).skipPadding hread
  · split at hread
    · obtain ⟨r₁, hr₁, hread⟩ := of_bind hread
      obtain ⟨r₂, hr₂, hread⟩ := of_bind hread
      exact ((h.readContent hr₁).printError hr₂).skipPadding hread
    · split at hread
      · obtain ⟨⟨data, r₁⟩, hr₁, hread⟩ := of_bind hread
        obtain ⟨-, hread⟩ := of_ensure_bind hread
        obtain rfl := Except.ok.inj hread
        exact h.read hr₁
      · obtain rfl := Except.ok.inj hread
        exact h

theorem readHeader {more : Bool} (h : Behind k r) (hread : r.readHeader = .ok (more, r')) :
    Behind k r' := by
  obtain ⟨⟨data, r₁⟩, hr₁, hread⟩ := of_bind hread
  dsimp only at hread
  split at hread
  · obtain ⟨-, rfl⟩ := Prod.mk.inj (Except.ok.inj hread)
    exact h.read hr₁
  · obtain ⟨-, rfl⟩ := Prod.mk.inj (Except.ok.inj hread)
    refine ⟨(h.read hr₁).position, fun x hx => ?_⟩
    rcases List.mem_append.mp hx with hx | hx
    · exact h.heads x hx
    · exact List.mem_singleton.mp hx ▸ h.position

theorem loop {rounds : ℕ} (h : Behind k r) (hloop : r.loop rounds = .ok r') : Behind k r' := by
  induction rounds generalizing r with
  | zero =>
      obtain rfl := Except.ok.inj hloop
      exact h
  | succ rounds ih =>
      obtain ⟨⟨more, r₁⟩, hr₁, hloop⟩ := of_bind hloop
      dsimp only at hloop
      split at hloop
      · obtain ⟨r₂, hr₂, hloop⟩ := of_bind hloop
        exact ih ((h.readHeader hr₁).readRecord hr₂) hloop
      · obtain rfl := Except.ok.inj hloop
        exact h.readHeader hr₁

/-- A first `read` of some bytes leaves the start of the stream behind. -/
theorem of_read {n size : ℕ} {fault : Fault} {data : List UInt8} (hheads : r.heads = [])
    (hn : 0 < n) (hrest : 0 < r.rest.length) (hread : r.read n size fault = .ok (data, r')) :
    Behind 1 r' := by
  obtain ⟨-, hread⟩ := of_ensure_bind hread
  obtain ⟨-, rfl⟩ := Prod.mk.inj (Except.ok.inj hread)
  refine ⟨?_, fun h hh => ?_⟩
  · rw [List.length_take]
    exact Nat.le_trans (Nat.le_min.mpr ⟨hn, hrest⟩) (Nat.le_add_left _ _)
  · exact absurd (hheads ▸ hh) List.not_mem_nil

end Behind

theorem length_header_bytes (h : Header) : h.bytes.length = 8 := rfl

/-- The first record starts where nothing is read as a header. -/
theorem response_not_decoded (header content : List UInt8) (response : Response) :
    ¬ ∃ r, readFromPhp header content response.bytes = .ok r ∧ Decodes response r := by
  rintro ⟨r, hread, hheads, -⟩
  have hlength : 0 < response.bytes.length := by
    simp only [Response.bytes, Response.segments, EndRecord.bytes, List.flatten_append,
      List.flatten_singleton, List.length_append, length_header_bytes]
    omega
  obtain ⟨⟨data, r₁⟩, hr₁, hloop⟩ := of_bind hread
  have hfirst : Behind 1 r₁ := Behind.of_read rfl (by decide) hlength hr₁
  have hzero : 0 ∈ r.heads := by
    rw [hheads, Response.segments]
    cases response.records with
    | nil => exact List.mem_cons_self
    | cons x xs => exact List.mem_cons_self
  exact absurd ((hfirst.loop hloop).heads 0 hzero) (by decide)

/-- One record with the text `hi`, and the end. -/
def hiResponse : Response where
  records := [⟨.stdout, 1, ascii "hi", [], by decide, by decide⟩]
  ending := ⟨1, List.replicate 8 0, rfl⟩

theorem hi_unread :
    hiResponse.stdout = ascii "hi" ∧
      readFromPhp [] (List.replicate 8 0) hiResponse.bytes =
        .ok ⟨[], [], List.replicate 8 0, 26, [], []⟩ :=
  ⟨rfl, rfl⟩

/-! ### The loop from a boundary -/

namespace StreamRecord

/-- The content and the padding fit `content`, with a `NUL` behind the text, and `tmp`. -/
structure Fits (x : StreamRecord) : Prop where
  content : x.content.length < contentBuffLen
  padding : x.padding.length ≤ 8

/-- What the record leaves in `content`. -/
def kept (x : StreamRecord) : List UInt8 :=
  x.content ++ List.replicate (contentBuffLen - x.content.length) 0

end StreamRecord

/-- What is read as the last record's content, `content` being there before the first. -/
def lastKept (content : List UInt8) (records : List StreamRecord) : List UInt8 :=
  (records.map StreamRecord.kept).getLastD content

namespace Reader

variable {r : Reader} {rest : List UInt8}

theorem read_of_append {data : List UInt8} {n size : ℕ} (fault : Fault)
    (hrest : r.rest = data ++ rest) (hn : data.length = n) (hsize : n ≤ size) :
    r.read n size fault =
      .ok (data, { r with rest := rest, position := r.position + n }) := by
  subst hn
  rw [read, hrest, List.take_left, List.drop_left, ensure_of fault hsize, ok_bind]
  rfl

theorem readHeader_of_bytes {h : Header} (hrest : r.rest = h.bytes ++ rest)
    (hheader : r.responderHeader.length = fcgiHeaderLen) :
    r.readHeader = .ok (true, { r with
      rest := rest
      responderHeader := h.bytes
      position := r.position + fcgiHeaderLen
      heads := r.heads ++ [r.position] }) := by
  have hlen : h.bytes.length = fcgiHeaderLen := rfl
  have hcopy := copyInto_eq h.bytes 0 r.responderHeader (by rw [Nat.zero_add, hheader, hlen])
  rw [List.take_zero, List.nil_append, Nat.zero_add, hlen, ← hheader, List.drop_length,
    List.append_nil] at hcopy
  rw [readHeader, read_of_append _ hrest hlen (Nat.le_refl _), ok_bind]
  simp only [hcopy]
  rfl

theorem readHeader_of_nil (hrest : r.rest = []) : r.readHeader = .ok (false, r) := by
  rw [readHeader, read, hrest, List.take_nil, List.drop_nil, List.length_nil,
    ensure_of _ (Nat.zero_le _), ok_bind]
  exact congrArg (fun xs => Except.ok (false, { r with rest := xs })) hrest.symm

theorem readContent_of_append {content : List UInt8} (hrest : r.rest = content ++ rest)
    (hlen : content.length = r.contentLen) (hfits : content.length ≤ contentBuffLen) :
    r.readContent = .ok { r with
      rest := rest
      position := r.position + content.length
      content := content ++ List.replicate (contentBuffLen - content.length) 0 } := by
  have hcopy := copyInto_eq content 0 (List.replicate contentBuffLen 0)
    (by rwa [Nat.zero_add, List.length_replicate])
  rw [List.take_zero, List.nil_append, Nat.zero_add, List.drop_replicate] at hcopy
  rw [readContent, read_of_append _ hrest hlen (hlen ▸ hfits), ok_bind]
  dsimp only
  rw [ensure_of _ hlen, ok_bind, hcopy, ← hlen]
  rfl

theorem skipPadding_of_append {padding : List UInt8} (hrest : r.rest = padding ++ rest)
    (hlen : padding.length = r.paddingLength) (hfits : padding.length ≤ 8) :
    r.skipPadding = .ok { r with rest := rest, position := r.position + padding.length } := by
  unfold skipPadding
  split
  · rw [read_of_append _ hrest hlen (hlen ▸ hfits), ok_bind]
    dsimp only
    rw [ensure_of _ hlen, ok_bind, hlen]
    rfl
  · have hnil : padding = [] := List.eq_nil_of_length_eq_zero (by omega)
    subst hnil
    rw [List.nil_append] at hrest
    subst hrest
    rfl

/-- A text that leaves room for a `NUL` ends. -/
theorem printError_of_kept {x : StreamRecord} (hfits : x.Fits) (hcontent : r.content = x.kept) :
    r.printError = .ok { r with printed := r.printed ++ [cstr x.kept] } := by
  have hends : r.content.any (· = 0) = true := by
    have hlt := hfits.content
    rw [hcontent, StreamRecord.kept, List.any_append, List.any_replicate, if_neg (by omega)]
    simp
  rw [printError, ensure_of _ hends, ok_bind, hcontent]
  rfl

end Reader

/-- A reader behind the header `h`, of which `body` is left. -/
structure Headed (h : Header) (body : List UInt8) (r : Reader) : Prop where
  header : r.responderHeader = h.bytes
  rest : r.rest = body

namespace Headed

variable {x : StreamRecord} {r : Reader} {body : List UInt8}

theorem type_eq {h : Header} (hr : Headed h body r) : r.type = h.type.toNat := by
  rw [Reader.type, Reader.headerAt, hr.header]
  rfl

theorem contentLen_eq (hr : Headed x.header body r) : x.content.length = r.contentLen := by
  have hlength := contentLength_makeHeader x.type.code x.requestId x.padding.length x.content.length
  have hle := x.content_le
  rw [Nat.mod_eq_of_lt (by omega)] at hlength
  rw [Reader.contentLen, Reader.headerAt, Reader.headerAt, hr.header]
  exact hlength.symm

theorem paddingLength_eq (hr : Headed x.header body r) : x.padding.length = r.paddingLength := by
  have hlength := toNat_byte x.padding.length
  have hle := x.padding_le
  rw [Nat.mod_eq_of_lt (by omega)] at hlength
  rw [Reader.paddingLength, Reader.headerAt, hr.header]
  exact hlength.symm

/-- A record that fits is read whole, and nothing behind it. -/
theorem readRecord {rest : List UInt8} (hfits : x.Fits)
    (hr : Headed x.header (x.content ++ (x.padding ++ rest)) r) :
    ∃ printed, r.readRecord = .ok { r with
      rest := rest
      content := x.kept
      position := r.position + x.content.length + x.padding.length
      printed := printed } := by
  have hcontent := Reader.readContent_of_append hr.rest hr.contentLen_eq
    (Nat.le_of_lt hfits.content)
  have htype : r.type = x.type.code.toNat := hr.type_eq
  cases hcase : x.type with
  | stdout =>
      rw [hcase, StreamType.code] at htype
      refine ⟨r.printed, ?_⟩
      rw [Reader.readRecord, if_pos htype, hcontent, ok_bind]
      exact Reader.skipPadding_of_append rfl hr.paddingLength_eq hfits.padding
  | stderr =>
      rw [hcase, StreamType.code] at htype
      have hnot : r.type ≠ fcgiStdout.toNat := by
        rw [htype]
        decide
      refine ⟨r.printed ++ [cstr x.kept], ?_⟩
      rw [Reader.readRecord, if_neg hnot, if_pos htype, hcontent, ok_bind,
        Reader.printError_of_kept hfits rfl, ok_bind]
      exact Reader.skipPadding_of_append rfl hr.paddingLength_eq hfits.padding

theorem readEnd {x : EndRecord} {rest : List UInt8} (hr : Headed x.header (x.body ++ rest) r) :
    r.readRecord = .ok { r with rest := rest, position := r.position + 8 } := by
  have htype : r.type = fcgiEndRequest.toNat := hr.type_eq
  have hstdout : r.type ≠ fcgiStdout.toNat := by
    rw [htype]
    decide
  have hstderr : r.type ≠ fcgiStderr.toNat := by
    rw [htype]
    decide
  rw [Reader.readRecord, if_neg hstdout, if_neg hstderr, if_pos htype,
    Reader.read_of_append _ hr.rest x.body_length (Nat.le_refl _), ok_bind]
  dsimp only
  rw [ensure_of _ x.body_length]
  rfl

end Headed

/-- The loop ran to the end of the stream, met a header at every number of `heads`, and left
`content`. -/
structure Ended (heads : List ℕ) (content : List UInt8) (r : Reader) : Prop where
  rest : r.rest = []
  heads : r.heads = heads
  content : r.content = content

theorem loop_ending {r : Reader} {x : EndRecord} {rounds : ℕ} (hrounds : 2 ≤ rounds)
    (hheader : r.responderHeader.length = fcgiHeaderLen) (hrest : r.rest = x.bytes) :
    ∃ r', r.loop rounds = .ok r' ∧ Ended (r.heads ++ [r.position]) r.content r' := by
  obtain ⟨rounds, rfl⟩ := Nat.exists_eq_add_of_le' hrounds
  have hread := Reader.readHeader_of_bytes hrest hheader
  have hend : ∀ r : Reader, Headed x.header x.body r →
      r.readRecord = .ok { r with rest := [], position := r.position + 8 } := fun r hr =>
    Headed.readEnd ⟨hr.header, hr.rest.trans (List.append_nil _).symm⟩
  have hloop : r.loop (rounds + 2) = .ok { r with
      rest := []
      responderHeader := x.header.bytes
      position := r.position + fcgiHeaderLen + 8
      heads := r.heads ++ [r.position] } := by
    rw [Reader.loop, hread, ok_bind]
    dsimp only
    rw [if_pos rfl, hend _ ⟨rfl, rfl⟩, ok_bind, Reader.loop, Reader.readHeader_of_nil rfl]
    rfl
  exact ⟨_, hloop, rfl, rfl, rfl⟩

/-- From a boundary, and with records that fit, every record is read at its boundary; the content
of the last one is what is kept. -/
theorem loop_response {r : Reader} {response : Response} {rounds : ℕ}
    (hfits : ∀ x ∈ response.records, x.Fits) (hrounds : response.segments.length < rounds)
    (hheader : r.responderHeader.length = fcgiHeaderLen) (hrest : r.rest = response.bytes) :
    ∃ r', r.loop rounds = .ok r' ∧
      Ended (r.heads ++ starts r.position response.segments)
        (lastKept r.content response.records) r' := by
  obtain ⟨records, ending⟩ := response
  induction records generalizing r rounds with
  | nil =>
      rw [Response.bytes, Response.segments, List.map_nil, List.nil_append,
        List.flatten_singleton] at hrest
      exact loop_ending hrounds hheader hrest
  | cons x xs ih =>
      obtain ⟨rounds, rfl⟩ :=
        Nat.exists_eq_add_of_le' (Nat.succ_le_of_lt (Nat.zero_lt_of_lt hrounds))
      have hx : x.Fits := hfits x List.mem_cons_self
      have hbytes : r.rest = x.header.bytes ++
          (x.content ++ (x.padding ++ (Response.mk xs ending).bytes)) := by
        rw [hrest]
        simp [Response.bytes, Response.segments, StreamRecord.bytes]
      have hread := Reader.readHeader_of_bytes hbytes hheader
      obtain ⟨printed, hrecord⟩ := Headed.readRecord hx (r := { r with
        rest := _
        responderHeader := x.header.bytes
        position := r.position + fcgiHeaderLen
        heads := r.heads ++ [r.position] }) ⟨rfl, rfl⟩
      rw [Reader.loop, hread, ok_bind]
      dsimp only
      rw [if_pos rfl, hrecord, ok_bind]
      have hnext := ih (r := { r with
        rest := (Response.mk xs ending).bytes
        responderHeader := x.header.bytes
        content := x.kept
        position := r.position + fcgiHeaderLen + x.content.length + x.padding.length
        heads := r.heads ++ [r.position]
        printed := printed }) (length_header_bytes _)
        (fun y hy => hfits y (List.mem_cons_of_mem _ hy)) (Nat.lt_of_succ_lt_succ hrounds) rfl
      obtain ⟨r', hloop, hended⟩ := hnext
      refine ⟨r', hloop, hended.rest, ?_, ?_⟩
      · rw [hended.heads, List.append_assoc]
        simp [Response.segments, starts, StreamRecord.bytes, length_header_bytes, fcgiHeaderLen,
          Nat.add_assoc]
      · rw [hended.content, lastKept, lastKept, List.map_cons, List.getLastD_cons]

/-- Of an answer of at most a thousand bytes no header is read: the memory is returned as it
was. -/
theorem readFromPhp_of_short {header content stream : List UInt8} (h : stream.length ≤ 1000) :
    readFromPhp header content stream = .ok ⟨[], header, content, stream.length, [], []⟩ := by
  have hsize : stream.length ≤ 100000 := Nat.le_trans h (by decide)
  rw [readFromPhp, Reader.read]
  simp only [List.take_of_length_le h, List.drop_eq_nil_of_le h, Nat.zero_add]
  rw [ensure_of _ hsize, ok_bind]
  change Reader.loop (stream.length + 1) ⟨[], header, content, stream.length, [], []⟩ = _
  rw [Reader.loop, Reader.readHeader_of_nil rfl]
  rfl

end Muduo.Net.FastCgi
