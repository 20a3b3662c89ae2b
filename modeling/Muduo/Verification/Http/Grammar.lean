import Muduo.Verification.Http.Answering

/-! Which bytes the parser takes for a request. -/

namespace Muduo.Net

open Library HttpContext

namespace HttpContext

theorem splitAt_snd_eq_none {c : UInt8} {xs : List UInt8} (h : (splitAt c xs).2 = none) :
    c ∉ xs := by
  intro hmem
  obtain ⟨before, after, hsplit⟩ := splitAt_of_mem hmem
  rw [hsplit] at h
  cases h

theorem mem_of_splitAt {c : UInt8} {xs before after : List UInt8}
    (h : splitAt c xs = (before, some after)) : c ∈ xs := by
  rw [splitAt, List.span_eq_takeWhile_dropWhile] at h
  by_contra hmem
  have hd : xs.dropWhile (· ≠ c) = [] := by
    refine List.dropWhile_eq_nil_iff.mpr fun x hx => decide_eq_true ?_
    intro hxc
    exact hmem (hxc ▸ hx)
  rw [hd] at h
  cases congrArg Prod.snd h

/-- The header section of a request, as the parser cuts it from its bytes: lines with a
colon, and the line without one that ends it. -/
structure HeaderSection (bs rest : List UInt8) (headers : List (List UInt8)) (last : List UInt8) :
    Prop where
  bytes_eq : bs = (headers.map (· ++ Buffer.kCRLF)).flatten ++ (last ++ Buffer.kCRLF ++ rest)
  pieces_eq : pieces Buffer.kCRLF bs = headers ++ last :: pieces Buffer.kCRLF rest
  headers_noCRLF : ∀ line ∈ headers, search Buffer.kCRLF line = none
  headers_colon : ∀ line ∈ headers, 58 ∈ line
  last_colon : 58 ∉ last

/-- The line that ends the headers is the first without a colon. -/
theorem HeaderSection.find?_eq {bs rest last : List UInt8} {headers : List (List UInt8)}
    (h : HeaderSection bs rest headers last) :
    (pieces Buffer.kCRLF bs).find? (58 ∉ ·) = some last := by
  have hheaders : headers.find? (58 ∉ ·) = none := by
    simpa using h.headers_colon
  rw [h.pieces_eq, List.find?_append, hheaders, Option.none_or,
    List.find?_cons_of_pos (by simpa using h.last_colon)]

/-- A line with a colon in front of a header section. -/
theorem HeaderSection.cons {bs rest last : List UInt8} {headers : List (List UInt8)} {i : ℕ}
    (hs : search Buffer.kCRLF bs = some i) (hcolon : 58 ∈ bs.take i)
    (h : HeaderSection (bs.drop (i + 2)) rest headers last) :
    HeaderSection bs rest (bs.take i :: headers) last where
  bytes_eq := by
    rw [List.map_cons, List.flatten_cons, List.append_assoc, ← h.bytes_eq, List.append_assoc]
    exact eq_append_of_search hs
  pieces_eq := by
    rw [pieces_of_search kCRLF_ne_nil hs, List.cons_append, ← h.pieces_eq]
    rfl
  headers_noCRLF := List.forall_mem_cons.mpr
    ⟨search_take_eq_none kCRLF_ne_nil hs, h.headers_noCRLF⟩
  headers_colon := List.forall_mem_cons.mpr ⟨hcolon, h.headers_colon⟩
  last_colon := h.last_colon

theorem HeaderSection.end {bs : List UInt8} {i : ℕ} (hs : search Buffer.kCRLF bs = some i)
    (hcolon : 58 ∉ bs.take i) : HeaderSection bs (bs.drop (i + 2)) [] (bs.take i) where
  bytes_eq := by
    rw [List.append_assoc]
    exact eq_append_of_search hs
  pieces_eq := pieces_of_search kCRLF_ne_nil hs
  headers_noCRLF := List.forall_mem_nil _
  headers_colon := List.forall_mem_nil _
  last_colon := hcolon

/-- What the parser takes in the state for headers, up to the end of the request. -/
theorem headerSection_of_drainsOne {c c' : HttpContext} {bs rest : List UInt8} {r : HttpRequest}
    (h : decoder.DrainsOne c bs (some r) c' rest none) (hc : c.state = .kExpectHeaders) :
    ∃ headers last, HeaderSection bs rest headers last ∧
      r = headers.foldl WireRequest.addLine c.request := by
  generalize hout : some r = out at h
  generalize (none : Option Unit) = e at h
  induction h with
  | more => cases hout
  | reject => cases hout
  | @item c bs n c' r h =>
      obtain rfl := Option.some.inj hout
      obtain ⟨i, hi, rfl, hline⟩ := exists_line_of_consume h
      rw [onLine, hc] at hline
      rcases hsplit : splitAt 58 (bs.take i) with ⟨field, value | value⟩
      · simp only [hsplit] at hline
        cases hline
        exact ⟨[], _, .end hi (splitAt_snd_eq_none (by rw [hsplit])), rfl⟩
      · simp only [hsplit] at hline
        cases hline
  | @consume c bs n c₁ out c₂ rest e h _ ih =>
      obtain ⟨i, hi, rfl, hline⟩ := exists_line_of_consume h
      rw [onLine, hc] at hline
      rcases hsplit : splitAt 58 (bs.take i) with ⟨field, value | value⟩
      · simp only [hsplit] at hline
        cases hline
      · simp only [hsplit] at hline
        cases hline
        obtain ⟨headers, last, hsection, hr⟩ := ih rfl hout
        refine ⟨bs.take i :: headers, last, .cons hi (mem_of_splitAt hsplit) hsection, ?_⟩
        rw [hr, List.foldl_cons, WireRequest.addLine, hsplit]
        rfl

/-- What a fresh parser takes first: an accepted request line. -/
theorem requestLine_of_drainsOne {c' : HttpContext} {bs rest : List UInt8} {r : HttpRequest}
    (h : decoder.DrainsOne init bs (some r) c' rest none) :
    ∃ i parsed, search Buffer.kCRLF bs = some i ∧
      processRequestLine .init (bs.take i) = .ok (true, parsed) ∧
      decoder.DrainsOne ⟨.kExpectHeaders, parsed⟩ (bs.drop (i + 2)) (some r) c' rest none := by
  cases h with
  | item h =>
      obtain ⟨i, hi, rfl, hline⟩ := exists_line_of_consume h
      simp only [onLine, init] at hline
      split at hline <;> cases hline
  | consume h ht =>
      obtain ⟨i, hi, rfl, hline⟩ := exists_line_of_consume h
      simp only [onLine, init] at hline
      split at hline
      next parsed hparsed =>
        cases hline
        exact ⟨i, parsed, hi, hparsed, ht⟩
      all_goals cases hline

/-- The request that the parser completes is made of an accepted request line and of the
header section behind it. -/
theorem sections_of_drainsOne {c' : HttpContext} {bs rest : List UInt8} {r : HttpRequest}
    (h : decoder.DrainsOne init bs (some r) c' rest none) :
    ∃ i parsed headers last, search Buffer.kCRLF bs = some i ∧
      processRequestLine .init (bs.take i) = .ok (true, parsed) ∧
      HeaderSection (bs.drop (i + 2)) rest headers last ∧
      r = headers.foldl WireRequest.addLine parsed := by
  obtain ⟨i, parsed, hi, hparsed, hheaders⟩ := requestLine_of_drainsOne h
  obtain ⟨headers, last, hsection, hr⟩ := headerSection_of_drainsOne hheaders rfl
  exact ⟨i, parsed, headers, last, hi, hparsed, hsection, hr⟩

/-- A line with its end is the first piece. -/
theorem pieces_line {line : List UInt8} (h : search Buffer.kCRLF line = none)
    (rest : List UInt8) :
    pieces Buffer.kCRLF (line ++ Buffer.kCRLF ++ rest) = line :: pieces Buffer.kCRLF rest := by
  have hs : search Buffer.kCRLF (line ++ Buffer.kCRLF ++ rest) = some line.length := by
    rw [List.append_assoc]
    exact search_pair (by decide) h rest
  have hlength : line.length + Buffer.kCRLF.length = (line ++ Buffer.kCRLF).length :=
    List.length_append.symm
  rw [pieces_of_search kCRLF_ne_nil hs, hlength, List.drop_left, List.append_assoc, List.take_left]

theorem pieces_headerBytes {lines : List (List UInt8)}
    (h : ∀ line ∈ lines, search Buffer.kCRLF line = none) (rest : List UInt8) :
    pieces Buffer.kCRLF (WireRequest.headerBytes lines ++ rest) =
      lines ++ [] :: pieces Buffer.kCRLF rest := by
  induction lines with
  | nil => exact @pieces_line [] rfl rest
  | cons line lines ih =>
      obtain ⟨hline, hlines⟩ := List.forall_mem_cons.mp h
      have hcons : WireRequest.headerBytes (line :: lines) ++ rest =
          line ++ Buffer.kCRLF ++ (WireRequest.headerBytes lines ++ rest) := by
        simp [WireRequest.headerBytes]
      rw [hcons, pieces_line hline, ih hlines, List.cons_append]

/-- In the bytes of a well-formed request the first line without a colon behind the request line
is the empty one at its end. -/
theorem find?_wireRequest (w : WireRequest) (rest : List UInt8) :
    ((pieces Buffer.kCRLF (w.bytes ++ rest)).drop 1).find? (58 ∉ ·) = some [] := by
  have hheaders : w.headerLines.find? (58 ∉ ·) = none := by
    simpa using w.headerLines_colon
  rw [WireRequest.bytes, List.append_assoc, pieces_line w.requestLine_noCRLF,
    pieces_headerBytes w.headerLines_noCRLF, List.drop_one, List.tail_cons, List.find?_append,
    hheaders, Option.none_or, List.find?_cons_of_pos (by simp)]

/-- The bytes that the parser takes are those of a well-formed request (an accepted request
line, header lines with a colon each, and an empty line) exactly if the first line without a colon
behind the request line is empty. -/
theorem accepted_wellFormed (s : List UInt8) (b b' : Buffer) (c : HttpContext) (hb : b.Holds s)
    (hparse : parseRequest init b = .ok (true, c, b')) (hgot : c.gotAll = true) :
    (∃ w : WireRequest, s = w.bytes ++ b'.readable ∧ c.request = w.request) ↔
      ∀ line, ((pieces Buffer.kCRLF s).drop 1).find? (58 ∉ ·) = some line → line = [] := by
  constructor
  · rintro ⟨w, hs, -⟩ line hline
    rw [hs, find?_wireRequest] at hline
    exact (Option.some.inj hline).symm
  intro hend
  obtain ⟨ok, c₁, b₁, rest, hres, hb₁, hparsed⟩ := parseRequest_parsed init_ready hb
  cases hparse.symm.trans hres
  cases hparsed with
  | wait _ hready =>
      rw [hready.not_gotAll] at hgot
      cases hgot
  | got hd =>
      obtain ⟨i, parsed, headers, last, hi, haccepted, hsection, hr⟩ := sections_of_drainsOne hd
      have hlast : last = [] := by
        refine hend last ?_
        rw [pieces_of_search kCRLF_ne_nil hi, List.drop_one, List.tail_cons]
        exact hsection.find?_eq
      refine ⟨⟨s.take i, headers, parsed, search_take_eq_none kCRLF_ne_nil hi, haccepted,
        hsection.headers_noCRLF, hsection.headers_colon⟩, ?_, hr⟩
      have hbytes := hsection.bytes_eq
      rw [hlast, List.nil_append, ← List.append_assoc] at hbytes
      rw [hb₁.readable_eq, WireRequest.bytes, WireRequest.headerBytes, List.append_assoc,
        ← hbytes, List.append_assoc]
      exact eq_append_of_search hi

/-- `GET / HTTP/1.1`, a header and the first bytes of what follows. -/
def getRootMore : List UInt8 := ascii "GET / HTTP/1.1\r\nHost: a\r\n\r\nGET"

def getRootMoreBuffer : Buffer := ⟨List.replicate 8 0 ++ getRootMore, 8, 8 + getRootMore.length⟩

theorem getRootMoreBuffer_holds : getRootMoreBuffer.Holds getRootMore :=
  ⟨⟨by decide +kernel, by decide +kernel, by decide +kernel⟩, by decide +kernel⟩

theorem accepted_wellFormed_getRoot :
    ∃ c b', parseRequest init getRootMoreBuffer = .ok (true, c, b') ∧ c.gotAll = true ∧
      ∃ w : WireRequest, getRootMore = w.bytes ++ b'.readable ∧ c.request = w.request := by
  have hresult : ∃ t, parseRequest init getRootMoreBuffer = .ok t ∧ t.1 = true ∧
      t.2.1.gotAll = true := by
    decide +kernel
  obtain ⟨⟨ok, c, b'⟩, hparse, rfl, hgot⟩ := hresult
  have hempty : ((pieces Buffer.kCRLF getRootMore).drop 1).find? (58 ∉ ·) = some [] := by
    decide +kernel
  refine ⟨c, b', hparse, hgot,
    (accepted_wellFormed _ _ _ _ getRootMoreBuffer_holds hparse hgot).mpr fun line hline => ?_⟩
  exact (Option.some.inj (hempty.symm.trans hline)).symm

end HttpContext

/-- A well-formed request ends with an empty line. -/
theorem WireRequest.suffix_bytes (w : WireRequest) :
    Buffer.kCRLF ++ Buffer.kCRLF <:+ w.bytes := by
  rw [bytes, headerBytes]
  rcases List.eq_nil_or_concat w.headerLines with hnil | ⟨lines, line, hlines⟩
  · rw [hnil, List.append_assoc]
    exact List.suffix_append _ _
  · rw [hlines, List.concat_eq_append, List.map_append, List.flatten_append,
      List.map_singleton, List.flatten_singleton]
    simp only [← List.append_assoc]
    rw [List.append_assoc]
    exact List.suffix_append _ _

namespace HttpContext

/-- A line without a colon ends the headers although it is not empty. -/
theorem nonempty_line_ends_headers :
    ∃ b, (Buffer.init Buffer.kInitialSize).append (ascii "GET / HTTP/1.1\r\nfoo\r\n") = .ok b ∧
      ∃ t, parseRequest init b = .ok t ∧ t.1 = true ∧ t.2.1.gotAll = true ∧
        ¬ ∃ w : WireRequest, b.readable = w.bytes ++ t.2.2.readable := by
  have hresult : ∃ b, (Buffer.init Buffer.kInitialSize).append
      (ascii "GET / HTTP/1.1\r\nfoo\r\n") = .ok b ∧
      ∃ t, parseRequest init b = .ok t ∧ t.1 = true ∧ t.2.1.gotAll = true ∧
        t.2.2.readable = [] ∧ ¬ Buffer.kCRLF ++ Buffer.kCRLF <:+ b.readable := by
    decide +kernel
  obtain ⟨b, hb, t, ht, hok, hgot, hrest, hsuffix⟩ := hresult
  refine ⟨b, hb, t, ht, hok, hgot, ?_⟩
  rintro ⟨w, hw⟩
  rw [hrest, List.append_nil] at hw
  exact hsuffix (hw ▸ w.suffix_bytes)

end HttpContext

end Muduo.Net
