import Muduo.Verification.Http.Answering

/-! Requests that are written out are parsed back. -/

namespace Muduo.Net

open Library HttpContext HttpRequest

namespace HttpContext

theorem splitAt_append {c : UInt8} {xs : List UInt8} (h : c ∉ xs) (ys : List UInt8) :
    splitAt c (xs ++ c :: ys) = (xs, some ys) := by
  have hall : ∀ x ∈ xs, decide (x ≠ c) = true := by
    intro x hx
    exact decide_eq_true fun hxc => h (hxc ▸ hx)
  rw [splitAt, List.span_eq_takeWhile_dropWhile, List.takeWhile_append_of_pos hall,
    List.dropWhile_append_of_pos hall]
  simp

theorem splitAt_of_not_mem {c : UInt8} {xs : List UInt8} (h : c ∉ xs) :
    splitAt c xs = (xs, none) := by
  have hall : ∀ x ∈ xs, decide (x ≠ c) = true := by
    intro x hx
    exact decide_eq_true fun hxc => h (hxc ▸ hx)
  rw [splitAt, List.span_eq_takeWhile_dropWhile, List.takeWhile_eq_self_iff.mpr hall,
    List.dropWhile_eq_nil_iff.mpr hall]
  rfl

end HttpContext

/-- Without the blanks around it. -/
def trim (value : List UInt8) : List UInt8 := (value.dropWhile isspace).rdropWhile isspace

def versionText : Version → List UInt8
  | .kHttp10 => ascii "HTTP/1.0"
  | .kHttp11 => ascii "HTTP/1.1"
  | .kUnknown => []

/-- The parts of a request that can be written out so that the parser tells them apart. A
query starts with its question mark. -/
structure RequestParts where
  method : Method
  path : List UInt8
  query : List UInt8
  version : Version
  headers : List (List UInt8 × List UInt8)
  method_known : method ≠ .kInvalid
  path_noSpace : 32 ∉ path
  path_noQuestion : 63 ∉ path
  path_noCRLF : search Buffer.kCRLF path = none
  query_start : query = [] ∨ query.head? = some 63
  query_noSpace : 32 ∉ query
  query_noCRLF : search Buffer.kCRLF query = none
  version_known : version ≠ .kUnknown
  name_noColon : ∀ h ∈ headers, 58 ∉ h.1
  header_noCRLF : ∀ h ∈ headers, search Buffer.kCRLF (h.1 ++ ascii ": " ++ h.2) = none

namespace RequestParts

def methodText (p : RequestParts) : List UInt8 :=
  { HttpRequest.init with method := p.method }.methodString

def requestLine (p : RequestParts) : List UInt8 :=
  p.methodText ++ 32 :: (p.path ++ p.query ++ 32 :: versionText p.version)

def headerLine (h : List UInt8 × List UInt8) : List UInt8 := h.1 ++ ascii ": " ++ h.2

/-- The text of the request. -/
def bytes (p : RequestParts) : List UInt8 :=
  p.requestLine ++ Buffer.kCRLF ++
    ((p.headers.map fun h => headerLine h ++ Buffer.kCRLF).flatten ++ Buffer.kCRLF)

/-- The value of a header: of several with the same name the last. -/
def headerValue (p : RequestParts) (name : List UInt8) : Option (List UInt8) :=
  (p.headers.reverse.find? (·.1 = name)).map (trim ·.2)

variable (p : RequestParts)

/-! ### The request line -/

theorem methodText_noSpace : 32 ∉ p.methodText := by
  unfold methodText methodString
  cases p.method <;> decide

theorem parseMethod_methodText : parseMethod p.methodText = p.method := by
  have hknown := p.method_known
  unfold methodText methodString
  cases hm : p.method
  case kInvalid => exact absurd hm hknown
  all_goals decide

theorem methodText_noCRLF : search Buffer.kCRLF p.methodText = none := by
  unfold methodText methodString
  cases p.method <;> decide

theorem target_noSpace : 32 ∉ p.path ++ p.query := by
  rw [List.mem_append]
  rintro (h | h)
  · exact p.path_noSpace h
  · exact p.query_noSpace h

theorem target_noCRLF : search Buffer.kCRLF (p.path ++ p.query) = none := by
  refine search_pair_append p.path_noCRLF p.query_noCRLF (.inr ?_)
  rcases p.query_start with h | h <;> simp [h]

theorem versionText_noCRLF (v : Version) : search Buffer.kCRLF (32 :: versionText v) = none := by
  cases v <;> decide

theorem requestLine_noCRLF : search Buffer.kCRLF p.requestLine = none := by
  have htail : search Buffer.kCRLF (p.path ++ p.query ++ 32 :: versionText p.version) = none :=
    search_pair_append p.target_noCRLF (versionText_noCRLF _) (.inr (by simp))
  have hspace : search Buffer.kCRLF [32] = none := by decide
  exact search_pair_append p.methodText_noCRLF (search_pair_append hspace htail (.inl (by simp)))
    (.inr (by simp))

/-- The request as it stands when its first line has been read. -/
def parsed : HttpRequest where
  method := p.method
  version := p.version
  path := p.path
  query := p.query
  headers := fun _ => none

theorem processTarget_eq (r : HttpRequest) (hr : r.query = []) :
    processTarget r (p.path ++ p.query) = { r with path := p.path, query := p.query } := by
  unfold processTarget
  cases hq : p.query with
  | nil =>
      rw [List.append_nil, splitAt_of_not_mem p.path_noQuestion]
      simp only [hr]
  | cons x query =>
      have hx : x = 63 := by
        have := p.query_start
        simpa [hq] using this
      rw [hx, splitAt_append p.path_noQuestion]

theorem processVersion_eq (r : HttpRequest) :
    processVersion r (versionText p.version) = (true, { r with version := p.version }) := by
  have hknown := p.version_known
  cases hv : p.version with
  | kUnknown => exact absurd hv hknown
  | kHttp10 => rfl
  | kHttp11 => rfl

theorem setMethod_methodText :
    HttpRequest.init.setMethod p.methodText =
      .ok (true, ⟨p.method, .kUnknown, [], [], fun _ => none⟩) := by
  have hinit : HttpRequest.init.method = .kInvalid := rfl
  rw [setMethod, ensure_of _ hinit, p.parseMethod_methodText, ok_bind,
    decide_eq_true p.method_known]
  rfl

theorem processRequestLine_requestLine :
    processRequestLine .init p.requestLine = .ok (true, p.parsed) := by
  rw [processRequestLine, requestLine, splitAt_append p.methodText_noSpace]
  simp only [p.setMethod_methodText, ok_bind, if_true]
  rw [splitAt_append p.target_noSpace]
  simp only [p.processVersion_eq]
  rw [p.processTarget_eq _ rfl]
  rfl

/-! ### The headers -/

theorem splitAt_headerLine {h : List UInt8 × List UInt8} (hmem : h ∈ p.headers) :
    splitAt 58 (headerLine h) = (h.1, some (32 :: h.2)) := by
  have hline : headerLine h = h.1 ++ 58 :: 32 :: h.2 := by
    rw [headerLine, List.append_assoc]
    rfl
  rw [hline, splitAt_append (p.name_noColon h hmem)]

theorem mem_headerLine (h : List UInt8 × List UInt8) : 58 ∈ headerLine h := by
  have hcolon : 58 ∈ ascii ": " := by decide
  exact List.mem_append_left _ (List.mem_append_right _ hcolon)

/-- What a header does to the map. -/
def setValue (f : List UInt8 → Option (List UInt8)) (h : List UInt8 × List UInt8) :
    List UInt8 → Option (List UInt8) :=
  Function.update f h.1 (some (trim h.2))

/-- Setting values one after the other binds each name to its last value. -/
theorem foldl_setValue (hs : List (List UInt8 × List UInt8))
    (f : List UInt8 → Option (List UInt8)) (name : List UInt8) :
    hs.foldl setValue f name =
      ((hs.reverse.find? (·.1 = name)).map (trim ·.2)).or (f name) := by
  induction hs generalizing f with
  | nil => rfl
  | cons h hs ih =>
      rw [List.foldl_cons, ih, List.reverse_cons, List.find?_append, Option.map_or, Option.or_assoc]
      by_cases hname : h.1 = name
      · simp [setValue, hname]
      · simp [setValue, hname, Function.update_of_ne (Ne.symm hname)]

theorem foldl_addLine (hs : List (List UInt8 × List UInt8))
    (hsplit : ∀ h ∈ hs, splitAt 58 (headerLine h) = (h.1, some (32 :: h.2))) (r : HttpRequest) :
    (hs.map headerLine).foldl WireRequest.addLine r =
      { r with headers := hs.foldl setValue r.headers } := by
  induction hs generalizing r with
  | nil => rfl
  | cons h hs ih =>
      have hadd : WireRequest.addLine r (headerLine h) =
          { r with headers := setValue r.headers h } := by
        rw [WireRequest.addLine, hsplit h List.mem_cons_self]
        rfl
      rw [List.map_cons, List.foldl_cons, hadd, ih fun h hh => hsplit h (List.mem_cons_of_mem _ hh)]
      rfl

/-- The written request is well formed. -/
def wire : WireRequest where
  requestLine := p.requestLine
  headerLines := p.headers.map headerLine
  parsed := p.parsed
  requestLine_noCRLF := p.requestLine_noCRLF
  accepted := p.processRequestLine_requestLine
  headerLines_noCRLF := by
    intro line hline
    obtain ⟨h, hmem, rfl⟩ := List.mem_map.mp hline
    exact p.header_noCRLF h hmem
  headerLines_colon := by
    intro line hline
    obtain ⟨h, -, rfl⟩ := List.mem_map.mp hline
    exact mem_headerLine h

theorem wire_bytes : p.wire.bytes = p.bytes := by
  rw [WireRequest.bytes, WireRequest.headerBytes, bytes, wire, List.map_map]
  rfl

theorem wire_request : p.wire.request = { p.parsed with headers := p.headerValue } := by
  rw [WireRequest.request, wire, foldl_addLine _ fun h hmem => p.splitAt_headerLine hmem]
  refine congrArg (fun f => { p.parsed with headers := f }) (funext fun name => ?_)
  rw [foldl_setValue]
  exact Option.or_none

/-- The parser takes the text of the request and leaves what follows it. -/
theorem parseRequest_bytes {b : Buffer} {trailing : List UInt8}
    (hb : b.Holds (p.bytes ++ trailing)) :
    ∃ b', parseRequest .init b =
      .ok (true, ⟨.kGotAll, { p.parsed with headers := p.headerValue }⟩, b') ∧
      b'.Holds trailing := by
  rw [← p.wire_bytes] at hb
  rw [← p.wire_request]
  exact parseRequest_completes init_ready (completes_request p.wire) hb

/-- A request that is written out and followed by other bytes is parsed back, with the
trimmed last value for each header name, and only the other bytes are left. -/
theorem parseRequest_written (p : RequestParts) (trailing : List UInt8) (b : Buffer)
    (hb : b.Holds (p.bytes ++ trailing)) :
    ∃ c b', parseRequest .init b = .ok (true, c, b') ∧ c.gotAll = true ∧
      c.request.method = p.method ∧ c.request.path = p.path ∧ c.request.query = p.query ∧
      c.request.version = p.version ∧ (∀ name, c.request.headers name = p.headerValue name) ∧
      b'.Holds trailing := by
  obtain ⟨b', hparse, hb'⟩ := p.parseRequest_bytes hb
  exact ⟨_, b', hparse, rfl, rfl, rfl, rfl, rfl, fun _ => rfl, hb'⟩

theorem kGet_known : Method.kGet ≠ .kInvalid := nofun

/-- A header that occurs twice, with blanks around its values. -/
def getTwice : RequestParts where
  method := .kGet
  path := ascii "/a"
  query := ascii "?b=?"
  version := .kHttp10
  headers := [(ascii "Host", ascii " a "), (ascii "Host", ascii "b: \r")]
  method_known := kGet_known
  path_noSpace := by decide
  path_noQuestion := by decide
  path_noCRLF := by decide
  query_start := by decide
  query_noSpace := by decide
  query_noCRLF := by decide
  version_known := by decide
  name_noColon := by decide
  header_noCRLF := by decide

def getTwiceBuffer : Buffer where
  buffer := List.replicate 8 0 ++ (getTwice.bytes ++ ascii "GET")
  readerIndex := 8
  writerIndex := 8 + (getTwice.bytes ++ ascii "GET").length

theorem parseRequest_written_twice :
    ∃ c b', parseRequest .init getTwiceBuffer = .ok (true, c, b') ∧ c.gotAll = true ∧
      c.request.method = .kGet ∧ c.request.path = ascii "/a" ∧ c.request.query = ascii "?b=?" ∧
      c.request.version = .kHttp10 ∧
      (∀ name, c.request.headers name = getTwice.headerValue name) ∧ b'.Holds (ascii "GET") :=
  parseRequest_written getTwice (ascii "GET") getTwiceBuffer
    ⟨⟨by decide +kernel, by decide +kernel, by decide +kernel⟩, by decide +kernel⟩

example : getTwice.headerValue (ascii "Host") = some (ascii "b:") := by decide +kernel

end RequestParts

end Muduo.Net
