import Muduo.Library.Schedule
import Muduo.Net.Http.HttpServer
import Muduo.Verification.Http.Lines

/-! The requests that the server answers on one connection. -/

namespace Muduo.Net

open Library HttpContext

/-! ### Requests on the wire -/

/-- A well-formed request: its lines without their line ends, and what the parser makes
of the first. -/
structure WireRequest where
  requestLine : List UInt8
  headerLines : List (List UInt8)
  parsed : HttpRequest
  requestLine_noCRLF : search Buffer.kCRLF requestLine = none
  accepted : processRequestLine .init requestLine = .ok (true, parsed)
  headerLines_noCRLF : ∀ line ∈ headerLines, search Buffer.kCRLF line = none
  headerLines_colon : ∀ line ∈ headerLines, 58 ∈ line

namespace WireRequest

def headerBytes (lines : List (List UInt8)) : List UInt8 :=
  (lines.map (· ++ Buffer.kCRLF)).flatten ++ Buffer.kCRLF

def bytes (w : WireRequest) : List UInt8 :=
  w.requestLine ++ Buffer.kCRLF ++ headerBytes w.headerLines

/-- The header that a line with a colon adds. -/
def addLine (r : HttpRequest) (line : List UInt8) : HttpRequest :=
  r.addHeader (splitAt 58 line).1 ((splitAt 58 line).2.getD [])

def request (w : WireRequest) : HttpRequest := w.headerLines.foldl addLine w.parsed

end WireRequest

namespace HttpContext

theorem splitAt_of_mem {c : UInt8} {xs : List UInt8} (h : c ∈ xs) :
    ∃ before after, splitAt c xs = (before, some after) := by
  rw [splitAt, List.span_eq_takeWhile_dropWhile]
  cases hd : xs.dropWhile (· ≠ c) with
  | nil =>
      have := List.dropWhile_eq_nil_iff.mp hd c h
      simp at this
  | cons y ys => exact ⟨_, ys, rfl⟩

/-- A line is read when its end is there. -/
theorem decoder_next_line {c : HttpContext} {line : List UInt8}
    (h : search Buffer.kCRLF line = none) :
    decoder.next c (line ++ Buffer.kCRLF) = onLine c (line ++ Buffer.kCRLF).length line := by
  have hs : search Buffer.kCRLF (line ++ Buffer.kCRLF) = some line.length :=
    search_pair (by decide) h []
  have hnext := nextLine_eq (c := c) hs
  rw [List.take_left] at hnext
  rw [List.length_append]
  exact hnext

theorem completes_headers (lines : List (List UInt8)) (r : HttpRequest)
    (hcrlf : ∀ line ∈ lines, search Buffer.kCRLF line = none) (hcolon : ∀ line ∈ lines, 58 ∈ line) :
    decoder.Completes ⟨.kExpectHeaders, r⟩ (WireRequest.headerBytes lines)
      (lines.foldl WireRequest.addLine r) init := by
  induction lines generalizing r with
  | nil => exact .item (@decoder_next_line ⟨.kExpectHeaders, r⟩ [] rfl)
  | cons line lines ih =>
      obtain ⟨field, value, hsplit⟩ := splitAt_of_mem (hcolon line List.mem_cons_self)
      have hnext := decoder_next_line (c := ⟨.kExpectHeaders, r⟩) (hcrlf line List.mem_cons_self)
      simp only [onLine, hsplit] at hnext
      have hadd : WireRequest.addLine r line = r.addHeader field value := by
        rw [WireRequest.addLine, hsplit]
        rfl
      rw [WireRequest.headerBytes, List.map_cons, List.flatten_cons, List.append_assoc,
        List.foldl_cons, hadd]
      exact .consume hnext (ih _ (fun l hl => hcrlf l (List.mem_cons_of_mem _ hl))
        (fun l hl => hcolon l (List.mem_cons_of_mem _ hl)))

/-- The parser reads a well-formed request from its bytes. -/
theorem completes_request (w : WireRequest) : decoder.Completes init w.bytes w.request init := by
  have hnext := decoder_next_line (c := init) w.requestLine_noCRLF
  simp only [onLine, init, w.accepted] at hnext
  exact .consume hnext (completes_headers _ _ w.headerLines_noCRLF w.headerLines_colon)

end HttpContext

namespace HttpServer

/-- The call for this fragment takes the branch for uploads. -/
def isUpload (s : HttpServer) (f : Fragment) : Bool :=
  match s.buffer.readFd (.ok f.data) with
  | .ok (_, b) => contains (peekString b f.memory) (ascii "shidu")
  | .error _ => false

/-- A fragment is appended to the input buffer, and `onMessage` is called. -/
theorem deliver_eq {s : HttpServer} {buf : List UInt8} (hb : s.buffer.Holds buf) (f : Fragment) :
    ∃ b, b.Holds (buf ++ f.data) ∧
      s.deliver f = { s with buffer := b }.onMessage f.memory f.opens ∧
      s.isUpload f = contains (peekString b f.memory) (ascii "shidu") := by
  obtain ⟨b, hread, hb'⟩ := hb.readFd_ok f.data
  refine ⟨b, hb', ?_, ?_⟩
  · rw [deliver, hread]
    rfl
  · rw [isUpload, hread]

/-- A call that is not for an upload is a call of the parser. -/
theorem deliver_parses {s : HttpServer} {f : Fragment} {buf : List UInt8}
    (hready : Ready s.context) (hb : s.buffer.Holds buf) (hplain : s.isUpload f = false) :
    ∃ ok c b rest, b.Holds rest ∧ Parsed s.context (buf ++ f.data) ok c rest ∧
      s.deliver f = .ok (if c.gotAll then
        { s with
          context := .init
          buffer := b
          requests := s.requests ++ [c.request]
          badRequests := if ok then s.badRequests else s.badRequests + 1 }
      else
        { s with
          context := c
          buffer := b
          badRequests := if ok then s.badRequests else s.badRequests + 1 }) := by
  obtain ⟨b₁, hb₁, hdeliver, hupload⟩ := deliver_eq hb f
  rw [hplain] at hupload
  obtain ⟨ok, c, b, rest, hparse, hb', hparsed⟩ := parseRequest_parsed hready hb₁
  refine ⟨ok, c, b, rest, hb', hparsed, ?_⟩
  simp only [hdeliver, onMessage, ← hupload, Bool.false_eq_true, if_false, hparse, ok_bind]
  rfl

/-- The first request in the buffer is answered when its bytes are there. -/
theorem deliver_completes {s : HttpServer} {f : Fragment} {buf seg rest : List UInt8}
    {r : HttpRequest} (hready : Ready s.context) (hb : s.buffer.Holds buf)
    (hplain : s.isUpload f = false) (hseg : decoder.Completes s.context seg r .init)
    (hbytes : buf ++ f.data = seg ++ rest) :
    ∃ b, b.Holds rest ∧ s.deliver f = .ok { s with
      context := .init
      buffer := b
      requests := s.requests ++ [r] } := by
  obtain ⟨ok, c, b, rest', hb', hparsed, hdeliver⟩ := deliver_parses hready hb hplain
  rw [hbytes] at hparsed
  cases hparsed with
  | wait hd => cases (hd.det (hseg.drainsOne rest)).1
  | bad hd => cases (hd.det (hseg.drainsOne rest)).1
  | got hd =>
      obtain ⟨hr, -, rfl, -⟩ := hd.det (hseg.drainsOne rest)
      cases hr
      exact ⟨b, hb', hdeliver⟩

/-- A request whose bytes are not all there is waited for. -/
theorem deliver_waits {s : HttpServer} {f : Fragment} {buf seg missing : List UInt8}
    {r : HttpRequest} (hready : Ready s.context) (hb : s.buffer.Holds buf)
    (hplain : s.isUpload f = false) (hseg : decoder.Completes s.context seg r .init)
    (hbytes : seg = buf ++ f.data ++ missing) (hmissing : missing ≠ []) :
    ∃ c b rest, Ready c ∧ b.Holds rest ∧ rest <:+ buf ++ f.data ∧
      decoder.Completes c (rest ++ missing) r .init ∧
      s.deliver f = .ok { s with context := c, buffer := b } := by
  obtain ⟨ok, c, b, rest, hb', hparsed, hdeliver⟩ := deliver_parses hready hb hplain
  obtain ⟨c₁, rest₁, hdrains, hcompletes⟩ := hseg.waits hbytes hmissing
  cases hparsed with
  | got hd => cases (hd.det hdrains).1
  | bad hd => cases (hd.det hdrains).2.2.2
  | wait hd hc =>
      obtain ⟨-, rfl, rfl, -⟩ := hd.det hdrains
      rw [hc.not_gotAll] at hdeliver
      exact ⟨c, b, rest, hc, hb', hd.suffix, hcompletes, hdeliver⟩

/-- With enough calls behind their ends, the requests that are still to come are all
answered. The first of them may be under way; `pos` is the offset of the first byte that
the parser has not taken. -/
theorem run_answers {frags : List Fragment} {s : HttpServer} {buf : List UInt8} {pos : ℕ}
    {segs : List (List UInt8)} {reqs : List HttpRequest}
    (hready : Ready s.context) (hb : s.buffer.Holds buf)
    (hawaits : decoder.Awaits .init s.context segs reqs)
    (hbytes : buf ++ (frags.map (·.data)).flatten = segs.flatten)
    (henough : Enough (offsets pos segs) (offsets (pos + buf.length) (frags.map (·.data))))
    (hplain : LegalRun deliver (fun s f => s.isUpload f = false) s frags) :
    ∃ s', run deliver s frags = .ok s' ∧ s'.requests = s.requests ++ reqs ∧
      s'.badRequests = s.badRequests := by
  induction frags generalizing s buf pos segs reqs with
  | nil =>
      cases hawaits with
      | nil => exact ⟨s, rfl, (List.append_nil _).symm, rfl⟩
      | cons => exact absurd henough not_enough_nil
  | cons f frags ih =>
      rw [List.map_cons, List.flatten_cons, ← List.append_assoc] at hbytes
      cases hawaits with
      | nil =>
          have hnil := (List.append_eq_nil_iff.mp hbytes).1
          exact absurd (List.append_eq_nil_iff.mp hnil).2 f.nonempty
      | @cons _ seg r segs reqs hseg hrest =>
          rw [List.flatten_cons] at hbytes
          rcases append_eq_append_cases hbytes with
            ⟨rest, hnow, htail⟩ | ⟨missing, hmissing, hnow, htail⟩
          · obtain ⟨b, hb', hstep⟩ := deliver_completes hready hb hplain.1 hseg hnow
            have hpos : pos + buf.length + f.data.length = pos + seg.length + rest.length := by
              have := congrArg List.length hnow
              simp only [List.length_append] at this
              omega
            have hleft := henough.serve fun c hc => le_of_mem_offsets hc
            rw [hpos] at hleft
            obtain ⟨s', hrun, hrequests, hbad⟩ :=
              ih init_ready hb' hrest htail.symm hleft (hplain.2 _ hstep)
            refine ⟨s', (run_cons_of_ok hstep _).trans hrun, ?_, hbad⟩
            rw [hrequests, List.append_assoc]
            rfl
          · obtain ⟨c, b, rest, hc, hb', ⟨taken, htaken⟩, hseg', hstep⟩ :=
              deliver_waits hready hb hplain.1 hseg hnow hmissing
            have htaken : taken.length + rest.length = buf.length + f.data.length := by
              simpa only [List.length_append] using congrArg List.length htaken
            have hlen : seg.length = buf.length + f.data.length + missing.length := by
              simpa only [List.length_append] using congrArg List.length hnow
            have hpos : pos + buf.length + f.data.length = pos + taken.length + rest.length := by
              omega
            have hend : pos + seg.length = pos + taken.length + (rest ++ missing).length := by
              rw [List.length_append]
              omega
            have hshort := List.length_pos_iff.mpr hmissing
            have hleft := henough.wait
              (show pos + buf.length + f.data.length < pos + seg.length by omega)
            rw [offsets, hpos, hend] at hleft
            have hbytes' : rest ++ (frags.map (·.data)).flatten =
                ((rest ++ missing) :: segs).flatten := by
              rw [htail, List.flatten_cons, List.append_assoc]
            obtain ⟨s', hrun, hrequests, hbad⟩ :=
              ih hc hb' (.cons hseg' hrest) hbytes' hleft (hplain.2 _ hstep)
            exact ⟨s', (run_cons_of_ok hstep _).trans hrun, hrequests, hbad⟩

theorem awaits_requests (ws : List WireRequest) :
    decoder.Awaits .init .init (ws.map (·.bytes)) (ws.map (·.request)) := by
  induction ws with
  | nil => exact .nil
  | cons w ws ih => exact .cons (completes_request w) ih

/-- Every request on a connection is answered once, in order and with its own contents,
when no call is for an upload and the calls suffice: each call answers at most one
request, so from the call that brings its last byte on there has to be one call for a
request and one for each of those behind it. -/
theorem answers_every_request (ws : List WireRequest) (frags : List Fragment)
    (hbytes : (frags.map (·.data)).flatten = (ws.map (·.bytes)).flatten)
    (hplain : LegalRun deliver (fun s f => s.isUpload f = false) init frags)
    (henough : Enough (offsets 0 (ws.map (·.bytes))) (offsets 0 (frags.map (·.data)))) :
    ∃ s, run deliver init frags = .ok s ∧ s.requests = ws.map (·.request) ∧ s.badRequests = 0 :=
  run_answers init_ready (Buffer.init_holds _) (awaits_requests ws) hbytes henough hplain

/-- `GET / HTTP/1.1`, with a header. -/
def getRoot : WireRequest where
  requestLine := ascii "GET / HTTP/1.1"
  headerLines := [ascii "Host: a"]
  parsed := { HttpRequest.init with method := .kGet, version := .kHttp11, path := ascii "/" }
  requestLine_noCRLF := by decide
  accepted := by rfl
  headerLines_noCRLF := by decide
  headerLines_colon := by decide

/-- `GET /shidu HTTP/1.1`, which has the text that the server takes for an upload. -/
def getShidu : WireRequest where
  requestLine := ascii "GET /shidu HTTP/1.1"
  headerLines := []
  parsed := { HttpRequest.init with method := .kGet, version := .kHttp11, path := ascii "/shidu" }
  requestLine_noCRLF := by decide
  accepted := by rfl
  headerLines_noCRLF := by decide
  headerLines_colon := by decide

/-- A fragment with zero bytes in the memory behind the buffer. -/
def fragment (data : List UInt8) (h : data ≠ []) : Fragment := ⟨data, h, [0], true⟩

/-- Two requests, cut within the first and within the line end of the second. -/
def cut : List Fragment :=
  [fragment (getRoot.bytes.take 7) (by decide),
    fragment (getRoot.bytes.drop 7 ++ getRoot.bytes.take 15) (by decide),
    fragment (getRoot.bytes.drop 15) (by decide)]

theorem answers_every_request_cut :
    ∃ s, run deliver init cut = .ok s ∧ s.requests = [getRoot.request, getRoot.request] ∧
      s.badRequests = 0 :=
  answers_every_request [getRoot, getRoot] cut (by decide +kernel) (by decide +kernel)
    (by decide +kernel)

/-- A request that looks like an upload is not answered, and of two requests in one
fragment only the first is. -/
theorem request_not_answered :
    (∃ s, run deliver init [fragment getShidu.bytes (by decide)] = .ok s ∧
      s.requests.length = 0 ∧ s.uploads = [getShidu.bytes]) ∧
    ∃ s, run deliver init [fragment (getRoot.bytes ++ getRoot.bytes) (by decide)] = .ok s ∧
      s.requests.length = 1 := by
  constructor <;> decide +kernel

end HttpServer

end Muduo.Net
