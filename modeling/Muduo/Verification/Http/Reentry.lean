import Muduo.Verification.Http.Grammar

/-! In which states the parser is entered again on a connection, also after a request that
was answered with status 400. -/

namespace Muduo.Net

open Library HttpContext HttpRequest

namespace HttpContext

/-! ### Rejected request lines -/

/-- The method that a rejected line has left in the request. -/
theorem method_of_rejected {r r' : HttpRequest} {line : List UInt8} (hr : r.method = .kInvalid)
    (h : processRequestLine r line = .ok (false, r')) :
    r'.method = .kInvalid ∨
      ∃ m after, splitAt 32 line = (m, some after) ∧ parseMethod m ≠ .kInvalid := by
  unfold processRequestLine at h
  split at h
  · cases h
    exact .inl hr
  next m after hsplit =>
    by_cases hm : parseMethod m = .kInvalid
    · rw [setMethod, ensure_of _ hr, hm] at h
      cases h
      exact .inl rfl
    · exact .inr ⟨m, after, hsplit, hm⟩

/-- Only request lines are rejected. -/
theorem of_next_reject {c c' : HttpContext} {bs : List UInt8}
    (h : decoder.next c bs = .reject c' ()) :
    ∃ i r, search Buffer.kCRLF bs = some i ∧ c.state = .kExpectRequestLine ∧
      processRequestLine c.request (bs.take i) = .ok (false, r) ∧
      c' = ⟨.kExpectRequestLine, r⟩ := by
  have h : nextLine c bs = .reject c' () := h
  obtain ⟨i, hi⟩ := exists_line_of_nextLine (by rw [h]; exact nofun)
  rw [nextLine_eq hi, onLine] at h
  split at h
  next hstate =>
    split at h
    · cases h
    next r hr =>
      cases h
      exact ⟨i, r, hi, hstate, hr, by rw [hstate]⟩
    · cases h
  · split at h <;> cases h
  · cases h

theorem ready_of_consume {c c' : HttpContext} {bs : List UInt8} {n : ℕ}
    (h : decoder.next c bs = .consume n c' none) : Ready c' := by
  obtain ⟨i, -, -, hline⟩ := exists_line_of_consume h
  rw [onLine] at hline
  split at hline
  · split at hline <;> cases hline
    exact .inr rfl
  next hstate =>
    split at hline <;> cases hline
    exact .inr hstate
  · cases hline

/-- A parser that stops at an error has read a line with a request that had no method. -/
theorem of_drainsOne_reject {c c' : HttpContext} {bs rest : List UInt8} (hc : Ready c)
    (h : decoder.DrainsOne c bs none c' rest (some ())) :
    ∃ i r r', search Buffer.kCRLF rest = some i ∧ r.method = .kInvalid ∧
      processRequestLine r (rest.take i) = .ok (false, r') ∧ c' = ⟨.kExpectRequestLine, r'⟩ := by
  generalize he : some () = e at h
  generalize (none : Option HttpRequest) = out at h
  induction h with
  | more => cases he
  | item => cases he
  | reject h =>
      cases he
      obtain ⟨i, r', hi, hstate, hr, rfl⟩ := of_next_reject h
      rcases hc with ⟨-, hmethod⟩ | hheaders
      · exact ⟨i, _, r', hi, hmethod, hr, rfl⟩
      · rw [hheaders] at hstate
        cases hstate
  | consume h _ ih => exact ih (ready_of_consume h) he

/-! ### The loop in the two states that read lines -/

/-- The states in which the loop reads lines. -/
def ReadsLines (c : HttpContext) : Prop :=
  c.state = .kExpectRequestLine ∨ c.state = .kExpectHeaders

instance (c : HttpContext) : Decidable c.ReadsLines := inferInstanceAs (Decidable (_ ∨ _))

theorem Ready.readsLines {c : HttpContext} (h : Ready c) : c.ReadsLines :=
  h.imp And.left id

/-- A request that has its method already is not parsed again: the loop waits for a line,
rejects it, or fails the assertion, in its first iteration. -/
theorem parseLoop_of_method {r : HttpRequest} {b : Buffer} (hr : r.method ≠ .kInvalid) (fuel : ℕ) :
    Outcome (fun t => t.2 = (⟨.kExpectRequestLine, r⟩, b)) (· = .setMethod)
      (parseLoop (fuel + 1) ⟨.kExpectRequestLine, r⟩ b) := by
  simp only [parseLoop, parseLine]
  cases b.findCRLF with
  | none => exact .ok rfl
  | some crlf =>
      rcases hsplit : splitAt 32 (b.bytes b.peek crlf) with ⟨m, after | after⟩
      · simp only [processRequestLine, hsplit]
        exact .ok rfl
      · simp only [processRequestLine, hsplit, setMethod, ensure_of_not _ hr]
        exact .error rfl

/-- In the two states that read lines the loop ends, and it does not leave the parser in a
state in which it would not. -/
theorem parseLoop_readsLines {c : HttpContext} {b : Buffer} {fuel : ℕ} (hc : c.ReadsLines)
    (hb : b.Valid) (hfuel : b.readableBytes < fuel) :
    Outcome (fun t => (t.2.1.gotAll = true ∨ t.2.1.ReadsLines) ∧ t.2.2.Valid) (· = .setMethod)
      (parseLoop fuel c b) := by
  by_cases hready : Ready c
  · rw [hb.holds.readableBytes_eq] at hfuel
    obtain ⟨ok, c', b', rest, hloop, hb', hparsed⟩ := parseLoop_parsed hready hb.holds hfuel
    rw [hloop]
    refine .ok ⟨?_, hb'.toValid⟩
    cases hparsed with
    | wait _ hready' => exact .inr hready'.readsLines
    | got => exact .inl rfl
    | bad hd =>
        obtain ⟨_, _, _, -, -, -, rfl⟩ := of_drainsOne_reject hready hd
        exact .inr (.inl rfl)
  · rcases c with ⟨state, r⟩
    rcases hc with hstate | hstate
    · cases hstate
      have hr : r.method ≠ .kInvalid := fun hr => hready (.inl ⟨rfl, hr⟩)
      obtain ⟨n, rfl⟩ := Nat.exists_eq_succ_of_ne_zero (Nat.ne_zero_of_lt hfuel)
      refine (parseLoop_of_method hr n).mono fun t ht => ?_
      rw [ht]
      exact ⟨.inr (.inl rfl), hb⟩
    · exact absurd (.inr hstate) hready

end HttpContext

namespace HttpServer

theorem deliver_upload {s : HttpServer} {f : Fragment} {buf : List UInt8} (hb : s.buffer.Holds buf)
    (hupload : s.isUpload f = true) :
    ∃ b, b.Holds (buf ++ f.data) ∧
      Outcome (· = { s with buffer := b, uploads := s.uploads ++ [peekString b f.memory] })
        (· = .exit) (s.deliver f) := by
  obtain ⟨b, hb', hdeliver, hcontains⟩ := deliver_eq hb f
  refine ⟨b, hb', ?_⟩
  simp only [hdeliver, onMessage, ← hcontains, hupload, if_true]
  by_cases hopens : f.opens = true
  · rw [ensure_of _ hopens]
    exact .ok rfl
  · rw [ensure_of_not _ hopens]
    exact .error rfl

/-! ### The assertion of `setMethod` -/

/-- The first line in the buffer was answered with status 400 although its method is known. -/
def rejectedMethod (s : HttpServer) : Bool :=
  0 < s.badRequests &&
    match (pieces Buffer.kCRLF s.buffer.readable).head? with
    | some line => (splitAt 32 line).2.isSome && parseMethod (splitAt 32 line).1 ≠ .kInvalid
    | none => false

/-- Between two fragments the parser is ready, or it has rejected a line with a known method. -/
structure Standing (s : HttpServer) : Prop where
  valid : s.buffer.Valid
  ready : Ready s.context ∨ s.rejectedMethod = true

theorem init_standing : Standing init := ⟨(Buffer.init_holds _).toValid, .inl init_ready⟩

/-- The state that a rejected line leaves. -/
theorem standing_of_rejected {s : HttpServer} {rest : List UInt8} {i : ℕ} {r r' : HttpRequest}
    (hb : s.buffer.Holds rest) (hbad : 0 < s.badRequests) (hi : search Buffer.kCRLF rest = some i)
    (hr : r.method = .kInvalid) (hline : processRequestLine r (rest.take i) = .ok (false, r'))
    (hcontext : s.context = ⟨.kExpectRequestLine, r'⟩) : Standing s := by
  refine ⟨hb.toValid, ?_⟩
  rcases method_of_rejected hr hline with hmethod | ⟨m, after, hsplit, hmethod⟩
  · rw [hcontext]
    exact .inl (.inl ⟨rfl, hmethod⟩)
  · refine .inr ?_
    rw [rejectedMethod, hb.readable_eq, pieces_of_search kCRLF_ne_nil hi]
    simp [hbad, hsplit, hmethod]

theorem deliver_standing {s : HttpServer} {f : Fragment} (h : Standing s)
    (hmethod : s.rejectedMethod = false) : Outcome Standing (· = .exit) (s.deliver f) := by
  have hready : Ready s.context := h.ready.resolve_right (by simp [hmethod])
  cases hupload : s.isUpload f with
  | true =>
      obtain ⟨b, hb, hout⟩ := deliver_upload h.valid.holds hupload
      refine hout.mono fun s' hs' => ?_
      rw [hs']
      exact ⟨hb.toValid, .inl hready⟩
  | false =>
      obtain ⟨ok, c, b, rest, hb, hparsed, hdeliver⟩ := deliver_parses hready h.valid.holds hupload
      rw [hdeliver]
      cases hparsed with
      | wait _ hready' =>
          rw [hready'.not_gotAll]
          exact .ok ⟨hb.toValid, .inl hready'⟩
      | got => exact .ok ⟨hb.toValid, .inl init_ready⟩
      | bad hd hstate =>
          obtain ⟨i, r, r', hi, hr, hline, rfl⟩ := of_drainsOne_reject hready hd
          exact .ok (standing_of_rejected hb (Nat.succ_pos _) hi hr hline rfl)

/-- No sequence of fragments fails an assertion of the parser, as long as none is handled
behind a line with a known method that was answered with status 400. A run can only end
because the file for uploads cannot be opened. -/
theorem setMethod_asserted (frags : List Fragment)
    (h : LegalRun deliver (fun s _ => s.rejectedMethod = false) init frags) :
    run deliver init frags ≠ .error .setMethod ∧
      ∀ e, run deliver init frags = .error e → e = .exit := by
  have hrun : Outcome Standing (· = .exit) (run deliver init frags) :=
    run_outcome (fun s f hs hl => deliver_standing hs hl) init_standing h
  cases hres : run deliver init frags with
  | ok s => exact ⟨nofun, nofun⟩
  | error e =>
      obtain rfl : e = .exit := hrun.of_eq_error hres
      refine ⟨nofun, fun e he => ?_⟩
      cases he
      rfl

/-- A request in two fragments, and a line with an unknown method, which is answered with
status 400 again and again. -/
theorem setMethod_asserted_unknown :
    let frags := [fragment (getRoot.bytes.take 7) (by decide),
      fragment (getRoot.bytes.drop 7) (by decide), fragment (ascii "HELO a\r\n") (by decide),
      fragment (ascii "GET / HTTP/1.1\r\n") (by decide)]
    (∃ s, run deliver init frags = .ok s ∧ s.requests.length = 1 ∧ s.badRequests = 2) ∧
      run deliver init frags ≠ .error .setMethod ∧
      ∀ e, run deliver init frags = .error e → e = .exit :=
  ⟨by decide +kernel, setMethod_asserted _ (by decide +kernel)⟩

/-- Behind a request line with another version the next fragment fails the assertion. -/
theorem setMethod_fails_again :
    run deliver init [fragment (ascii "GET / HTTP/2.0\r\n") (by decide),
      fragment (ascii "\r\n") (by decide)] = .error .setMethod := by
  refine eq_error_of_outcome ?_
  decide +kernel

/-! ### The states in which the parser is entered -/

theorem deliver_readsLines {s : HttpServer} {f : Fragment} (hb : s.buffer.Valid)
    (hc : s.context.ReadsLines) :
    Outcome (fun s' => s'.buffer.Valid ∧ s'.context.ReadsLines) (fun e => e ≠ .diverges)
      (s.deliver f) := by
  cases hupload : s.isUpload f with
  | true =>
      obtain ⟨b, hb', hout⟩ := deliver_upload hb.holds hupload
      refine hout.imp (fun s' hs' => ?_) fun e he => ?_
      · rw [hs']
        exact ⟨hb'.toValid, hc⟩
      · rw [he]
        decide
  | false =>
      obtain ⟨b, hb', hdeliver, hcontains⟩ := deliver_eq hb.holds f
      have hparse : Outcome _ _ (s.context.parseRequest b) :=
        parseLoop_readsLines hc hb'.toValid (Nat.lt_succ_self b.readableBytes)
      simp only [hdeliver, onMessage, ← hcontains, hupload, Bool.false_eq_true, if_false]
      cases hres : s.context.parseRequest b with
      | error e =>
          obtain rfl := hparse.of_eq_error hres
          exact .error (by decide)
      | ok res =>
          obtain ⟨ok, c, b'⟩ := res
          obtain ⟨hstate, hvalid⟩ := hparse.of_eq_ok hres
          simp only [ok_bind]
          refine .ok ?_
          by_cases hgot : c.gotAll = true
          · simp only [hgot, if_true]
            exact ⟨hvalid, .inl rfl⟩
          · simp only [hgot]
            exact ⟨hvalid, hstate.resolve_left hgot⟩

/-- The loop of the parser ends in the two states that read lines, whatever the buffer
holds, and on a connection it is entered in no other. -/
theorem parser_loop_ends :
    (∀ (c : HttpContext) (b : Buffer), b.Valid → c.ReadsLines →
      ∀ fuel, b.readableBytes < fuel → parseLoop fuel c b ≠ .error .diverges) ∧
    (∀ frags s, run deliver init frags = .ok s → s.context.ReadsLines) ∧
    ∀ frags, run deliver init frags ≠ .error .diverges := by
  have hrun : ∀ frags, Outcome (fun s => s.buffer.Valid ∧ s.context.ReadsLines)
      (fun e => e ≠ .diverges) (run deliver init frags) := by
    intro frags
    refine run_outcome (fun s f hs _ => deliver_readsLines hs.1 hs.2) ?_
      (.of_forall fun _ _ _ => trivial)
    exact ⟨(Buffer.init_holds _).toValid, .inl rfl⟩
  refine ⟨?_, ?_, ?_⟩
  · intro c b hb hc fuel hfuel hdiverges
    have hfault := (parseLoop_readsLines hc hb hfuel).of_eq_error hdiverges
    cases hfault
  · intro frags s hs
    exact ((hrun frags).of_eq_ok hs).2
  · intro frags hdiverges
    exact (hrun frags).of_eq_error hdiverges rfl

theorem parser_loop_ends_waiting :
    (∀ fuel, getRootMoreBuffer.readableBytes < fuel →
      parseLoop fuel .init getRootMoreBuffer ≠ .error .diverges) ∧
    (∃ s, run deliver init cut = .ok s ∧ s.context.ReadsLines) ∧
    run deliver init cut ≠ .error .diverges := by
  have hcut : ∃ s, run deliver init cut = .ok s ∧ True := by decide +kernel
  obtain ⟨s, hs, -⟩ := hcut
  exact ⟨parser_loop_ends.1 _ _ getRootMoreBuffer_holds.toValid (.inl rfl),
    ⟨s, hs, parser_loop_ends.2.1 _ _ hs⟩, parser_loop_ends.2.2 cut⟩

end HttpServer

end Muduo.Net
