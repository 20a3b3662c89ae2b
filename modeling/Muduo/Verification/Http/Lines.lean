import Muduo.Library.Incremental
import Muduo.Net.Http.HttpContext
import Muduo.Verification.Buffer.Layout

/-! The request parser as an incremental decoder of lines. -/

namespace Muduo.Net

open Library

theorem Buffer.Holds.findCRLF {b : Buffer} {content : List UInt8} (h : b.Holds content) :
    b.findCRLF = (search kCRLF content).map (b.peek + ·) := by
  rw [Buffer.findCRLF, h.readable_eq]

namespace HttpContext

/-- `setMethod` passes its assertion on a request that has no method yet. -/
theorem processRequestLine_ok {r : HttpRequest} (h : r.method = .kInvalid) (line : List UInt8) :
    ∃ res, processRequestLine r line = .ok res := by
  unfold processRequestLine
  split
  · exact ⟨_, rfl⟩
  · rw [HttpRequest.setMethod, ensure_of _ h]
    exact ⟨_, rfl⟩

/-- The states between two calls: a fresh request, or one whose line has been read. -/
def Ready (c : HttpContext) : Prop :=
  c.state = .kExpectRequestLine ∧ c.request.method = .kInvalid ∨ c.state = .kExpectHeaders

theorem init_ready : Ready init := .inl ⟨rfl, rfl⟩

/-- What the parser does with a line. A request is recorded, and the parser reset, at the
line that ends its headers. -/
def onLine (c : HttpContext) (n : ℕ) (line : List UInt8) : Progress HttpContext HttpRequest Unit :=
  match c.state with
  | .kExpectRequestLine =>
      match processRequestLine c.request line with
      | .ok (true, r) => .consume n ⟨.kExpectHeaders, r⟩ none
      | .ok (false, r) => .reject { c with request := r } ()
      | .error _ => .more
  | .kExpectHeaders =>
      match splitAt 58 line with
      | (field, some value) =>
          .consume n { c with request := c.request.addHeader field value } none
      | (_, none) => .consume n init (some c.request)
  | _ => .more

theorem onLine_consume {c c' : HttpContext} {n m : ℕ} {line : List UInt8}
    {out : Option HttpRequest} (h : onLine c n line = .consume m c' out) : m = n := by
  unfold onLine at h
  split at h
  · split at h <;> cases h
    rfl
  · split at h <;> cases h <;> rfl
  · cases h

/-- The first complete line, if there is one. -/
def nextLine (c : HttpContext) (bs : List UInt8) : Progress HttpContext HttpRequest Unit :=
  match search Buffer.kCRLF bs with
  | some i => onLine c (i + 2) (bs.take i)
  | none => .more

theorem nextLine_eq {c : HttpContext} {bs : List UInt8} {i : ℕ}
    (h : search Buffer.kCRLF bs = some i) : nextLine c bs = onLine c (i + 2) (bs.take i) := by
  rw [nextLine, h]

theorem nextLine_none {c : HttpContext} {bs : List UInt8} (h : search Buffer.kCRLF bs = none) :
    nextLine c bs = .more := by
  rw [nextLine, h]

theorem kCRLF_ne_nil : Buffer.kCRLF ≠ [] := by decide

/-- A decision was made on a complete line. -/
theorem exists_line_of_nextLine {c : HttpContext} {bs : List UInt8}
    (h : nextLine c bs ≠ .more) : ∃ i, search Buffer.kCRLF bs = some i := by
  cases hs : search Buffer.kCRLF bs with
  | some i => exact ⟨i, rfl⟩
  | none => exact absurd (nextLine_none hs) h

/-- What was taken is a line with its end. -/
theorem exists_line_of_consume {c c' : HttpContext} {bs : List UInt8} {n : ℕ}
    {out : Option HttpRequest} (h : nextLine c bs = .consume n c' out) :
    ∃ i, search Buffer.kCRLF bs = some i ∧ n = i + 2 ∧
      onLine c (i + 2) (bs.take i) = .consume (i + 2) c' out := by
  obtain ⟨i, hi⟩ := exists_line_of_nextLine (by rw [h]; exact nofun)
  rw [nextLine_eq hi] at h
  obtain rfl := onLine_consume h
  exact ⟨i, hi, rfl, h⟩

theorem nextLine_append {c : HttpContext} {bs : List UInt8} (h : nextLine c bs ≠ .more)
    (xs : List UInt8) : nextLine c (bs ++ xs) = nextLine c bs := by
  obtain ⟨i, hi⟩ := exists_line_of_nextLine h
  have hlen := add_length_le_of_search kCRLF_ne_nil hi
  rw [nextLine_eq hi, nextLine_eq (search_append kCRLF_ne_nil hi xs),
    List.take_append_of_le_length (Nat.le_of_add_right_le hlen)]

/-- The parser as a decoder of lines. -/
def decoder : Decoder UInt8 HttpContext HttpRequest Unit where
  next := nextLine
  consume_pos := by
    intro c bs n c' out h
    obtain ⟨i, -, rfl, -⟩ := exists_line_of_consume h
    exact Nat.succ_pos _
  consume_le := by
    intro c bs n c' out h
    obtain ⟨i, hi, rfl, -⟩ := exists_line_of_consume h
    exact add_length_le_of_search kCRLF_ne_nil hi
  consume_take := by
    intro c bs n c' out h
    obtain ⟨i, hi, rfl, hline⟩ := exists_line_of_consume h
    have htake : search Buffer.kCRLF (bs.take (i + 2)) = some i := search_take kCRLF_ne_nil hi
    rw [nextLine_eq htake, List.take_take, Nat.min_eq_left (Nat.le_add_right i 2)]
    exact hline
  consume_append := by
    intro c bs n c' out h xs
    rw [nextLine_append (by rw [h]; exact nofun), h]
  reject_append := by
    intro c bs c' e h xs
    rw [nextLine_append (by rw [h]; exact nofun), h]

/-- Nothing of a request is left when the next one starts. -/
theorem decoder_restarts : decoder.Restarts init := by
  intro c bs n c' w h
  obtain ⟨i, -, -, hline⟩ := exists_line_of_consume h
  unfold onLine at hline
  split at hline
  · split at hline <;> cases hline
  · split at hline <;> cases hline
    rfl
  · cases hline

theorem decoder_next_nil (c : HttpContext) : decoder.next c [] = .more := rfl

/-! ### The loop -/

/-- What one iteration has done with the readable bytes, told from what it returns. -/
inductive LineRead (c : HttpContext) (bs : List UInt8) : Bool × Bool × HttpContext × Buffer → Prop
  | wait {b : Buffer} (h : decoder.next c bs = .more) (hb : b.Holds bs) :
      LineRead c bs (true, false, c, b)
  | line {n : ℕ} {c' : HttpContext} {b : Buffer} (h : decoder.next c bs = .consume n c' none)
      (hready : Ready c') (hb : b.Holds (bs.drop n)) : LineRead c bs (true, true, c', b)
  | last {n : ℕ} {r : HttpRequest} {b : Buffer} (h : decoder.next c bs = .consume n init (some r))
      (hb : b.Holds (bs.drop n)) : LineRead c bs (true, false, ⟨.kGotAll, r⟩, b)
  | bad {c' : HttpContext} {b : Buffer} (h : decoder.next c bs = .reject c' ())
      (hstate : c'.gotAll = false) (hb : b.Holds bs) : LineRead c bs (false, false, c', b)

theorem parseLine_requestLine {r : HttpRequest} {b : Buffer} {bs : List UInt8}
    (hr : r.method = .kInvalid) (hb : b.Holds bs) :
    ∃ res, parseLine ⟨.kExpectRequestLine, r⟩ b = .ok res ∧
      LineRead ⟨.kExpectRequestLine, r⟩ bs res := by
  cases hs : search Buffer.kCRLF bs with
  | none =>
      refine ⟨_, ?_, .wait (nextLine_none hs) hb⟩
      simp only [parseLine, hb.findCRLF, hs, Option.map_none]
  | some i =>
      have hlen := add_length_le_of_search kCRLF_ne_nil hs
      have hline := hb.bytes_eq i (Nat.le_of_add_right_le hlen)
      have hnext := nextLine_eq (c := ⟨.kExpectRequestLine, r⟩) hs
      obtain ⟨⟨ok, r'⟩, hres⟩ := processRequestLine_ok hr (bs.take i)
      simp only [onLine, hres] at hnext
      simp only [parseLine, hb.findCRLF, hs, Option.map_some, hline, hres, ok_bind]
      cases ok with
      | false => exact ⟨_, rfl, .bad hnext rfl hb⟩
      | true =>
          obtain ⟨b', hret, hb'⟩ := hb.retrieveUntil (i + 2) hlen
          rw [← Nat.add_assoc] at hret
          refine ⟨_, ?_, .line hnext (.inr rfl) hb'⟩
          simp only [if_true, hret, Except.mapError, ok_bind]
          rfl

theorem parseLine_header {r : HttpRequest} {b : Buffer} {bs : List UInt8} (hb : b.Holds bs) :
    ∃ res, parseLine ⟨.kExpectHeaders, r⟩ b = .ok res ∧ LineRead ⟨.kExpectHeaders, r⟩ bs res := by
  cases hs : search Buffer.kCRLF bs with
  | none =>
      refine ⟨_, ?_, .wait (nextLine_none hs) hb⟩
      simp only [parseLine, hb.findCRLF, hs, Option.map_none]
  | some i =>
      have hlen := add_length_le_of_search kCRLF_ne_nil hs
      have hline := hb.bytes_eq i (Nat.le_of_add_right_le hlen)
      have hnext := nextLine_eq (c := ⟨.kExpectHeaders, r⟩) hs
      obtain ⟨b', hret, hb'⟩ := hb.retrieveUntil (i + 2) hlen
      rw [← Nat.add_assoc] at hret
      simp only [parseLine, hb.findCRLF, hs, Option.map_some, hline]
      rcases hsplit : splitAt 58 (bs.take i) with ⟨field, value | value⟩
      · simp only [onLine, hsplit] at hnext
        refine ⟨_, ?_, .last hnext hb'⟩
        simp only [hret, Except.mapError, ok_bind]
        rfl
      · simp only [onLine, hsplit] at hnext
        refine ⟨_, ?_, .line hnext (.inr rfl) hb'⟩
        simp only [hret, Except.mapError, ok_bind]
        rfl

theorem parseLine_lineRead {c : HttpContext} {b : Buffer} {bs : List UInt8} (hc : Ready c)
    (hb : b.Holds bs) : ∃ res, parseLine c b = .ok res ∧ LineRead c bs res := by
  rcases c with ⟨state, r⟩
  rcases hc with ⟨hstate, hr⟩ | hstate
  · cases hstate
    exact parseLine_requestLine hr hb
  · cases hstate
    exact parseLine_header hb

/-- What `parseRequest` has done with the readable bytes, told from what it returns. -/
inductive Parsed (c : HttpContext) (bs : List UInt8) : Bool → HttpContext → List UInt8 → Prop
  | wait {c' rest} (h : decoder.DrainsOne c bs none c' rest none) (hready : Ready c') :
      Parsed c bs true c' rest
  | got {r rest} (h : decoder.DrainsOne c bs (some r) init rest none) :
      Parsed c bs true ⟨.kGotAll, r⟩ rest
  | bad {c' rest} (h : decoder.DrainsOne c bs none c' rest (some ()))
      (hstate : c'.gotAll = false) : Parsed c bs false c' rest

theorem Parsed.consume {c c₁ c' : HttpContext} {bs rest : List UInt8} {n : ℕ} {ok : Bool}
    (h : decoder.next c bs = .consume n c₁ none) (ht : Parsed c₁ (bs.drop n) ok c' rest) :
    Parsed c bs ok c' rest := by
  cases ht with
  | wait hd hready => exact .wait (.consume h hd) hready
  | got hd => exact .got (.consume h hd)
  | bad hd hstate => exact .bad (.consume h hd) hstate

/-- The loop returns, since every line it takes shortens the readable bytes. -/
theorem parseLoop_parsed {c : HttpContext} {b : Buffer} {bs : List UInt8} {fuel : ℕ}
    (hc : Ready c) (hb : b.Holds bs) (hfuel : bs.length < fuel) :
    ∃ ok c' b' rest, parseLoop fuel c b = .ok (ok, c', b') ∧ b'.Holds rest ∧
      Parsed c bs ok c' rest := by
  induction fuel generalizing c b bs with
  | zero => exact absurd hfuel (Nat.not_lt_zero _)
  | succ fuel ih =>
      obtain ⟨res, hres, hread⟩ := parseLine_lineRead hc hb
      rw [parseLoop, hres, ok_bind]
      cases hread with
      | wait h hb => exact ⟨_, _, _, _, rfl, hb, .wait (.more h) hc⟩
      | last h hb => exact ⟨_, _, _, _, rfl, hb, .got (.item h)⟩
      | bad h hstate hb => exact ⟨_, _, _, _, rfl, hb, .bad (.reject h) hstate⟩
      | @line n _ _ h hready hb =>
          have hpos := decoder.consume_pos h
          have hle := decoder.consume_le h
          have hshort : (bs.drop n).length < fuel := by
            rw [List.length_drop]
            omega
          obtain ⟨ok, c', b', rest, hloop, hb', hparsed⟩ := ih hready hb hshort
          exact ⟨ok, c', b', rest, hloop, hb', hparsed.consume h⟩

theorem parseRequest_parsed {c : HttpContext} {b : Buffer} {bs : List UInt8} (hc : Ready c)
    (hb : b.Holds bs) : ∃ ok c' b' rest, parseRequest c b = .ok (ok, c', b') ∧ b'.Holds rest ∧
      Parsed c bs ok c' rest := by
  refine parseLoop_parsed hc hb ?_
  rw [hb.readableBytes_eq]
  exact Nat.lt_succ_self _

/-- Nothing is left to do for a waiting parser until more bytes arrive. -/
theorem Ready.not_gotAll {c : HttpContext} (h : Ready c) : c.gotAll = false := by
  rcases h with ⟨h, -⟩ | h <;> simp [gotAll, h]

/-- A request is parsed from its own bytes, whatever follows them. -/
theorem parseRequest_completes {c : HttpContext} {b : Buffer} {bs xs : List UInt8} {r : HttpRequest}
    (hc : Ready c) (h : decoder.Completes c bs r init) (hb : b.Holds (bs ++ xs)) :
    ∃ b', parseRequest c b = .ok (true, ⟨.kGotAll, r⟩, b') ∧ b'.Holds xs := by
  obtain ⟨ok, c', b', rest, hres, hb', hparsed⟩ := parseRequest_parsed hc hb
  cases hparsed with
  | wait hd => cases (hd.det (h.drainsOne xs)).1
  | bad hd => cases (hd.det (h.drainsOne xs)).1
  | got hd =>
      obtain ⟨hr, -, rfl, -⟩ := hd.det (h.drainsOne xs)
      cases hr
      exact ⟨b', hres, hb'⟩

end HttpContext

end Muduo.Net
