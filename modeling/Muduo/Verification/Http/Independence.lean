import Muduo.Library.Agree
import Muduo.Net.Http.HttpServer
import Muduo.Verification.Buffer.Refinement
import Muduo.Verification.Http.Lines

/-! What `onMessage` does, in two connections whose buffers hold the same readable bytes
and differ in the rest of their storage. -/

namespace Muduo.Net

open Library HttpContext

/-- Two buffers with the same readable bytes. -/
def Buffer.SameBytes (b b' : Buffer) : Prop := ∃ bs, b.Holds bs ∧ b'.Holds bs

namespace HttpContext

variable {b b' : Buffer}

theorem retrieveUntil_sameBytes {bs : List UInt8} {n : ℕ} (hb : b.Holds bs) (hb' : b'.Holds bs)
    (hn : n ≤ bs.length) :
    Agree Buffer.SameBytes Eq ((b.retrieveUntil (b.peek + n)).mapError HttpFault.buffer)
      ((b'.retrieveUntil (b'.peek + n)).mapError HttpFault.buffer) := by
  obtain ⟨d, hd, hh⟩ := hb.retrieveUntil n hn
  obtain ⟨d', hd', hh'⟩ := hb'.retrieveUntil n hn
  rw [hd, hd']
  exact .ok ⟨_, hh, hh'⟩

/-- What `parseLine` and `parseLoop` return next to the buffer is the same. -/
def SameResult {α : Type} (p q : α × Buffer) : Prop := p.1 = q.1 ∧ p.2.SameBytes q.2

/-- The result of an iteration, with the buffer apart. -/
def lineResult (r : Bool × Bool × HttpContext × Buffer) : (Bool × Bool × HttpContext) × Buffer :=
  ((r.1, r.2.1, r.2.2.1), r.2.2.2)

theorem parseLine_agree (c : HttpContext) (h : b.SameBytes b') :
    Agree (fun p q => SameResult (lineResult p) (lineResult q)) Eq (c.parseLine b)
      (c.parseLine b') := by
  obtain ⟨bs, hb, hb'⟩ := h
  unfold parseLine
  split
  · rw [hb.findCRLF, hb'.findCRLF]
    cases hs : search Buffer.kCRLF bs with
    | none => exact .ok ⟨rfl, bs, hb, hb'⟩
    | some i =>
        have hlen := add_length_le_of_search kCRLF_ne_nil hs
        have hline := Nat.le_of_add_right_le hlen
        simp only [Option.map_some, hb.bytes_eq i hline, hb'.bytes_eq i hline, Nat.add_assoc]
        cases processRequestLine c.request (bs.take i) with
        | error e => exact .error rfl
        | ok res =>
            obtain ⟨ok, r⟩ := res
            cases ok with
            | false => exact .ok ⟨rfl, bs, hb, hb'⟩
            | true =>
                exact (retrieveUntil_sameBytes hb hb' hlen).bind fun d d' hd => .ok ⟨rfl, hd⟩
  · rw [hb.findCRLF, hb'.findCRLF]
    cases hs : search Buffer.kCRLF bs with
    | none => exact .ok ⟨rfl, bs, hb, hb'⟩
    | some i =>
        have hlen := add_length_le_of_search kCRLF_ne_nil hs
        have hline := Nat.le_of_add_right_le hlen
        simp only [Option.map_some, hb.bytes_eq i hline, hb'.bytes_eq i hline, Nat.add_assoc]
        exact (retrieveUntil_sameBytes hb hb' hlen).bind fun d d' hd => .ok ⟨rfl, hd⟩
  · exact .ok ⟨rfl, bs, hb, hb'⟩
  · exact .ok ⟨rfl, bs, hb, hb'⟩

/-- The result of the loop, with the buffer apart. -/
def loopResult (r : Bool × HttpContext × Buffer) : (Bool × HttpContext) × Buffer :=
  ((r.1, r.2.1), r.2.2)

theorem parseLoop_agree (fuel : ℕ) (c : HttpContext) (h : b.SameBytes b') :
    Agree (fun p q => SameResult (loopResult p) (loopResult q)) Eq (parseLoop fuel c b)
      (parseLoop fuel c b') := by
  induction fuel generalizing c b b' with
  | zero => exact .error rfl
  | succ fuel ih =>
      refine (parseLine_agree c h).bind ?_
      rintro ⟨ok, hasMore, c', d⟩ ⟨ok', hasMore', c'', d'⟩ ⟨hres, hd⟩
      obtain ⟨rfl, rfl, rfl⟩ : ok = ok' ∧ hasMore = hasMore' ∧ c' = c'' := by
        simpa [lineResult] using hres
      cases hasMore with
      | false => exact .ok ⟨rfl, hd⟩
      | true => exact ih c' hd

theorem parseRequest_agree (c : HttpContext) (h : b.SameBytes b') :
    Agree (fun p q => SameResult (loopResult p) (loopResult q)) Eq (c.parseRequest b)
      (c.parseRequest b') := by
  have hlen : b.readableBytes = b'.readableBytes := by
    obtain ⟨bs, hb, hb'⟩ := h
    rw [hb.readableBytes_eq, hb'.readableBytes_eq]
  unfold parseRequest
  rw [hlen]
  exact parseLoop_agree _ c h

/-! ### Faults of the parser -/

/-- The parser does not end the process. -/
def Returns {α : Type} : Except HttpFault α → Prop := Outcome (fun _ => True) (· ≠ .exit)

theorem retrieveUntil_returns (b : Buffer) (last : ℕ) :
    Returns ((b.retrieveUntil last).mapError HttpFault.buffer) := by
  cases b.retrieveUntil last with
  | ok d => exact .ok trivial
  | error fault => exact .error nofun

theorem processRequestLine_returns (r : HttpRequest) (line : List UInt8) :
    Returns (processRequestLine r line) := by
  have hmethod : ∀ m, Returns (r.setMethod m) := by
    intro m
    unfold HttpRequest.setMethod
    by_cases h : r.method = .kInvalid
    · rw [ensure_of _ h]
      exact .ok trivial
    · rw [ensure_of_not _ h]
      exact .error nofun
  unfold processRequestLine
  split
  · exact .ok trivial
  · exact (hmethod _).bind fun _ _ => .ok trivial

theorem parseLine_returns (c : HttpContext) (b : Buffer) : Returns (c.parseLine b) := by
  unfold parseLine
  split
  · split
    · refine (processRequestLine_returns _ _).bind fun res _ => ?_
      dsimp only
      split
      · exact (retrieveUntil_returns _ _).bind fun _ _ => .ok trivial
      · exact .ok trivial
    · exact .ok trivial
  · split
    · exact (retrieveUntil_returns _ _).bind fun _ _ => .ok trivial
    · exact .ok trivial
  · exact .ok trivial
  · exact .ok trivial

theorem parseLoop_returns (fuel : ℕ) (c : HttpContext) (b : Buffer) :
    Returns (parseLoop fuel c b) := by
  induction fuel generalizing c b with
  | zero => exact .error nofun
  | succ fuel ih =>
      refine (parseLine_returns c b).bind fun res _ => ?_
      dsimp only
      split
      · exact ih _ _
      · exact .ok trivial

theorem parseRequest_returns (c : HttpContext) (b : Buffer) : Returns (c.parseRequest b) :=
  parseLoop_returns _ c b

end HttpContext

namespace HttpServer

/-- The C strings at `peek()` both have the word that `onMessage` looks for or both do not, and
where they have it and are written to the file, they are the same. -/
def SameView (s t : HttpServer) (memory memory' : List UInt8) (opens : Bool) : Prop :=
  contains (peekString s.buffer memory) (ascii "shidu") =
      contains (peekString t.buffer memory') (ascii "shidu") ∧
    (contains (peekString s.buffer memory) (ascii "shidu") = true → opens = true →
      peekString s.buffer memory = peekString t.buffer memory')

instance (s t : HttpServer) (memory memory' : List UInt8) (opens : Bool) :
    Decidable (SameView s t memory memory' opens) :=
  inferInstanceAs (Decidable (_ = _ ∧ (_ → _ → _)))

/-- From `s` and `t` two calls came to `s'` and `t'`: they leave the same parser and the
same readable bytes, and they have answered the same requests, sent as many `400`s and
written the same texts. -/
structure SameAnswer (s t s' t' : HttpServer) : Prop where
  context : s'.context = t'.context
  buffer : s'.buffer.SameBytes t'.buffer
  requests : ∃ rs, s'.requests = s.requests ++ rs ∧ t'.requests = t.requests ++ rs
  badRequests : ∃ n, s'.badRequests = s.badRequests + n ∧ t'.badRequests = t.badRequests + n
  uploads : ∃ texts, s'.uploads = s.uploads ++ texts ∧ t'.uploads = t.uploads ++ texts

/-! ### The two branches of `onMessage` -/

theorem onMessage_upload {s : HttpServer} {memory : List UInt8}
    (h : contains (peekString s.buffer memory) (ascii "shidu") = true) (opens : Bool) :
    s.onMessage memory opens =
      if opens then .ok { s with uploads := s.uploads ++ [peekString s.buffer memory] }
      else .error .exit := by
  rw [onMessage, if_pos h]
  cases opens <;> rfl

/-- In the branch for requests nothing is written. -/
theorem onMessage_parses {s : HttpServer} {memory : List UInt8}
    (h : contains (peekString s.buffer memory) (ascii "shidu") = false) (opens : Bool) :
    Outcome (fun s' => s'.uploads = s.uploads) (· ≠ .exit) (s.onMessage memory opens) := by
  rw [onMessage, if_neg (Bool.eq_false_iff.mp h)]
  refine (parseRequest_returns s.context s.buffer).bind fun res _ => .ok ?_
  dsimp only
  split <;> rfl

/-- An upload and a request have different effects. -/
theorem not_agree_of_upload {s t : HttpServer} {memory memory' : List UInt8}
    (hs : contains (peekString s.buffer memory) (ascii "shidu") = true)
    (ht : contains (peekString t.buffer memory') (ascii "shidu") = false) {opens : Bool}
    {s' t' : Except HttpFault HttpServer} (hs' : s.onMessage memory opens = s')
    (ht' : t.onMessage memory' opens = t') :
    ¬ Agree (SameAnswer s t) Eq s' t' ∧ ¬ Agree (SameAnswer t s) Eq t' s' := by
  have hparses := onMessage_parses ht opens
  rw [onMessage_upload hs] at hs'
  rw [ht'] at hparses
  subst hs'
  cases opens with
  | true =>
      cases hparses with
      | ok hsame =>
          have hno : ∀ texts, s.uploads ++ [peekString s.buffer memory] = s.uploads ++ texts →
              t.uploads = t.uploads ++ texts → False := by
            intro texts hup hkeep
            rw [List.append_right_inj] at hup
            rw [← hup] at hkeep
            exact absurd (congrArg List.length hkeep) (by simp)
          constructor
          · intro h
            obtain ⟨texts, hup, hkeep⟩ := (agree_ok.mp h).uploads
            exact hno texts hup (hsame ▸ hkeep)
          · intro h
            obtain ⟨texts, hkeep, hup⟩ := (agree_ok.mp h).uploads
            exact hno texts hup (hsame ▸ hkeep)
      | error _ => exact ⟨nofun, nofun⟩
  | false =>
      cases hparses with
      | ok _ => exact ⟨nofun, nofun⟩
      | error hne =>
          constructor
          · rintro (_ | heq)
            exact hne heq.symm
          · rintro (_ | heq)
            exact hne heq

/-- Two uploads. -/
theorem agree_uploads_iff {s t : HttpServer} (hcontext : s.context = t.context)
    (hbytes : s.buffer.SameBytes t.buffer) {memory memory' : List UInt8}
    (hs : contains (peekString s.buffer memory) (ascii "shidu") = true)
    (ht : contains (peekString t.buffer memory') (ascii "shidu") = true) (opens : Bool) :
    Agree (SameAnswer s t) Eq (s.onMessage memory opens) (t.onMessage memory' opens) ↔
      (opens = true → peekString s.buffer memory = peekString t.buffer memory') := by
  rw [onMessage_upload hs, onMessage_upload ht]
  cases opens with
  | false => simpa using Agree.error rfl
  | true =>
      simp only [if_true, agree_ok, forall_const]
      constructor
      · intro h
        obtain ⟨texts, hs', ht'⟩ := h.uploads
        rw [List.append_right_inj] at hs' ht'
        exact List.singleton_injective (hs'.trans ht'.symm)
      · intro heq
        exact ⟨hcontext, hbytes, ⟨[], by simp⟩, ⟨0, rfl, rfl⟩, ⟨_, rfl, by rw [heq]⟩⟩

/-- Two requests. -/
theorem agree_of_parses {s t : HttpServer} (hcontext : s.context = t.context)
    (hbytes : s.buffer.SameBytes t.buffer) {memory memory' : List UInt8}
    (hs : contains (peekString s.buffer memory) (ascii "shidu") = false)
    (ht : contains (peekString t.buffer memory') (ascii "shidu") = false) (opens : Bool) :
    Agree (SameAnswer s t) Eq (s.onMessage memory opens) (t.onMessage memory' opens) := by
  rw [onMessage, onMessage, if_neg (Bool.eq_false_iff.mp hs),
    if_neg (Bool.eq_false_iff.mp ht), hcontext]
  refine (parseRequest_agree t.context hbytes).bind ?_
  rintro ⟨ok, c, d⟩ ⟨ok', c', d'⟩ ⟨hres, hd⟩
  obtain ⟨rfl, rfl⟩ : ok = ok' ∧ c = c' := by simpa [loopResult] using hres
  have hbad : ∃ n, (if ok then s.badRequests else s.badRequests + 1) = s.badRequests + n ∧
      (if ok then t.badRequests else t.badRequests + 1) = t.badRequests + n := by
    cases ok with
    | false => exact ⟨1, rfl, rfl⟩
    | true => exact ⟨0, rfl, rfl⟩
  refine .ok ?_
  dsimp only
  split
  · exact ⟨rfl, hd, ⟨[c.request], rfl, rfl⟩, hbad, ⟨[], by simp⟩⟩
  · exact ⟨rfl, hd, ⟨[], by simp⟩, hbad, ⟨[], by simp⟩⟩

theorem onMessage_agree_iff {s t : HttpServer} (hcontext : s.context = t.context)
    (hbytes : s.buffer.SameBytes t.buffer) (memory memory' : List UInt8) (opens : Bool) :
    Agree (SameAnswer s t) Eq (s.onMessage memory opens) (t.onMessage memory' opens) ↔
      SameView s t memory memory' opens := by
  unfold SameView
  cases hs : contains (peekString s.buffer memory) (ascii "shidu") with
  | true =>
      cases ht : contains (peekString t.buffer memory') (ascii "shidu") with
      | true =>
          rw [agree_uploads_iff hcontext hbytes hs ht]
          simp
      | false =>
          exact iff_of_false (not_agree_of_upload hs ht rfl rfl).1 fun h => Bool.noConfusion h.1
  | false =>
      cases ht : contains (peekString t.buffer memory') (ascii "shidu") with
      | true =>
          exact iff_of_false (not_agree_of_upload ht hs rfl rfl).2 fun h => Bool.noConfusion h.1
      | false =>
          exact iff_of_true (agree_of_parses hcontext hbytes hs ht opens)
            ⟨rfl, fun h => Bool.noConfusion h⟩

/-! ### Connections with a history -/

/-- What happens to a connection: a call on its input buffer or a call of `onMessage`. -/
inductive Step where
  | buffer (op : Buffer.Op)
  | onMessage (memory : List UInt8) (opens : Bool)

def exec (s : HttpServer) : Step → Except HttpFault HttpServer
  | .buffer op => do
      let b ← (op.exec s.buffer).mapError .buffer
      return { s with buffer := b }
  | .onMessage memory opens => s.onMessage memory opens

/-- Calls on the buffer within their preconditions. -/
def Legal (s : HttpServer) : Step → Prop
  | .buffer op => op.Pre s.buffer
  | .onMessage _ _ => True

instance (s : HttpServer) : ∀ step : Step, Decidable (Legal s step)
  | .buffer op => inferInstanceAs (Decidable (op.Pre s.buffer))
  | .onMessage _ _ => .isTrue trivial

/-- The states that a history leads to. -/
inductive Reached : HttpServer → Prop
  | init : Reached .init
  | step {s s' : HttpServer} {step : Step} (h : Reached s) (hl : Legal s step)
      (hs : s.exec step = .ok s') : Reached s'

theorem onMessage_valid {s s' : HttpServer} (h : s.buffer.Valid) {memory : List UInt8}
    {opens : Bool} (hs : s.onMessage memory opens = .ok s') : s'.buffer.Valid := by
  unfold onMessage at hs
  split at hs
  · obtain ⟨-, hs⟩ := of_ensure_bind hs
    obtain rfl := Except.ok.inj hs
    exact h
  · have hagree := parseRequest_agree s.context ⟨_, h.holds, h.holds⟩
    cases hres : s.context.parseRequest s.buffer with
    | error e =>
        rw [hres] at hs
        cases hs
    | ok res =>
        rw [hres] at hs hagree
        obtain ⟨-, bs, hb, -⟩ := agree_ok.mp hagree
        obtain rfl := Except.ok.inj hs
        dsimp only
        split <;> exact hb.toValid

theorem exec_buffer {s s' : HttpServer} {op : Buffer.Op} (h : s.exec (.buffer op) = .ok s') :
    op.exec s.buffer = .ok s'.buffer ∧ s'.context = s.context := by
  rw [exec] at h
  cases hop : op.exec s.buffer with
  | error e =>
      rw [hop] at h
      cases h
  | ok b =>
      rw [hop] at h
      obtain rfl := Except.ok.inj h
      exact ⟨rfl, rfl⟩

theorem Reached.valid {s : HttpServer} (h : Reached s) : s.buffer.Valid := by
  induction h with
  | init => exact (Buffer.init_holds _).toValid
  | @step s s' step _ hl hs ih =>
      cases step with
      | buffer op => exact ih.exec hl (exec_buffer hs).1
      | onMessage memory opens => exact onMessage_valid ih hs

/-- Whatever the histories of two connections with the same parser and the same readable bytes,
`onMessage` does the same in both exactly if it sees the word it looks for in both or in neither,
and the same text where it writes it to the file. -/
theorem onMessage_ignores_stale_bytes (s t : HttpServer) (hs : Reached s) (ht : Reached t)
    (hcontext : s.context = t.context) (hreadable : s.buffer.readable = t.buffer.readable)
    (memory memory' : List UInt8) (opens : Bool) :
    Agree (SameAnswer s t) Eq (s.onMessage memory opens) (t.onMessage memory' opens) ↔
      SameView s t memory memory' opens := by
  have hbytes : s.buffer.SameBytes t.buffer :=
    ⟨s.buffer.readable, hs.valid.holds, hreadable ▸ ht.valid.holds⟩
  exact onMessage_agree_iff hcontext hbytes memory memory' opens

/-- The start of a request, in a fresh buffer and over the bytes of a longer one. -/
theorem onMessage_ignores_stale_bytes_overwritten :
    ∃ s t, Reached s ∧ Reached t ∧ s.context = t.context ∧
      s.buffer.readable = t.buffer.readable ∧ s.buffer ≠ t.buffer ∧ s.SameView t [] [] true ∧
      Agree (SameAnswer s t) Eq (s.onMessage [] true) (t.onMessage [] true) := by
  have hruns : ∃ s, HttpServer.init.exec (.buffer (.append (ascii "GET /"))) = .ok s ∧
      ∃ t₀, HttpServer.init.exec (.buffer (.append (ascii "POST /page"))) = .ok t₀ ∧
        ∃ t₁, t₀.exec (.buffer .retrieveAll) = .ok t₁ ∧
          ∃ t, t₁.exec (.buffer (.append (ascii "GET /"))) = .ok t ∧
            s.buffer.readable = t.buffer.readable ∧ s.buffer ≠ t.buffer ∧
            s.SameView t [] [] true := by
    decide +kernel
  obtain ⟨s, hs, t₀, ht₀, t₁, ht₁, t, ht, hreadable, hne, hview⟩ := hruns
  have hsr : Reached s := .step .init (by trivial) hs
  have htr : Reached t := .step (.step (.step .init (by trivial) ht₀) (by trivial) ht₁)
    (by trivial) ht
  have hcontext : s.context = t.context := by
    rw [(exec_buffer hs).2, (exec_buffer ht).2, (exec_buffer ht₁).2, (exec_buffer ht₀).2]
  exact ⟨s, t, hsr, htr, hcontext, hreadable, hne, hview,
    (onMessage_ignores_stale_bytes s t hsr htr hcontext hreadable [] [] true).mpr hview⟩

/-- A request that has been answered leaves a fresh parser. -/
theorem onMessage_context {s s' : HttpServer} {memory : List UInt8} {opens : Bool}
    (hs : s.onMessage memory opens = .ok s') (hlt : s.requests.length < s'.requests.length) :
    s'.context = .init := by
  unfold onMessage at hs
  split at hs
  · obtain ⟨-, hs⟩ := of_ensure_bind hs
    obtain rfl := Except.ok.inj hs
    exact absurd hlt (Nat.lt_irrefl _)
  · cases hres : s.context.parseRequest s.buffer with
    | error e =>
        rw [hres] at hs
        cases hs
    | ok res =>
        rw [hres] at hs
        obtain rfl := Except.ok.inj hs
        dsimp only at hlt ⊢
        split at hlt
        · rw [if_pos (by assumption)]
          rfl
        · exact absurd hlt (Nat.lt_irrefl _)

/-- The same seven bytes, in a fresh buffer and over an answered request: only there are
they taken for an upload. -/
theorem stale_bytes_taken_for_upload :
    ∃ s t, Reached s ∧ Reached t ∧ s.context = t.context ∧
      s.buffer.readable = t.buffer.readable ∧
      ¬ Agree (SameAnswer s t) Eq (s.onMessage [] true) (t.onMessage [] true) := by
  have hruns : ∃ s, HttpServer.init.exec (.buffer (.append (ascii "GET /sh"))) = .ok s ∧
      ∃ t₀, HttpServer.init.exec (.buffer (.append (ascii "GET /xxidu HTTP/1.1\r\n\r\n"))) =
          .ok t₀ ∧
        ∃ t₁, t₀.exec (.onMessage [] true) = .ok t₁ ∧ t₀.requests.length < t₁.requests.length ∧
          ∃ t, t₁.exec (.buffer (.append (ascii "GET /sh"))) = .ok t ∧
            s.buffer.readable = t.buffer.readable ∧ s.uploads = [] ∧ t.uploads = [] ∧
            (∃ s', s.onMessage [] true = .ok s' ∧ s'.uploads = []) ∧
            ∃ t', t.onMessage [] true = .ok t' ∧ t'.uploads ≠ [] := by
    decide +kernel
  obtain ⟨s, hs, t₀, ht₀, t₁, ht₁, hanswered, t, ht, hreadable, hups, hupt, ⟨s', hs', hups'⟩, t',
    ht', hupt'⟩ := hruns
  refine ⟨s, t, .step .init (by trivial) hs, .step (.step (.step .init (by trivial) ht₀)
    (by trivial) ht₁) (by trivial) ht, ?_, hreadable, ?_⟩
  · rw [(exec_buffer hs).2, (exec_buffer ht).2, onMessage_context ht₁ hanswered]
    rfl
  · rw [hs', ht', agree_ok]
    intro hsame
    obtain ⟨texts, htexts, htexts'⟩ := hsame.uploads
    rw [hups', hups, List.nil_append] at htexts
    rw [hupt, List.nil_append, ← htexts] at htexts'
    exact hupt' htexts'

end HttpServer

end Muduo.Net
