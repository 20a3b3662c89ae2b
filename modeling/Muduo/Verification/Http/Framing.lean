import Muduo.Net.Http.HttpResponse
import Muduo.Verification.Buffer.Layout

/-! The text of a response, and that a reader can take it apart again. -/

namespace Muduo.Net

open Library

/-! ### Strings as pieces -/

namespace Buffer

variable {b b' : Buffer} {content : List UInt8}

/-- The part of a string that its `StringPiece` covers. -/
def covered (str : List UInt8) : List UInt8 := str.take (castInt str.length).toNat

theorem castInt_lt (n : ℕ) : castInt n < 2 ^ 31 := by
  have hmod : n % 2 ^ 32 < 2 ^ 32 := Nat.mod_lt _ (by decide)
  rw [castInt_natCast, signed]
  split <;> omega

theorem Holds.of_appendString (hb : b.Holds content) {str : List UInt8}
    (h : b.appendString str = .ok b') : b'.Holds (content ++ covered str) := by
  obtain ⟨-, h⟩ := of_ensure_bind h
  obtain ⟨b₁, happ, hb₁⟩ := hb.append (covered str)
  exact Except.ok.inj (happ.symm.trans h) ▸ hb₁

theorem Holds.appendString (hb : b.Holds content) {str : List UInt8} (h : str.length < 2 ^ 31) :
    ∃ b', b.appendString str = .ok b' ∧ b'.Holds (content ++ str) := by
  obtain ⟨b', happ, hb'⟩ := hb.append str
  have hpiece : (0 : ℤ) ≤ str.length ∧ (str.length : ℤ) ≤ str.length :=
    ⟨Int.natCast_nonneg _, Int.le_refl _⟩
  refine ⟨b', ?_, hb'⟩
  rw [Buffer.appendString, castInt_of_lt h, appendPiece, ensure_of _ hpiece, ok_bind,
    Int.toNat_natCast, List.take_length, happ]

theorem Holds.appendStrings (hb : b.Holds content) {strs : List (List UInt8)}
    (h : ∀ str ∈ strs, str.length < 2 ^ 31) :
    ∃ b', strs.foldlM Buffer.appendString b = .ok b' ∧ b'.Holds (content ++ strs.flatten) := by
  induction strs generalizing b content with
  | nil => exact ⟨b, rfl, by rwa [List.flatten_nil, List.append_nil]⟩
  | cons str strs ih =>
      obtain ⟨hstr, hstrs⟩ := List.forall_mem_cons.mp h
      obtain ⟨b₁, hfirst, hb₁⟩ := hb.appendString hstr
      obtain ⟨b₂, hrest, hb₂⟩ := ih hb₁ hstrs
      refine ⟨b₂, ?_, by rwa [List.flatten_cons, ← List.append_assoc]⟩
      rw [List.foldlM_cons, hfirst, ok_bind, hrest]

theorem Holds.of_appendStrings (hb : b.Holds content) {strs : List (List UInt8)}
    (h : strs.foldlM Buffer.appendString b = .ok b') :
    b'.Holds (content ++ (strs.map covered).flatten) := by
  induction strs generalizing b content with
  | nil =>
      obtain rfl := Except.ok.inj h
      rwa [List.map_nil, List.flatten_nil, List.append_nil]
  | cons str strs ih =>
      rw [List.foldlM_cons] at h
      obtain ⟨b₁, hfirst, hrest⟩ := of_bind h
      rw [List.map_cons, List.flatten_cons, ← List.append_assoc]
      exact ih (hb.of_appendString hfirst) hrest

theorem length_flatten_covered_le (strs : List (List UInt8)) :
    (strs.map covered).flatten.length ≤ strs.flatten.length := by
  induction strs with
  | nil => exact Nat.le_refl _
  | cons str strs ih =>
      have hfirst : (covered str).length ≤ str.length := List.length_take_le' _ _
      simp only [List.map_cons, List.flatten_cons, List.length_append]
      omega

/-- Nothing is lost only if the sizes of the strings are values of `int`. -/
theorem length_lt_of_flatten_covered {strs : List (List UInt8)}
    (h : strs.flatten.length ≤ (strs.map covered).flatten.length) :
    ∀ str ∈ strs, str.length < 2 ^ 31 := by
  induction strs with
  | nil => exact List.forall_mem_nil _
  | cons str strs ih =>
      have hrest := length_flatten_covered_le strs
      have hcast := castInt_lt str.length
      simp only [List.map_cons, List.flatten_cons, List.length_append, covered,
        List.length_take] at h
      exact List.forall_mem_cons.mpr ⟨by omega, ih (by omega)⟩

end Buffer

namespace HttpResponse

/-! ### The strings that are appended -/

/-- The strings of `appendConnection`. -/
def connectionParts (r : HttpResponse) : List (List UInt8) :=
  if r.closeConnection then [ascii "Connection: close\r\n"]
  else
    [snprintf 32
      (ascii "Content-Length: " ++ intNumeral (signed 64 r.body.length) ++ ascii "\r\n"),
      ascii "Connection: Keep-Alive\r\n"]

def headerParts (header : List UInt8 × List UInt8) : List (List UInt8) :=
  [header.1, ascii ": ", header.2, ascii "\r\n"]

/-- The strings of `appendToBuffer`, in order. -/
def parts (r : HttpResponse) : List (List UInt8) :=
  [snprintf 32 (ascii "HTTP/1.1 " ++ intNumeral r.statusCode.value ++ ascii " "),
    r.statusMessage, ascii "\r\n"] ++
  (r.connectionParts ++ (r.headers.entries.flatMap headerParts ++ [ascii "\r\n", r.body]))

theorem appendConnection_eq (r : HttpResponse) (b : Buffer) :
    r.appendConnection b = r.connectionParts.foldlM Buffer.appendString b := by
  unfold appendConnection connectionParts
  cases r.closeConnection <;> simp

theorem appendHeader_eq (b : Buffer) (header : List UInt8 × List UInt8) :
    appendHeader b header = (headerParts header).foldlM Buffer.appendString b := by
  simp [appendHeader, headerParts]

theorem foldlM_appendHeader (headers : List (List UInt8 × List UInt8)) (b : Buffer) :
    headers.foldlM appendHeader b = (headers.flatMap headerParts).foldlM Buffer.appendString b := by
  induction headers generalizing b with
  | nil => rfl
  | cons header headers ih =>
      rw [List.foldlM_cons, List.flatMap_cons, List.foldlM_append, appendHeader_eq]
      exact bind_congr ih

theorem appendToBuffer_eq (r : HttpResponse) (b : Buffer) :
    r.appendToBuffer b = r.parts.foldlM Buffer.appendString b := by
  simp only [appendToBuffer, parts, appendConnection_eq, foldlM_appendHeader, List.foldlM_append,
    List.foldlM_cons, List.foldlM_nil, bind_assoc, bind_pure]

/-! ### The text of a response -/

def statusLine (r : HttpResponse) : List UInt8 :=
  ascii "HTTP/1.1 " ++ (numeral 10 r.statusCode.value ++ (ascii " " ++ r.statusMessage))

/-- The fields that say how the end of the body is found. -/
def connectionFields (r : HttpResponse) : List (List UInt8 × List UInt8) :=
  if r.closeConnection then [(ascii "Connection", ascii "close")]
  else
    [(ascii "Content-Length", numeral 10 r.body.length), (ascii "Connection", ascii "Keep-Alive")]

def fieldLine (field : List UInt8 × List UInt8) : List UInt8 := field.1 ++ (ascii ": " ++ field.2)

def headText (lines : List (List UInt8)) : List UInt8 := lines.flatMap (· ++ Buffer.kCRLF)

/-- The lines of the head, an empty line, and the body. -/
def text (r : HttpResponse) : List UInt8 :=
  headText (r.statusLine :: (r.connectionFields ++ r.headers.entries).map fieldLine) ++
    (Buffer.kCRLF ++ r.body)

theorem value_lt (code : HttpStatusCode) : code.value < 10 ^ 3 := by
  cases code <;> decide

theorem intNumeral_natCast (n : ℕ) : intNumeral n = numeral 10 n :=
  if_neg (Int.not_lt.mpr (Int.natCast_nonneg n))

theorem snprintf_of_length {size : ℕ} {str : List UInt8} (h : str.length < size) :
    snprintf size str = str := List.take_of_length_le (Nat.le_sub_one_of_lt h)

theorem snprintf_status (r : HttpResponse) :
    snprintf 32 (ascii "HTTP/1.1 " ++ intNumeral r.statusCode.value ++ ascii " ") =
      ascii "HTTP/1.1 " ++ numeral 10 r.statusCode.value ++ ascii " " := by
  have hdigits := length_numeral_le (by decide) (by decide) (value_lt r.statusCode)
  rw [intNumeral_natCast]
  refine snprintf_of_length ?_
  simp only [List.length_append, show (ascii "HTTP/1.1 ").length = 9 from rfl,
    show (ascii " ").length = 1 from rfl]
  omega

/-- The line fits the array as long as the size has at most thirteen digits. -/
theorem snprintf_length {n : ℕ} (h : n < 10 ^ 13) :
    snprintf 32 (ascii "Content-Length: " ++ intNumeral (signed 64 n) ++ ascii "\r\n") =
      ascii "Content-Length: " ++ numeral 10 n ++ ascii "\r\n" := by
  have hdigits := length_numeral_le (by decide) (by decide) h
  rw [signed_of_lt (Nat.lt_trans h (by decide)), intNumeral_natCast]
  refine snprintf_of_length ?_
  simp only [List.length_append, show (ascii "Content-Length: ").length = 16 from rfl,
    show (ascii "\r\n").length = 2 from rfl]
  omega

theorem flatten_connectionParts {r : HttpResponse} (h : r.body.length < 10 ^ 13) :
    r.connectionParts.flatten = headText (r.connectionFields.map fieldLine) := by
  unfold connectionParts connectionFields
  cases r.closeConnection with
  | true => rfl
  | false =>
      have hname : ascii "Content-Length: " = ascii "Content-Length" ++ ascii ": " := rfl
      rw [if_neg Bool.false_ne_true, if_neg Bool.false_ne_true, snprintf_length h, hname]
      simp only [headText, fieldLine, List.map_cons, List.map_nil, List.flatMap_cons,
        List.flatMap_nil, List.flatten_cons, List.flatten_nil, List.append_assoc]
      rfl

theorem flatten_headerParts (headers : List (List UInt8 × List UInt8)) :
    (headers.flatMap headerParts).flatten = headText (headers.map fieldLine) := by
  induction headers with
  | nil => rfl
  | cons header headers ih =>
      simp only [headText] at ih
      simp only [List.flatMap_cons, List.flatten_append, ih, headText, List.map_cons, headerParts,
        fieldLine, List.flatten_cons, List.flatten_nil, List.append_nil, List.append_assoc]
      rfl

theorem flatten_parts {r : HttpResponse} (h : r.body.length < 10 ^ 13) :
    r.parts.flatten = r.text := by
  have hcrlf : ascii "\r\n" = Buffer.kCRLF := rfl
  rw [parts, snprintf_status, List.flatten_append, List.flatten_append, List.flatten_append,
    flatten_connectionParts h, flatten_headerParts, hcrlf]
  simp only [text, headText, statusLine, List.map_append, List.flatMap_cons, List.flatMap_append,
    List.flatten_cons, List.flatten_nil, List.append_nil, List.append_assoc]

/-! ### Taking a response apart -/

/-- The lines before the first empty one, and what follows it. -/
def headLines : ℕ → List UInt8 → Option (List (List UInt8) × List UInt8)
  | 0, _ => none
  | n + 1, bs => do
      let (line, rest) ← cut Buffer.kCRLF bs
      if line = [] then return ([], rest)
      let (lines, body) ← headLines n rest
      return (line :: lines, body)

/-- The status code and the message. -/
def decodeStatus (line : List UInt8) : Option (ℕ × List UInt8) := do
  let (version, rest) ← cut (ascii " ") line
  guard (version = ascii "HTTP/1.1")
  let (code, message) ← cut (ascii " ") rest
  return (← parseNat 10 code, message)

/-- The content length, unless the connection is closed behind the body, and the other
fields. -/
def decodeConnection :
    List (List UInt8 × List UInt8) → Option (Option ℕ × List (List UInt8 × List UInt8))
  | [] => none
  | field :: fields => do
      if field = (ascii "Connection", ascii "close") then return (none, fields)
      guard (field.1 = ascii "Content-Length")
      let length ← parseNat 10 field.2
      guard (fields.head? = some (ascii "Connection", ascii "Keep-Alive"))
      return (some length, fields.tail)

/-- What a reader learns from the text of a response. -/
structure Decoded where
  statusCode : ℕ
  statusMessage : List UInt8
  contentLength : Option ℕ
  headers : List (List UInt8 × List UInt8)
  body : List UInt8
  deriving DecidableEq, Repr

def decode (bs : List UInt8) : Option Decoded := do
  let (lines, body) ← headLines bs.length bs
  let (code, message) ← decodeStatus (← lines.head?)
  let fields ← lines.tail.mapM (cut (ascii ": "))
  let (length, headers) ← decodeConnection fields
  return ⟨code, message, length, headers, body⟩

/-- The response itself, as a reader should see it. -/
def decoded (r : HttpResponse) : Decoded where
  statusCode := r.statusCode.value
  statusMessage := r.statusMessage
  contentLength := if r.closeConnection then none else some r.body.length
  headers := r.headers.entries
  body := r.body

theorem headLines_headText {lines : List (List UInt8)} (body : List UInt8) {n : ℕ}
    (hn : lines.length < n) (h : ∀ line ∈ lines, line ≠ [] ∧ 13 ∉ line) :
    headLines n (headText lines ++ (Buffer.kCRLF ++ body)) = some (lines, body) := by
  induction lines generalizing n with
  | nil =>
      obtain ⟨m, rfl⟩ := Nat.exists_eq_succ_of_ne_zero (Nat.ne_of_gt hn)
      have hcut : cut Buffer.kCRLF (Buffer.kCRLF ++ body) = some ([], body) :=
        cut_append List.not_mem_nil body
      rw [headText, List.flatMap_nil, List.nil_append, headLines, hcut]
      rfl
  | cons line lines ih =>
      obtain ⟨m, rfl⟩ := Nat.exists_eq_succ_of_ne_zero (Nat.ne_of_gt (Nat.zero_lt_of_lt hn))
      obtain ⟨⟨hne, hline⟩, hlines⟩ := List.forall_mem_cons.mp h
      have hcut : cut Buffer.kCRLF (headText (line :: lines) ++ (Buffer.kCRLF ++ body)) =
          some (line, headText lines ++ (Buffer.kCRLF ++ body)) := by
        rw [headText, List.flatMap_cons, List.append_assoc, List.append_assoc]
        exact cut_append hline _
      rw [headLines, hcut]
      simp only [Option.bind_eq_bind, Option.bind_some, if_neg hne,
        ih (Nat.lt_of_succ_lt_succ hn) hlines]
      rfl

theorem decodeStatus_statusLine (r : HttpResponse) :
    decodeStatus r.statusLine = some (r.statusCode.value, r.statusMessage) := by
  have hversion : cut (ascii " ") r.statusLine = some (ascii "HTTP/1.1",
      numeral 10 r.statusCode.value ++ (ascii " " ++ r.statusMessage)) :=
    cut_append (show 32 ∉ ascii "HTTP/1.1" by decide) _
  have hcode : cut (ascii " ") (numeral 10 r.statusCode.value ++ (ascii " " ++ r.statusMessage)) =
      some (numeral 10 r.statusCode.value, r.statusMessage) :=
    cut_append (not_mem_numeral (by decide)) _
  rw [decodeStatus, hversion]
  simp [hcode, parseNat_decimal, guard]

theorem mapM_cut_fieldLine {fields : List (List UInt8 × List UInt8)}
    (h : ∀ field ∈ fields, 58 ∉ field.1) :
    (fields.map fieldLine).mapM (cut (ascii ": ")) = some fields := by
  induction fields with
  | nil => rfl
  | cons field fields ih =>
      obtain ⟨hfield, hfields⟩ := List.forall_mem_cons.mp h
      have hcut : cut (ascii ": ") (fieldLine field) = some field := cut_append hfield field.2
      rw [List.map_cons, List.mapM_cons, hcut, ih hfields]
      rfl

theorem decodeConnection_fields (r : HttpResponse) :
    decodeConnection (r.connectionFields ++ r.headers.entries) =
      some (r.decoded.contentLength, r.headers.entries) := by
  unfold connectionFields decoded
  cases r.closeConnection with
  | true => rfl
  | false =>
      have hname : (ascii "Content-Length", numeral 10 r.body.length) ≠
          (ascii "Connection", ascii "close") := fun h => absurd (Prod.mk.inj h).1 (by decide)
      simp [decodeConnection, hname, parseNat_decimal, guard]

/-- The texts in the response do not break its lines, and a colon ends a header name. -/
structure Clean (r : HttpResponse) : Prop where
  message : 13 ∉ r.statusMessage ∧ 10 ∉ r.statusMessage
  name : ∀ header ∈ r.headers.entries, 13 ∉ header.1 ∧ 10 ∉ header.1 ∧ 58 ∉ header.1
  value : ∀ header ∈ r.headers.entries, 13 ∉ header.2 ∧ 10 ∉ header.2

theorem statusLine_line {r : HttpResponse} (h : r.Clean) :
    r.statusLine ≠ [] ∧ 13 ∉ r.statusLine := by
  refine ⟨fun hnil => absurd (List.append_eq_nil_iff.mp hnil).1 (by decide), ?_⟩
  simp only [statusLine, List.mem_append, not_or]
  exact ⟨by decide, not_mem_numeral (by decide), by decide, h.message.1⟩

theorem fieldLine_line {field : List UInt8 × List UInt8} (hname : 13 ∉ field.1)
    (hvalue : 13 ∉ field.2) : fieldLine field ≠ [] ∧ 13 ∉ fieldLine field := by
  constructor
  · intro hnil
    have hcolon := (List.append_eq_nil_iff.mp (List.append_eq_nil_iff.mp hnil).2).1
    exact absurd hcolon (by decide)
  · simp only [fieldLine, List.mem_append, not_or]
    exact ⟨hname, by decide, hvalue⟩

theorem connectionFields_clean (r : HttpResponse) :
    ∀ field ∈ r.connectionFields, 13 ∉ field.1 ∧ 58 ∉ field.1 ∧ 13 ∉ field.2 := by
  unfold connectionFields
  cases r.closeConnection with
  | true =>
      rw [if_pos rfl]
      decide
  | false =>
      simp only [Bool.false_eq_true, if_false, List.forall_mem_cons]
      refine ⟨⟨by decide, by decide, not_mem_numeral (by decide)⟩, by decide, ?_⟩
      exact List.forall_mem_nil _

theorem fields_clean {r : HttpResponse} (h : r.Clean) :
    ∀ field ∈ r.connectionFields ++ r.headers.entries,
      13 ∉ field.1 ∧ 58 ∉ field.1 ∧ 13 ∉ field.2 := by
  intro field hfield
  rcases List.mem_append.mp hfield with hconn | hheader
  · exact r.connectionFields_clean field hconn
  · exact ⟨(h.name field hheader).1, (h.name field hheader).2.2, (h.value field hheader).1⟩

theorem length_le_headText (lines : List (List UInt8)) :
    lines.length ≤ (headText lines).length := by
  induction lines with
  | nil => exact Nat.le_refl _
  | cons line lines ih =>
      rw [headText, List.flatMap_cons, ← headText]
      simp only [List.length_append, List.length_cons, Buffer.kCRLF]
      omega

theorem decode_text {r : HttpResponse} (h : r.Clean) : decode r.text = some r.decoded := by
  have hfields := fields_clean h
  have hlines : ∀ line ∈ r.statusLine :: (r.connectionFields ++ r.headers.entries).map fieldLine,
      line ≠ [] ∧ 13 ∉ line := by
    refine List.forall_mem_cons.mpr ⟨statusLine_line h, ?_⟩
    intro line hline
    obtain ⟨field, hfield, rfl⟩ := List.mem_map.mp hline
    exact fieldLine_line (hfields field hfield).1 (hfields field hfield).2.2
  have hfuel : (r.statusLine :: (r.connectionFields ++ r.headers.entries).map fieldLine).length <
      r.text.length := by
    have hle := length_le_headText
      (r.statusLine :: (r.connectionFields ++ r.headers.entries).map fieldLine)
    rw [text, List.length_append, List.length_append, show Buffer.kCRLF.length = 2 from rfl]
    omega
  have hhead := headLines_headText r.body hfuel hlines
  rw [← text] at hhead
  rw [decode, hhead]
  simp only [Option.bind_eq_bind, Option.bind_some, List.head?_cons, List.tail_cons,
    decodeStatus_statusLine, mapM_cut_fieldLine fun field hf => (hfields field hf).2.1,
    decodeConnection_fields]
  rfl

/-! ### Only the text of a response decodes to it -/

theorem of_guard {p : Prop} [Decidable p] {u : Unit} (h : (guard p : Option Unit) = some u) :
    p := by
  by_contra hp
  rw [guard, if_neg hp] at h
  cases h

theorem of_headLines {n : ℕ} {bs body : List UInt8} {lines : List (List UInt8)}
    (h : headLines n bs = some (lines, body)) :
    bs = headText lines ++ (Buffer.kCRLF ++ body) := by
  induction n generalizing bs lines with
  | zero => cases h
  | succ n ih =>
      rw [headLines] at h
      obtain ⟨⟨line, rest⟩, hcut, h⟩ := Option.bind_eq_some_iff.mp h
      dsimp only at h
      rw [eq_append_of_cut hcut]
      by_cases hline : line = []
      · rw [if_pos hline] at h
        obtain ⟨rfl, rfl⟩ := Prod.mk.inj (Option.some.inj h)
        rw [hline, headText, List.flatMap_nil]
      · rw [if_neg hline] at h
        obtain ⟨⟨lines', body'⟩, hrest, h⟩ := Option.bind_eq_some_iff.mp h
        obtain ⟨rfl, rfl⟩ := Prod.mk.inj (Option.some.inj h)
        rw [ih hrest, headText, headText, List.flatMap_cons, List.append_assoc, List.append_assoc]

theorem of_decodeStatus {line message : List UInt8} {code : ℕ}
    (h : decodeStatus line = some (code, message)) :
    ∃ digits, parseNat 10 digits = some code ∧
      line = ascii "HTTP/1.1 " ++ (digits ++ (ascii " " ++ message)) := by
  obtain ⟨⟨version, rest⟩, hversion, h⟩ := Option.bind_eq_some_iff.mp h
  obtain ⟨_, hguard, h⟩ := Option.bind_eq_some_iff.mp h
  obtain ⟨⟨digits, message'⟩, hdigits, h⟩ := Option.bind_eq_some_iff.mp h
  obtain ⟨code', hcode, h⟩ := Option.bind_eq_some_iff.mp h
  obtain ⟨rfl, rfl⟩ := Prod.mk.inj (Option.some.inj h)
  refine ⟨digits, hcode, ?_⟩
  rw [eq_append_of_cut hversion, eq_append_of_cut hdigits, of_guard hguard]
  rfl

theorem of_mapM_cut {lines : List (List UInt8)} {fields : List (List UInt8 × List UInt8)}
    (h : lines.mapM (cut (ascii ": ")) = some fields) : lines = fields.map fieldLine := by
  induction lines generalizing fields with
  | nil =>
      obtain rfl := Option.some.inj h
      rfl
  | cons line lines ih =>
      rw [List.mapM_cons] at h
      obtain ⟨field, hfield, h⟩ := Option.bind_eq_some_iff.mp h
      obtain ⟨fields', hfields, h⟩ := Option.bind_eq_some_iff.mp h
      obtain rfl := Option.some.inj h
      rw [List.map_cons, ← ih hfields, fieldLine, ← eq_append_of_cut hfield]

theorem of_decodeConnection {r : HttpResponse} {fields headers : List (List UInt8 × List UInt8)}
    (h : decodeConnection fields = some (r.decoded.contentLength, headers)) :
    ∃ first, fields = first ++ headers ∧
      (headText (r.connectionFields.map fieldLine)).length ≤
        (headText (first.map fieldLine)).length := by
  cases fields with
  | nil => cases h
  | cons field fields =>
      rw [decodeConnection] at h
      by_cases hclose : field = (ascii "Connection", ascii "close")
      · rw [if_pos hclose] at h
        obtain ⟨hlength, rfl⟩ := Prod.mk.inj (Option.some.inj h)
        refine ⟨[field], rfl, ?_⟩
        have hr : r.closeConnection = true := by
          by_contra hne
          rw [decoded, if_neg hne] at hlength
          cases hlength
        rw [hclose, connectionFields, if_pos hr]
      · rw [if_neg hclose] at h
        obtain ⟨_, hname, h⟩ := Option.bind_eq_some_iff.mp h
        obtain ⟨n, hn, h⟩ := Option.bind_eq_some_iff.mp h
        obtain ⟨_, hkeep, h⟩ := Option.bind_eq_some_iff.mp h
        obtain ⟨hlength, rfl⟩ := Prod.mk.inj (Option.some.inj h)
        refine ⟨[field, (ascii "Connection", ascii "Keep-Alive")], ?_, ?_⟩
        · rw [List.cons_append, List.cons_append, List.nil_append,
            ← List.cons_head?_tail (of_guard hkeep)]
          rfl
        · by_cases hr : r.closeConnection = true
          · rw [decoded, if_pos hr] at hlength
            cases hlength
          · rw [decoded, if_neg hr] at hlength
            have hdigits := length_numeral_le_of_parseNat (by decide) (Option.some.inj hlength ▸ hn)
            rw [connectionFields, if_neg hr]
            simp only [headText, fieldLine, of_guard hname, List.map_cons, List.map_nil,
              List.flatMap_cons, List.length_append]
            omega

theorem length_text_le {r : HttpResponse} {bs : List UInt8} (h : decode bs = some r.decoded) :
    r.text.length ≤ bs.length := by
  obtain ⟨⟨lines, body⟩, hhead, h⟩ := Option.bind_eq_some_iff.mp h
  obtain ⟨line, hline, h⟩ := Option.bind_eq_some_iff.mp h
  obtain ⟨⟨code, message⟩, hstatus, h⟩ := Option.bind_eq_some_iff.mp h
  obtain ⟨fields, hfields, h⟩ := Option.bind_eq_some_iff.mp h
  obtain ⟨⟨length, headers⟩, hconn, h⟩ := Option.bind_eq_some_iff.mp h
  obtain ⟨rfl, rfl, rfl, rfl, rfl⟩ := Decoded.mk.inj (Option.some.inj h)
  obtain ⟨digits, hdigits, hline'⟩ := of_decodeStatus hstatus
  obtain ⟨first, rfl, hfirst⟩ := of_decodeConnection hconn
  have hcode := length_numeral_le_of_parseNat (by decide) hdigits
  have hlines : lines = line :: (first ++ r.headers.entries).map fieldLine := by
    rw [← of_mapM_cut hfields, List.cons_head?_tail hline]
  rw [of_headLines hhead, hlines, hline', text, statusLine]
  simp only [headText, List.map_append, List.flatMap_cons, List.flatMap_append,
    List.length_append] at hfirst ⊢
  omega

/-! ### What the reader of a response sees -/

/-- The sizes of all strings of the response are values of `int`. -/
structure Short (r : HttpResponse) : Prop where
  message : r.statusMessage.length < 2 ^ 31
  headers : ∀ header ∈ r.headers.entries, header.1.length < 2 ^ 31 ∧ header.2.length < 2 ^ 31
  body : r.body.length < 2 ^ 31

theorem length_snprintf_lt {size : ℕ} (h : 0 < size) (str : List UInt8) :
    (snprintf size str).length < size :=
  Nat.lt_of_le_of_lt (List.length_take_le _ _) (Nat.sub_one_lt_of_lt h)

theorem connectionParts_short (r : HttpResponse) :
    ∀ str ∈ r.connectionParts, str.length < 2 ^ 31 := by
  unfold connectionParts
  cases r.closeConnection with
  | true =>
      rw [if_pos rfl]
      decide
  | false =>
      rw [if_neg Bool.false_ne_true]
      refine List.forall_mem_cons.mpr ⟨?_, by decide⟩
      exact Nat.lt_trans (length_snprintf_lt (by decide) _) (by decide)

theorem short_iff {r : HttpResponse} : (∀ str ∈ r.parts, str.length < 2 ^ 31) ↔ r.Short := by
  have hcrlf : (ascii "\r\n").length < 2 ^ 31 := by decide
  have hcolon : (ascii ": ").length < 2 ^ 31 := by decide
  constructor
  · intro h
    simp only [parts, List.forall_mem_append, List.forall_mem_cons, List.forall_mem_flatMap,
      headerParts] at h
    exact ⟨h.1.2.1, fun header hh => ⟨(h.2.2.1 header hh).1, (h.2.2.1 header hh).2.2.1⟩,
      h.2.2.2.2.1⟩
  · intro h
    have hstatus := length_snprintf_lt (show 0 < 32 by decide)
      (ascii "HTTP/1.1 " ++ intNumeral r.statusCode.value ++ ascii " ")
    simp only [parts, List.forall_mem_append, List.forall_mem_cons, List.forall_mem_flatMap,
      headerParts]
    refine ⟨⟨Nat.lt_trans hstatus (by decide), h.message, hcrlf, List.forall_mem_nil _⟩,
      r.connectionParts_short, fun header hh => ?_, hcrlf, h.body, List.forall_mem_nil _⟩
    exact ⟨(h.headers header hh).1, hcolon, (h.headers header hh).2, hcrlf, List.forall_mem_nil _⟩

/-- The appended text decodes to the response exactly if every size fits an `int`. -/
theorem response_framing_iff {r : HttpResponse} {output : Buffer} {content : List UInt8}
    (hr : r.Clean) (hbody : r.body.length < 10 ^ 13) (hb : output.Holds content) :
    (∃ output' bytes, r.appendToBuffer output = .ok output' ∧ output'.Holds (content ++ bytes) ∧
      decode bytes = some r.decoded) ↔ r.Short := by
  rw [← short_iff, appendToBuffer_eq]
  constructor
  · rintro ⟨output', bytes, happ, hb', hdecode⟩
    have hcovered := (hb.of_appendStrings happ).readable_eq.symm.trans hb'.readable_eq
    obtain rfl := List.append_cancel_left hcovered
    refine Buffer.length_lt_of_flatten_covered ?_
    rw [flatten_parts hbody]
    exact length_text_le hdecode
  · intro hshort
    obtain ⟨output', happ, hb'⟩ := hb.appendStrings hshort
    rw [flatten_parts hbody] at hb'
    exact ⟨output', r.text, happ, hb', decode_text hr⟩

theorem response_framing_iff_notFound :
    let r := ((ctor false).setStatusCode .k404NotFound).setStatusMessage "Not Found"
    ∃ output' bytes, r.appendToBuffer (.init 16) = .ok output' ∧ output'.Holds ([] ++ bytes) ∧
      decode bytes = some ⟨404, ascii "Not Found", some 0, [], []⟩ := by
  intro r
  refine (response_framing_iff (r := r) ⟨by decide, ?_, ?_⟩ (by decide) (Buffer.init_holds 16)).mpr
    ⟨by decide, ?_, by decide⟩
  all_goals exact List.forall_mem_nil _

theorem appendString_of_castInt {b : Buffer} {str : List UInt8} (h : castInt str.length = 0) :
    b.appendString str = b.appendString [] := by
  have hpiece : (0 : ℤ) ≤ 0 ∧ (0 : ℤ) ≤ str.length := ⟨Int.le_refl 0, Int.natCast_nonneg _⟩
  rw [Buffer.appendString, h, Buffer.appendPiece, ensure_of _ hpiece, ok_bind, Int.toNat_zero,
    List.take_zero]
  rfl

/-- Of a body whose size is cast to zero nothing is appended. -/
theorem appendToBuffer_setBody {r : HttpResponse} {output : Buffer} {body : List UInt8}
    (hr : r.closeConnection = true) (hclean : r.Clean) (hshort : (r.setBody []).Short)
    (hb : output.Holds []) (hbody : castInt body.length = 0) :
    ∃ output', (r.setBody body).appendToBuffer output = .ok output' ∧
      decode output'.readable = some { (r.setBody body).decoded with body := [] } := by
  have hsame : (r.setBody body).appendToBuffer output = (r.setBody []).appendToBuffer output := by
    simp only [appendToBuffer, appendConnection, setBody, hr, if_true,
      appendString_of_castInt hbody]
  have hdecoded : (r.setBody []).decoded = { (r.setBody body).decoded with body := [] } := by
    simp only [decoded, setBody, hr, if_true]
  have hempty : (r.setBody []).Clean := ⟨hclean.message, hclean.name, hclean.value⟩
  obtain ⟨output', happ, hb'⟩ := hb.appendStrings (short_iff.mpr hshort)
  rw [flatten_parts (Nat.pow_pos (by decide)), List.nil_append] at hb'
  refine ⟨output', by rw [hsame, appendToBuffer_eq, happ], ?_⟩
  rw [hb'.readable_eq, decode_text hempty, hdecoded]

theorem not_decoded_of_huge {body : List UInt8} (hlen : body.length = 2 ^ 32) :
    let r := ((ctor true).setStatusCode .k200Ok).setBody body
    r.Clean ∧ r.body.length < 10 ^ 13 ∧
      ∃ output, r.appendToBuffer (.init 16) = .ok output ∧
        decode output.readable = some { r.decoded with body := [] } ∧
        decode output.readable ≠ some r.decoded := by
  have hclean : ((ctor true).setStatusCode .k200Ok).Clean :=
    ⟨by decide, List.forall_mem_nil _, List.forall_mem_nil _⟩
  have hcast : castInt body.length = 0 := by
    rw [hlen]
    decide
  obtain ⟨output, happ, hdecode⟩ := appendToBuffer_setBody rfl hclean
    ⟨by decide, List.forall_mem_nil _, by decide⟩ (Buffer.init_holds 16) hcast
  refine ⟨⟨hclean.message, hclean.name, hclean.value⟩, ?_, output, happ, hdecode, ?_⟩
  · exact Nat.lt_of_le_of_lt (Nat.le_of_eq hlen) (by decide)
  · rw [hdecode]
    intro hsame
    have hbody : [] = body := congrArg Decoded.body (Option.some.inj hsame)
    rw [← hbody] at hlen
    cases hlen

theorem huge_body_lost :
    let r := ((ctor true).setStatusCode .k200Ok).setBody (List.replicate (2 ^ 32) 97)
    r.Clean ∧ r.body.length < 10 ^ 13 ∧
      ∃ output, r.appendToBuffer (.init 16) = .ok output ∧
        decode output.readable = some { r.decoded with body := [] } ∧
        decode output.readable ≠ some r.decoded :=
  not_decoded_of_huge List.length_replicate

end HttpResponse

end Muduo.Net
