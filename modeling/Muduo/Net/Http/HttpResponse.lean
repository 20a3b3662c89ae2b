import Muduo.Library.Numeral
import Muduo.Net.Http.HttpRequest

/-! An HTTP response as a callback fills it in, and its text. -/

namespace Muduo.Net

open Library

/-- `append(const StringPiece&)` on a string, whose size is cast to the `int` of the piece. -/
def Buffer.appendString (b : Buffer) (str : List UInt8) : Except Buffer.Fault Buffer :=
  b.appendPiece ⟨str, castInt str.length⟩

/-- What `snprintf` leaves in an array of `size` characters, before the zero. Its `%d` and `%zd` are
the `intNumeral` of the argument. -/
def snprintf (size : ℕ) (text : List UInt8) : List UInt8 := text.take (size - 1)

namespace HttpResponse

inductive HttpStatusCode where
  | kUnknown
  | k200Ok
  | k301MovedPermanently
  | k400BadRequest
  | k404NotFound
  | k501
  deriving DecidableEq, Repr

def HttpStatusCode.value : HttpStatusCode → ℕ
  | kUnknown => 0
  | k200Ok => 200
  | k301MovedPermanently => 301
  | k400BadRequest => 400
  | k404NotFound => 404
  | k501 => 501

/-- The header map, with its keys in ascending order as `std::map` compares them. -/
structure Headers where
  entries : List (List UInt8 × List UInt8)
  sorted : entries.Pairwise fun e f => e.1 < f.1

namespace Headers

def empty : Headers := ⟨[], .nil⟩

/-- A value under the same key is replaced. -/
def set (h : Headers) (key value : List UInt8) : Headers where
  entries := h.entries.filter (·.1 < key) ++ (key, value) :: h.entries.filter (key < ·.1)
  sorted := by
    refine List.pairwise_append.mpr ⟨h.sorted.filter _, ?_, ?_⟩
    · refine List.pairwise_cons.mpr ⟨fun e he => ?_, h.sorted.filter _⟩
      simpa using (List.mem_filter.mp he).2
    · intro e he f hf
      have hlt : e.1 < key := by simpa using (List.mem_filter.mp he).2
      rcases List.mem_cons.mp hf with rfl | hf
      · exact hlt
      · exact List.lt_trans hlt (by simpa using (List.mem_filter.mp hf).2)

end Headers

end HttpResponse

open HttpResponse

structure HttpResponse where
  headers : Headers
  statusCode : HttpStatusCode
  statusMessage : List UInt8
  closeConnection : Bool
  body : List UInt8

namespace HttpResponse

def ctor (close : Bool) : HttpResponse where
  headers := .empty
  statusCode := .kUnknown
  statusMessage := []
  closeConnection := close
  body := []

def setStatusCode (r : HttpResponse) (code : HttpStatusCode) : HttpResponse :=
  { r with statusCode := code }

def setStatusMessage (r : HttpResponse) (message : String) : HttpResponse :=
  { r with statusMessage := ascii message }

def setCloseConnection (r : HttpResponse) (on : Bool) : HttpResponse :=
  { r with closeConnection := on }

def addHeader (r : HttpResponse) (key : String) (value : List UInt8) : HttpResponse :=
  { r with headers := r.headers.set (ascii key) value }

def setContentType (r : HttpResponse) (contentType : String) : HttpResponse :=
  r.addHeader "Content-Type" (ascii contentType)

def setBody (r : HttpResponse) (body : List UInt8) : HttpResponse := { r with body := body }

/-- The lines about the connection in `appendToBuffer`. -/
def appendConnection (r : HttpResponse) (output : Buffer) : Except Buffer.Fault Buffer :=
  if r.closeConnection then
    output.appendString (ascii "Connection: close\r\n")
  else do
    -- `%zd` takes the `size_t` for a signed number.
    let buf := snprintf 32
      (ascii "Content-Length: " ++ intNumeral (signed 64 r.body.length) ++ ascii "\r\n")
    let output ← output.appendString buf
    output.appendString (ascii "Connection: Keep-Alive\r\n")

/-- One round of the loop over the headers. -/
def appendHeader (output : Buffer) (header : List UInt8 × List UInt8) :
    Except Buffer.Fault Buffer := do
  let output ← output.appendString header.1
  let output ← output.appendString (ascii ": ")
  let output ← output.appendString header.2
  output.appendString (ascii "\r\n")

def appendToBuffer (r : HttpResponse) (output : Buffer) : Except Buffer.Fault Buffer := do
  let buf := snprintf 32 (ascii "HTTP/1.1 " ++ intNumeral r.statusCode.value ++ ascii " ")
  let output ← output.appendString buf
  let output ← output.appendString r.statusMessage
  let output ← output.appendString (ascii "\r\n")
  let output ← r.appendConnection output
  let output ← r.headers.entries.foldlM appendHeader output
  let output ← output.appendString (ascii "\r\n")
  output.appendString r.body

end HttpResponse

end Muduo.Net
