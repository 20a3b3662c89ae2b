import Muduo.Net.Buffer
import Muduo.Net.Http.Util

/-! The FastCGI client: the records it sends, and what it makes of the answer. -/

namespace Muduo.Net

open Library Util

/-- `FastCgi_t`, without its socket. -/
structure FastCgi where
  requestId : ℤ
  flag : ℤ
  deriving DecidableEq, Repr

namespace FastCgi

/-- Stores past the end of an array, a text that does not end, and the assertions. -/
inductive Fault where
  | bodyBuff
  | write
  | content
  | contentLen
  | tmp
  | paddingLength
  | endRequest
  | unterminated
  deriving DecidableEq, Repr

/-- `PARAMS_BUFF_LEN`. -/
def paramsBuffLen : ℕ := 2048

/-- `CONTENT_BUFF_LEN`. -/
def contentBuffLen : ℕ := 2048

/-- `FCGI_HEADER_LEN`. -/
def fcgiHeaderLen : ℕ := 8

/-- `FCGI_VERSION_1`. -/
def fcgiVersion1 : UInt8 := 1

/-- `FCGI_END_REQUEST`. -/
def fcgiEndRequest : UInt8 := 3

/-- `FCGI_PARAMS`. -/
def fcgiParams : UInt8 := 4

/-- `FCGI_STDOUT`. -/
def fcgiStdout : UInt8 := 6

/-- `FCGI_STDERR`. -/
def fcgiStderr : UInt8 := 7

/-- `FCGI_Header`. -/
structure Header where
  version : UInt8
  type : UInt8
  requestIdB1 : UInt8
  requestIdB0 : UInt8
  contentLengthB1 : UInt8
  contentLengthB0 : UInt8
  paddingLength : UInt8
  reserved : UInt8
  deriving DecidableEq, Repr

/-- The header in memory. -/
def Header.bytes (h : Header) : List UInt8 :=
  [h.version, h.type, h.requestIdB1, h.requestIdB0, h.contentLengthB1, h.contentLengthB0,
    h.paddingLength, h.reserved]

/-- `static_cast<unsigned char>`. -/
def byte (x : ℤ) : UInt8 := UInt8.ofNat (word 8 x)

/-- The conversion to a byte does what `& 0xff` does. -/
def makeHeader (type : UInt8) (requestId contentLength paddingLength : ℤ) : Header where
  version := fcgiVersion1
  type := type
  requestIdB1 := byte (requestId >>> (8 : ℕ))
  requestIdB0 := byte requestId
  contentLengthB1 := byte (contentLength >>> (8 : ℕ))
  contentLengthB0 := byte contentLength
  paddingLength := byte paddingLength
  reserved := 0

/-! ### Parameters -/

/-- How `makeNameValueBody` stores the length of a name or a value. -/
def lengthBytes (len : ℤ) : List UInt8 :=
  if len < 128 then [byte len]
  else
    [byte (len >>> (24 : ℕ)) ||| 0x80, byte (len >>> (16 : ℕ)), byte (len >>> (8 : ℕ)), byte len]

/-- What is stored through `bodyBuffPtr`. -/
def nameValueBytes (name : List UInt8) (nameLen : ℤ) (value : List UInt8) (valueLen : ℤ) :
    List UInt8 :=
  lengthBytes nameLen ++ lengthBytes valueLen ++ cstr name ++ cstr value

/-- The memory behind `bodyBuffPtr` afterwards, and `*bodyLen`. -/
def makeNameValueBody (name : List UInt8) (nameLen : ℤ) (value : List UInt8) (valueLen : ℤ)
    (bodyBuff : List UInt8) : Except Fault (List UInt8 × ℤ) := do
  let bytes := nameValueBytes name nameLen value valueLen
  ensure (bytes.length ≤ bodyBuff.length) .bodyBuff
  return (copyInto bytes 0 bodyBuff, castInt bytes.length)

/-- The record that is given to `write`, whose answers are `write`. -/
def sendParams (c : FastCgi) (write : List UInt8 → ℤ) (name value : List UInt8) :
    Except Fault (List UInt8) := do
  let bodyBuff := List.replicate paramsBuffLen 0
  let (bodyBuff, bodyLen) ← makeNameValueBody name (castInt (cstr name).length) value
    (castInt (cstr value).length) bodyBuff
  let nameValueHeader := makeHeader fcgiParams c.requestId bodyLen 0
  let nameValueRecord := nameValueHeader.bytes ++ bodyBuff.take bodyLen.toNat
  ensure (write nameValueRecord = nameValueRecord.length) .write
  return nameValueRecord

/-! ### The answer -/

/-- The variables of `readFromPhp` and what is left of the stream. The last three fields record
history: the bytes read so far, where the headers were read, and what went to `stdout`. -/
structure Reader where
  rest : List UInt8
  responderHeader : List UInt8
  content : List UInt8
  position : ℕ
  heads : List ℕ
  printed : List (List UInt8)
  deriving DecidableEq, Repr

namespace Reader

/-- `read` of `n` bytes into an array of `size` bytes. -/
def read (r : Reader) (n size : ℕ) (fault : Fault) : Except Fault (List UInt8 × Reader) := do
  let data := r.rest.take n
  ensure (data.length ≤ size) fault
  return (data, { r with rest := r.rest.drop n, position := r.position + data.length })

/-- A member of `responderHeader`. -/
def headerAt (r : Reader) (i : ℕ) : ℕ := (r.responderHeader.getD i 0).toNat

def type (r : Reader) : ℕ := r.headerAt 1

def contentLen (r : Reader) : ℕ := r.headerAt 4 * 256 + r.headerAt 5

def paddingLength (r : Reader) : ℕ := r.headerAt 6

/-- `bzero` and the `read` into `content`. -/
def readContent (r : Reader) : Except Fault Reader := do
  let content := List.replicate contentBuffLen 0
  let (data, r') ← r.read r.contentLen contentBuffLen .content
  ensure (data.length = r.contentLen) .contentLen
  return { r' with content := copyInto data 0 content }

/-- The padding goes to `char tmp[8]`. -/
def skipPadding (r : Reader) : Except Fault Reader :=
  if 0 < r.paddingLength then do
    let (data, r') ← r.read r.paddingLength 8 .tmp
    ensure (data.length = r.paddingLength) .paddingLength
    return r'
  else .ok r

/-- `fprintf(stdout, "error:%s\n", content)`. -/
def printError (r : Reader) : Except Fault Reader := do
  ensure ((r.content.any (· = 0)) = true) .unterminated
  return { r with printed := r.printed ++ [cstr r.content] }

/-- The body of the loop, behind the header. -/
def readRecord (r : Reader) : Except Fault Reader :=
  if r.type = fcgiStdout.toNat then do
    let r ← r.readContent
    r.skipPadding
  else if r.type = fcgiStderr.toNat then do
    let r ← r.readContent
    let r ← r.printError
    r.skipPadding
  else if r.type = fcgiEndRequest.toNat then do
    let (data, r) ← r.read 8 8 .endRequest
    ensure (data.length = 8) .endRequest
    return r
  else .ok r

/-- The condition of the loop. A short `read` leaves the rest of the header as it was. -/
def readHeader (r : Reader) : Except Fault (Bool × Reader) := do
  let (data, r') ← r.read fcgiHeaderLen fcgiHeaderLen .content
  if data = [] then
    return (false, r')
  else
    return (true, { r' with
      responderHeader := copyInto data 0 r.responderHeader
      heads := r.heads ++ [r.position] })

/-- Every round reads at least one byte. -/
def loop : ℕ → Reader → Except Fault Reader
  | 0, r => .ok r
  | rounds + 1, r => do
      let (more, r) ← r.readHeader
      if more then
        let r ← r.readRecord
        loop rounds r
      else
        return r

end Reader

/-- `header` and `content` are what the memory of the variables holds at first. The first `read`
goes to `char a[100000]`. -/
def readFromPhp (header content stream : List UInt8) : Except Fault Reader := do
  let r : Reader := ⟨stream, header, content, 0, [], []⟩
  let (_, r) ← r.read 1000 100000 .content
  r.loop (stream.length + 1)

/-! ### The text behind the header lines -/

/-- How much of the pattern has been seen. -/
inductive Seen where
  | nope
  | cr
  | crlf
  | crlfcr
  | crlfcrlf
  deriving DecidableEq, Repr

def Seen.next : Seen → UInt8 → Seen
  | nope, b => if b = 13 then cr else nope
  | cr, b => if b = 10 then crlf else nope
  | crlf, b => if b = 13 then crlfcr else nope
  | crlfcr, b => if b = 10 then crlfcrlf else nope
  | crlfcrlf, _ => crlfcrlf

/-- The loop of `findStartHtml`, at the character number `i`. -/
def scan : Seen → ℕ → List UInt8 → Option ℕ
  | _, _, [] => none
  | .crlfcrlf, i, _ :: _ => some i
  | state, i, b :: rest => scan (state.next b) (i + 1) rest

/-- The distance of the result from `p`. -/
def findStartHtml (p : List UInt8) : ℕ := (scan .nope 0 (cstr p)).getD 0

/-- What is printed; `findStartHtml` never returns `NULL`. -/
def getHtmlFromContent (c : FastCgi) (content : List UInt8) : List UInt8 × FastCgi :=
  if c.flag = 1 then (cstr content, c)
  else ((cstr content).drop (findStartHtml content), { c with flag := 1 })

end FastCgi

end Muduo.Net
