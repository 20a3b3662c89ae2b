import Muduo.Library.Checked
import Muduo.Net.Http.Cgi

/-! The callback of the example `shorturl`, which gives requests with a query and posted ones to CGI
programs. -/

namespace Muduo.Net

open Library Util

namespace OnRequestAdvice

/-! ### Numbers in headers -/

/-- The exceptions of `stoi`. -/
inductive StoiFault where
  | invalidArgument
  | outOfRange
  deriving DecidableEq, Repr

/-- The sign in front of a number, and what follows. -/
def sign : List UInt8 → ℤ × List UInt8
  | [] => (1, [])
  | c :: rest => if c = 45 then (-1, rest) else if c = 43 then (1, rest) else (1, c :: rest)

/-- `stoi`: blanks, a sign and digits. What follows them is not looked at. -/
def stoi (s : List UInt8) : Except StoiFault ℤ :=
  let t := sign (s.dropWhile isspace)
  match parseNat 10 (t.2.takeWhile (fun c => decide (IsDigit c))) with
  | some n => do
      ensure (FitsInt (t.1 * n)) .outOfRange
      return t.1 * n
  | none => .error .invalidArgument

/-! ### Processes for CGI programs -/

/-- Undefined behaviour and exceptions in the process of a CGI program. -/
inductive ChildFault where
  | pathRange
  | queryRange
  | overflow
  | words
  deriving DecidableEq, Repr

/-- The call of `execl` and the strings given to `putenv`. -/
structure Execl where
  env : List (List UInt8)
  file : List UInt8
  argument : List UInt8
  deriving DecidableEq, Repr

/-- `sprintf` into an array of 255 characters. -/
def sprintf (text : List UInt8) : Except ChildFault (List UInt8) := do
  ensure (text.length < 255) .overflow
  return text

/-- `string(s.begin() + 1, s.end())`. -/
def behindFirst (s : List UInt8) (fault : ChildFault) : Except ChildFault (List UInt8) := do
  ensure (s ≠ []) fault
  return s.drop 1

def postChild (req : HttpRequest) (contentLengthValue : ℤ) : Except ChildFault Execl := do
  let path ← behindFirst req.path .pathRange
  let methEnv ← sprintf (ascii "REQUEST_METHOD=" ++ req.methodString)
  let lengthEnv ← sprintf (ascii "CONTENT_LENGTH=" ++ intNumeral contentLengthValue)
  return ⟨[methEnv, lengthEnv], cstr path, cstr path⟩

/-- A round of the loop that splits the query at `+`. Of the four strings that it fills only the
index `s`, a `uint16_t`, is kept: they go into a log line. -/
def splitWord (s : ℕ) (c : UInt8) : Except ChildFault ℕ :=
  if c = 43 then
    .ok ((s + 1) % 2 ^ 16)
  else do
    ensure (s < 4) .words
    return s

def getChild (req : HttpRequest) : Except ChildFault Execl := do
  let _ ← behindFirst req.path .pathRange
  let query ← behindFirst req.query .queryRange
  ensure (8 ≤ query.length) .queryRange
  let query := query.drop 8
  let methEnv ← sprintf (ascii "REQUEST_METHOD=" ++ req.methodString)
  let queryEnv ← sprintf (ascii "QUERY_STRING=" ++ cstr query)
  let _ ← query.foldlM splitWord 0
  return ⟨[methEnv, queryEnv], ascii "/home/wushuohan/test/hello/test", ascii "1"⟩

/-! ### The callback -/

/-- Exceptions and undefined behaviour in the functions that are called. -/
inductive Fault where
  | constructPath (fault : Util.Fault)
  | getExtent (fault : ExtentFault)
  | stoi (fault : StoiFault)
  deriving DecidableEq, Repr

abbrev Call : Type := Cgi.Call (Except ChildFault Execl)

/-- The branch for files. The extension is not used. -/
def file (config : ConfigServer) (answers : Answers) (req : HttpRequest) (resp : HttpResponse) :
    Except Fault (HttpResponse × List Call) := do
  let path ← (constructPath config req.path).mapError .constructPath
  let _ ← (getExtent path.text).mapError .getExtent
  let content := getContent answers path
  return (if content.1 = [] then
      (resp.setStatusCode .k404NotFound).setStatusMessage "Not Found"
    else
      resp.setBody content.1
        |>.setStatusCode .k200Ok
        |>.setStatusMessage "OK"
        |>.setContentType "text/html", content.2.map .file)

/-- The variable `cgi`. -/
def cgi (req : HttpRequest) : Bool :=
  req.method = .kPost || (req.method = .kGet && req.query ≠ [])

end OnRequestAdvice

open OnRequestAdvice

/-- The response, with the calls that were made for it. -/
def onRequestAdvice (config : ConfigServer) (answers : Answers) (req : HttpRequest)
    (resp : HttpResponse) : Except OnRequestAdvice.Fault (HttpResponse × List Call) :=
  if req.method ≠ .kGet ∧ req.method ≠ .kPost then
    .ok (resp.setStatusCode .k501
      |>.setStatusMessage "Method Not Implemented"
      |>.setContentType "text/html"
      |>.setBody (ascii ("<HTML><HEAD><TITLE>Method Not Implemented</TITLE></HEAD><BODY>" ++
        "<P>HTTP request method not supported.</BODY></HTML>")), [])
  else if !cgi req then
    file config answers req resp
  else if req.method = .kPost then do
    let contentLengthValue ← (stoi (req.getHeader (ascii "Content-Length"))).mapError .stoi
    return Cgi.runCgi answers (postChild req contentLengthValue) resp
  else
    .ok (Cgi.runCgi answers (getChild req) resp)

end Muduo.Net
