import Muduo.Net.Http.Cgi
import Mathlib.Algebra.Group.Nat.Defs

/-! The callback of the web server that answers a request with a file or with the output
of a CGI program. -/

namespace Muduo.Net

open Library Util

namespace OnRequestCallBack

/-- Undefined behaviour and exceptions in the process of the CGI program. -/
inductive CgiFault where
  | queryRange
  | methodOverflow
  | queryOverflow
  deriving DecidableEq, Repr

/-- The call of `execl` and the two strings given to `putenv`. -/
structure Execl where
  methEnv : List UInt8
  queryEnv : List UInt8
  file : FileName
  argument : List UInt8
  deriving DecidableEq, Repr

abbrev Call : Type := Cgi.Call (Except CgiFault Execl)

def redirections : List UInt8 → Option (List UInt8) := fun _ => none

def redirectInit : List UInt8 → Option (List UInt8) := fun path =>
  if path = ascii "/1" then some (ascii "www.baidu.com")
  else if path = ascii "/2" then some (ascii "www.sina.com")
  else if path = ascii "/3" then some (ascii "www.sogou.com")
  else none

/-- The forked process up to `execl`. Both arrays have 255 characters. -/
def cgiChild (config : ConfigServer) (req : HttpRequest) : Except CgiFault Execl := do
  ensure (req.query ≠ []) .queryRange
  let query := req.query.drop 1
  let methEnv := ascii "REQUEST_METHOD=" ++ req.methodString
  let queryEnv := ascii "QUERY_STRING=" ++ cstr query
  ensure (methEnv.length < 255) .methodOverflow
  ensure (queryEnv.length < 255) .queryOverflow
  return ⟨methEnv, queryEnv, ⟨.root .src, config.srcRoot ++ req.path⟩, cstr query⟩

/-- The page for a file that cannot be found. -/
def error404 (config : ConfigServer) (answers : Answers) : List UInt8 × List FileCall :=
  getContent answers ⟨.error404, config.error404Path⟩

/-- The branch for the path `/`. -/
def homePage (config : ConfigServer) (answers : Answers) (path : FileName)
    (resp : HttpResponse) : HttpResponse × List Call :=
  let resp := resp.setStatusCode .k200Ok |>.setStatusMessage "OK" |>.setContentType "text/html"
  let (content, calls) := getContent answers path
  if content = [] then
    let (page, pageCalls) := error404 config answers
    (resp.setStatusCode .k404NotFound
      |>.setStatusMessage "Not Found"
      |>.setContentType "text/html"
      |>.setBody page, (calls ++ pageCalls).map .file)
  else
    (resp.setBody content
      |>.setStatusCode .k200Ok
      |>.setStatusMessage "OK"
      |>.setContentType "text/html", calls.map .file)

/-- `stat`, whose result gives way to that of opening the weather file. -/
def fileStatus (answers : Answers) (req : HttpRequest) (path : FileName) : ℤ × List FileCall :=
  let ret := answers.stat path.text
  if Util.contains req.path (ascii "weather") then
    let opened := (answers.ifstream weather.text).isSome
    (if opened then 1 else ret, [.stat path, .ifstream weather opened])
  else (ret, [.stat path])

/-- The branch for the known types of files. -/
def regularFile (config : ConfigServer) (answers : Answers) (req : HttpRequest)
    (path : FileName) (resp : HttpResponse) : HttpResponse × List Call :=
  let (ret, calls) := fileStatus answers req path
  if ret < 0 then
    let (page, pageCalls) := error404 config answers
    (resp.setStatusCode .k404NotFound
      |>.setStatusMessage "Not Found"
      |>.setCloseConnection true
      |>.setBody page, (calls ++ pageCalls).map .file)
  else
    let (content, contentCalls) := getContent answers path
    (resp.setStatusCode .k200Ok
      |>.setStatusMessage "OK"
      |>.setContentType (getContentType req.path)
      |>.setBody content, (calls ++ contentCalls).map .file)

/-- The branch for everything that is no file of a known type. -/
def cgi (config : ConfigServer) (answers : Answers) (req : HttpRequest) (resp : HttpResponse) :
    HttpResponse × List Call :=
  Cgi.runCgi answers (cgiChild config req) resp

def httpServerResponseGet (config : ConfigServer)
    (redirections : List UInt8 → Option (List UInt8)) (answers : Answers) (req : HttpRequest)
    (resp : HttpResponse) : Except Util.Fault (HttpResponse × List Call) :=
  match redirections req.path with
  | some location =>
      .ok (resp.setStatusCode .k301MovedPermanently
        |>.setStatusMessage "Moved Permanently"
        |>.addHeader "Location" location
        |>.setCloseConnection true, [])
  | none => do
      let path ← constructPath config req.path
      return if req.path = ascii "/" then homePage config answers path resp
        else if getContentType req.path ≠ "cgi" then regularFile config answers req path resp
        else cgi config answers req resp

end OnRequestCallBack

end Muduo.Net
