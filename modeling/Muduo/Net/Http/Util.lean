import Muduo.Net.Http.HttpRequest
import Muduo.Library.Search
import Mathlib.Algebra.Group.Nat.Defs

/-! How the web server makes file names from request paths, and how it reads files. -/

namespace Muduo.Net

open Library

namespace ConfigServer

/-- The directories of the configuration. -/
inductive Root where
  | html
  | pic
  | media
  | src
  deriving DecidableEq, Repr

end ConfigServer

open ConfigServer

structure ConfigServer where
  htmlRoot : List UInt8
  picRoot : List UInt8
  mediaRoot : List UInt8
  srcRoot : List UInt8
  error404Path : List UInt8

namespace ConfigServer

/-- The values that stand in the source. -/
def default : ConfigServer where
  htmlRoot := ascii "/home/wushuohan/webRoot/html"
  picRoot := ascii "/home/wushuohan/webRoot/image"
  mediaRoot := ascii "/home/wushuohan/webRoot/media"
  srcRoot := ascii "/home/wushuohan/webRoot/src"
  error404Path := ascii "/home/wushuohan/webRoot/html/404.html"

def root (c : ConfigServer) : Root → List UInt8
  | .html => c.htmlRoot
  | .pic => c.picRoot
  | .media => c.mediaRoot
  | .src => c.srcRoot

end ConfigServer

namespace Util

/-- Where a file name comes from: it was built from one of the roots, or it is one of the
two fixed files. -/
inductive Origin where
  | root (root : Root)
  | weather
  | error404
  deriving DecidableEq, Repr

/-- A file name, with its origin. -/
structure FileName where
  origin : Origin
  text : List UInt8
  deriving DecidableEq, Repr

inductive Fault where
  | outOfRange
  deriving DecidableEq, Repr

/-- `c_str()`, as those read it that stop at the first zero. -/
def cstr (s : List UInt8) : List UInt8 := s.takeWhile (· ≠ 0)

def contains (src sub : List UInt8) : Bool := (search sub src).isSome

/-- `find_last_of`, for one character. -/
def findLastOf (c : UInt8) : List UInt8 → Option ℕ
  | [] => none
  | x :: xs =>
      match findLastOf c xs with
      | some i => some (i + 1)
      | none => if x = c then some 0 else none

/-- `path.substr(path.find_last_of("/"), path.size())`; from `npos` there is no rest. -/
def lastSegment (path : List UInt8) : Except Fault (List UInt8) :=
  match findLastOf 47 path with
  | some i => .ok (path.drop i)
  | none => .error .outOfRange

def constructPath (config : ConfigServer) (path : List UInt8) : Except Fault FileName :=
  let webHome := config.htmlRoot
  if path = ascii "/" then
    .ok ⟨.root .html, webHome ++ ascii "/index.html"⟩
  else if contains path (ascii "jpg") || contains path (ascii "ico") ||
      contains path (ascii "png") then do
    let temp ← lastSegment path
    return ⟨.root .pic, config.picRoot ++ temp⟩
  else if contains path (ascii "mp4") || contains path (ascii "mp3") then do
    let temp ← lastSegment path
    return ⟨.root .media, config.mediaRoot ++ temp⟩
  else if contains path (ascii "html") then
    .ok ⟨.root .html, webHome ++ path⟩
  else
    .ok ⟨.root .html, webHome ++ ascii "/404"⟩

/-- A read outside a string, and a loop that does not end. -/
inductive ExtentFault where
  | outside (i : ℕ)
  | diverges
  deriving DecidableEq, Repr

/-- `path[i]`. The zero behind the characters may be read, and nothing further. -/
def charAt (path : List UInt8) (i : ℕ) : Except ExtentFault UInt8 :=
  match path[i]? with
  | some c => .ok c
  | none => if i = path.length then .ok 0 else .error (.outside i)

/-- `i - 1` for an `unsigned long`. -/
def decrement (i : ℕ) : ℕ := if i = 0 then 2 ^ 64 - 1 else i - 1

/-- The loop of `GetExtent`: the index with which it is left, and those that it has read. The first
argument bounds the rounds. -/
def extentLoop (path : List UInt8) : ℕ → ℕ → Except ExtentFault (ℕ × List ℕ)
  | 0, _ => .error .diverges
  | rounds + 1, i => do
      let c ← charAt path i
      if c = 46 then
        return (i, [i])
      else
        let r ← extentLoop path rounds (decrement i)
        return (r.1, i :: r.2)

/-- The result, and the indices that were read. No index below the size comes up twice, so one
round more than there are characters shows whether the loop ends. -/
def getExtent (path : List UInt8) : Except ExtentFault (List UInt8 × List ℕ) := do
  let r ← extentLoop path (path.length + 1) (decrement path.length)
  return (path.drop (r.1 + 1), r.2)

def getContentType (path : List UInt8) : String :=
  if contains path (ascii "png") then "image/png"
  else if contains path (ascii "jpg") then "image/jpg"
  else if contains path (ascii "ico") then "image/x-icon"
  else if contains path (ascii "mp4") then "video/mpeg4"
  else if contains path (ascii "mp3") then "video/mpeg"
  else if contains path (ascii "html") then "text/html"
  else "cgi"

/-- The two pipes of a CGI program and their ends. -/
inductive Pipe where
  | cgiOutput
  | cgiInput
  deriving DecidableEq, Repr

inductive End where
  | read
  | write
  deriving DecidableEq, Repr

/-- What the operating system answers: the result of `stat`, whether a file can be opened
and what it holds, whether pipes and a process can be made, and what the CGI program
writes. -/
structure Answers where
  stat : List UInt8 → ℤ
  fopen : List UInt8 → Bool
  ifstream : List UInt8 → Option (List UInt8)
  pipe : Pipe → Bool
  fork : Bool
  cgiOutput : List UInt8

/-- A use of a file. An `ifstream` is closed again when its scope is left. -/
inductive FileCall where
  | stat (file : FileName)
  | fopen (file : FileName) (opened : Bool)
  | ifstream (file : FileName) (opened : Bool)
  deriving DecidableEq, Repr

def FileCall.file : FileCall → FileName
  | .stat file => file
  | .fopen file _ => file
  | .ifstream file _ => file

def weather : FileName := ⟨.weather, ascii "/home/wushuohan/webRoot/tianqi.txt"⟩

/-- `getline(str, n)`: the first line, as far as it fits with its final zero. -/
def getline (n : ℕ) (content : List UInt8) : List UInt8 :=
  (content.takeWhile (· ≠ 10)).take (n - 1)

/-- The content of the file and the calls that were made for it. -/
def getContent (answers : Answers) (file : FileName) : List UInt8 × List FileCall :=
  if contains file.text (ascii "weather") then
    let content := answers.ifstream weather.text
    (cstr (getline 20 (content.getD [])), [.ifstream weather content.isSome])
  else
    let content := answers.ifstream file.text
    (content.getD [],
      [.fopen file (answers.fopen file.text), .ifstream file content.isSome])

end Util

end Muduo.Net
