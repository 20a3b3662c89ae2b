import Muduo.Net.Http.HttpResponse
import Muduo.Net.Http.Util

/-! What the callbacks of the web server share: their system calls, and how they run a CGI
program. -/

namespace Muduo.Net.Cgi

open Util

/-- The system calls of the server. A process that has been forked makes calls of its own, which
are all in `child`. -/
inductive Call (κ : Type) where
  | file (call : FileCall)
  | pipe (pipe : Pipe) (made : Bool)
  | fork (child : Option κ)
  | close (pipe : Pipe) (side : End)
  | waitpid

/-- The branch for CGI programs. Nothing is written to the program. -/
def runCgi {κ : Type} (answers : Answers) (child : κ) (resp : HttpResponse) :
    HttpResponse × List (Call κ) :=
  let resp := (resp.setStatusCode .k200Ok).setStatusMessage "OK"
  if !answers.pipe .cgiOutput then
    (resp, [.pipe .cgiOutput false])
  else if !answers.pipe .cgiInput then
    (resp, [.pipe .cgiOutput true, .pipe .cgiInput false])
  else if !answers.fork then
    (resp, [.pipe .cgiOutput true, .pipe .cgiInput true, .fork none])
  else
    (resp.setBody answers.cgiOutput,
      [.pipe .cgiOutput true, .pipe .cgiInput true, .fork (some child),
        .close .cgiOutput .write, .close .cgiInput .read,
        .close .cgiOutput .read, .close .cgiInput .write, .waitpid])

end Muduo.Net.Cgi
