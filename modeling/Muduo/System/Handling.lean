import Mathlib.Data.Finset.Card
import Mathlib.Data.Finset.Range
import Muduo.Library.Run
import Muduo.Net.Http.OnRequestCallBack

/-! The web server handling one request after the other, with the descriptors that are
open in its process. -/

namespace Muduo.System.Handling

open Library Net Util OnRequestCallBack

/-- How the system chooses a new descriptor. -/
structure Kernel where
  alloc : Finset ℕ → ℕ
  fresh : ∀ descriptors, alloc descriptors ∉ descriptors

/-- The process within a call of the callback: its open descriptors, and the arrays
`cgi_output` and `cgi_input`. -/
structure Process where
  descriptors : Finset ℕ
  pipes : Pipe → End → Option ℕ

def Process.start (descriptors : Finset ℕ) : Process := ⟨descriptors, fun _ _ => none⟩

/-- Both ends of a new pipe. -/
def Process.pipe (k : Kernel) (s : Process) (p : Pipe) : Process :=
  let r := k.alloc s.descriptors
  let w := k.alloc (insert r s.descriptors)
  { descriptors := insert w (insert r s.descriptors)
    pipes := Function.update s.pipes p fun
      | .read => some r
      | .write => some w }

def Process.close (s : Process) (p : Pipe) (side : End) : Process :=
  match s.pipes p side with
  | some fd => { s with descriptors := s.descriptors.erase fd }
  | none => s

/-- What a system call does to the descriptors of the server. The stream that `fopen`
returns is dropped, an `ifstream` is closed before the next call, and a forked process has
descriptors of its own. -/
def exec (k : Kernel) (s : Process) : Call → Process
  | .file (.fopen _ true) =>
      { s with descriptors := insert (k.alloc s.descriptors) s.descriptors }
  | .file (.ifstream _ true) =>
      let fd := k.alloc s.descriptors
      { s with descriptors := (insert fd s.descriptors).erase fd }
  | .file _ => s
  | .pipe p made => if made then s.pipe k p else s
  | .fork _ => s
  | .close p side => s.close p side
  | .waitpid => s

/-- A request with the response to fill in and what the system answers. -/
structure Request where
  req : HttpRequest
  resp : HttpResponse
  answers : Answers

section

variable (k : Kernel) (config : ConfigServer) (redirections : List UInt8 → Option (List UInt8))

/-- The descriptors that are open when a request has been handled. -/
def handle (descriptors : Finset ℕ) (r : Request) : Except Util.Fault (Finset ℕ) := do
  let (_, calls) ← httpServerResponseGet config redirections r.answers r.req r.resp
  return (calls.foldl (exec k) (.start descriptors)).descriptors

end

end Muduo.System.Handling
