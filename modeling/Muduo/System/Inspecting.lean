import Muduo.Library.Run
import Muduo.Net.Inspect.Inspector

/-! An inspector in use. Commands are added and removed by any thread, each call under the mutex,
and requests come in between. -/

namespace Muduo.System.Inspecting

open Library Net Inspector

inductive Label where
  | add (module command : List UInt8) (cb : Callback) (help : List UInt8)
  | remove (module command : List UInt8)
  | request (req : HttpRequest) (resp : HttpResponse)

def exec (favicon : List UInt8) (i : Inspector) : Label → Except Inspector.Fault Inspector
  | .add module command cb help => .ok (i.add module command cb help)
  | .remove module command => .ok (i.remove module command)
  | .request req resp => do
      let _ ← i.onRequest favicon req resp
      return i

/-! ### What an inspector is for -/

/-- The callback and the help text of each command. -/
abbrev Registry : Type := List UInt8 → List UInt8 → Option (Callback × List UInt8)

namespace Registry

def empty : Registry := fun _ _ => none

def step (r : Registry) : Label → Registry
  | .add module command cb help => fun m c =>
      if m = module ∧ c = command then some (cb, help) else r m c
  | .remove module command => fun m c => if m = module ∧ c = command then none else r m c
  | .request _ _ => r

/-- What a path with these segments is answered with. -/
def content (r : Registry) (favicon : List UInt8) (method : HttpRequest.Method) :
    ArgList → Option (String × List UInt8)
  | [] => none
  | [name] => if name = ascii "favicon.ico" then some ("image/png", favicon) else none
  | module :: command :: args =>
      ((r module command).bind Prod.fst).map fun cb => ("text/plain", cb method args)

end Registry

end Muduo.System.Inspecting
