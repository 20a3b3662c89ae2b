import Muduo.Library.Loop
import Muduo.Library.OrderedMap
import Muduo.Library.Search
import Muduo.Net.Http.HttpResponse

/-! The inspector of a process: commands under names of modules, which are called by requests for
`/module/command/argument/...`. -/

namespace Muduo.Net

open Library HttpRequest

namespace Inspector

/-- An exception of `substr`, and a loop that does not end. -/
inductive Fault where
  | outOfRange
  | diverges
  deriving DecidableEq, Repr

/-! ### Splitting a path -/

/-- `str.find(c, pos)`, where `npos` is `none`. -/
def find (str : List UInt8) (c : UInt8) (pos : ℕ) : Option ℕ :=
  (search [c] (str.drop pos)).map (pos + ·)

/-- `str.substr(pos, n)`, where `npos` is `none`. -/
def substr (str : List UInt8) (pos : ℕ) (n : Option ℕ) : Except Fault (List UInt8) := do
  ensure (pos ≤ str.length) .outOfRange
  return (str.drop pos).take (n.getD str.length)

/-- The variables of `split`. -/
structure Split where
  result : List (List UInt8)
  start : ℕ
  pos : Option ℕ
  deriving DecidableEq, Repr

/-- `result.push_back(str.substr(start, n))`, under the condition of the `if`. -/
def pushBack (str : List UInt8) (s : Split) (cond : Bool) (n : Option ℕ) : Except Fault Split :=
  if cond then do
    let part ← substr str s.start n
    return { s with result := s.result ++ [part] }
  else
    .ok s

/-- A round of the loop. -/
def splitRound (str : List UInt8) (s : Split) : Except Fault Split :=
  match s.pos with
  | some pos => do
      let s ← pushBack str s (s.start < pos) (some (pos - s.start))
      return { s with start := pos + 1, pos := find str 47 (pos + 1) }
  | none => .ok s

/-- Each round finds a slash of its own, which bounds their number. -/
def split (str : List UInt8) : Except Fault (List (List UInt8)) := do
  let s ← boundedLoop (fun s : Split => s.pos ≠ none) (splitRound str) .diverges (str.length + 1)
    ⟨[], 0, find str 47 0⟩
  let s ← pushBack str s (s.start < str.length) none
  return s.result

/-! ### Commands -/

abbrev ArgList : Type := List (List UInt8)

/-- A `std::function`, which may be empty. -/
abbrev Callback : Type := Option (Method → ArgList → List UInt8)

abbrev CommandList : Type := OrderedMap (List UInt8) Callback

abbrev HelpList : Type := OrderedMap (List UInt8) (List UInt8)

end Inspector

open Inspector

structure Inspector where
  modules : OrderedMap (List UInt8) CommandList
  helps : OrderedMap (List UInt8) HelpList

namespace Inspector

def init : Inspector := ⟨.empty, .empty⟩

def add (i : Inspector) (module command : List UInt8) (cb : Callback) (help : List UInt8) :
    Inspector where
  modules := i.modules.set module (((i.modules.find module).getD .empty).set command cb)
  helps := i.helps.set module (((i.helps.find module).getD .empty).set command help)

def remove (i : Inspector) (module command : List UInt8) : Inspector :=
  match i.modules.find module with
  | some list =>
      { modules := i.modules.set module (list.erase command)
        helps := i.helps.set module (((i.helps.find module).getD .empty).erase command) }
  | none => i

/-- The line for a command on the page `/`. -/
def helpLine (module command help : List UInt8) : List UInt8 :=
  let len := module.length + command.length
  ascii "/" ++ module ++ ascii "/" ++ command ++
    List.replicate (if 25 ≤ len then 1 else 25 - len) 32 ++ help ++ ascii "\n"

def helpPage (i : Inspector) : List UInt8 :=
  i.helps.entries.flatMap fun list => list.2.entries.flatMap fun e => helpLine list.1 e.1 e.2

/-- The callback for a module and a command, if there is one that is not empty. -/
def callback (i : Inspector) (module command : List UInt8) :
    Option (Method → ArgList → List UInt8) :=
  match i.modules.find module with
  | some commList => (commList.find command).join
  | none => none

/-- The content of the response, with its type, to a path that has been split. -/
def content (i : Inspector) (favicon : List UInt8) (method : Method) :
    ArgList → Option (String × List UInt8)
  | [] => none
  | [module] => if module = ascii "favicon.ico" then some ("image/png", favicon) else none
  | module :: command :: args =>
      (i.callback module command).map fun cb => ("text/plain", cb method args)

/-- The bytes of the icon are an argument. -/
def onRequest (i : Inspector) (favicon : List UInt8) (req : HttpRequest) (resp : HttpResponse) :
    Except Fault HttpResponse :=
  if req.path = ascii "/" then
    .ok (resp.setStatusCode .k200Ok
      |>.setStatusMessage "OK"
      |>.setContentType "text/plain"
      |>.setBody i.helpPage)
  else do
    let result ← split req.path
    return match i.content favicon req.method result with
      | some (contentType, body) =>
          resp.setStatusCode .k200Ok
            |>.setStatusMessage "OK"
            |>.setContentType contentType
            |>.setBody body
      | none => (resp.setStatusCode .k404NotFound).setStatusMessage "Not Found"

/-! ### The commands of the library -/

/-- `ProcessInspector::registerCommands` and `SystemInspector::registerCommands`: modules,
commands and help. -/
def commands : List (String × String × String) :=
  [("proc", "overview", "print basic overview"),
    ("proc", "pid", "print pid"),
    ("proc", "status", "print /proc/self/status"),
    ("proc", "threads", "list /proc/self/task"),
    ("sys", "overview", "print system overview"),
    ("sys", "loadavg", "print /proc/loadavg"),
    ("sys", "version", "print /proc/version"),
    ("sys", "cpuinfo", "print /proc/cpuinfo"),
    ("sys", "meminfo", "print /proc/meminfo"),
    ("sys", "stat", "print /proc/stat")]

/-- What the functions of the library print is an argument. -/
def ctor (print : String → String → Method → ArgList → List UInt8) : Inspector :=
  commands.foldl (fun i c =>
    i.add (ascii c.1) (ascii c.2.1) (some (print c.1 c.2.1)) (ascii c.2.2)) init

end Inspector

end Muduo.Net
