import Mathlib.Logic.Function.Basic
import Mathlib.Data.Nat.Notation

/-! A TCP server: how it picks the loop and the name of a connection, and the map of the
connections it owns. -/

namespace Muduo.Net

/-- What `toIpPort` writes: an address of fewer than `INET6_ADDRSTRLEN` (46) characters,
a colon and a port of at most five digits. -/
def IpPort : Type := { text : List Char // text.length ≤ 51 }

/-- The members of `TcpServer` and of its `EventLoopThreadPool` that `newConnection` and
`removeConnectionInLoop` use. Loop `0` is the base loop, the loops of the pool are
`1, …, numThreads`. A connection is known by the number in its name. -/
structure TcpServer where
  name : List Char
  ipPort : IpPort
  numThreads : ℕ
  next : ℕ
  nextConnId : ℕ
  connections : List Char → Option ℕ

namespace TcpServer

def init (name : List Char) (ipPort : IpPort) (numThreads : ℕ) : TcpServer where
  name := name
  ipPort := ipPort
  numThreads := numThreads
  next := 0
  nextConnId := 1
  connections := fun _ => none

/-- `name_` and what `snprintf` leaves in `char buf[64]`, which has room for 63
characters. -/
def connName (s : TcpServer) (id : ℕ) : List Char :=
  s.name ++ ('-' :: s.ipPort.1 ++ '#' :: Nat.toDigits 10 id).take 63

/-- `EventLoopThreadPool::getNextLoop`: round-robin, or the base loop if there is no
other. -/
def getNextLoop (s : TcpServer) : ℕ × TcpServer :=
  if s.numThreads = 0 then
    (0, s)
  else
    (s.next + 1, { s with next := if s.numThreads ≤ s.next + 1 then 0 else s.next + 1 })

/-- The part of `newConnection` before the connection is started: the new connection, its
loop and its name. -/
def enter (s : TcpServer) : (ℕ × ℕ × List Char) × TcpServer :=
  let (ioLoop, s) := s.getNextLoop
  let id := s.nextConnId
  let name := s.connName id
  ((id, ioLoop, name),
    { s with
      nextConnId := id + 1
      connections := Function.update s.connections name (some id) })

/-- `connections_.erase(name)`, with the number of erased elements. -/
def erase (s : TcpServer) (name : List Char) : ℕ × TcpServer :=
  ((s.connections name).elim 0 fun _ => 1,
    { s with connections := Function.update s.connections name none })

end TcpServer

end Muduo.Net
