import Muduo.Net.Http.HttpContext

/-! The message callback of the HTTP server. -/

namespace Muduo.Net

open Library

/-- A connection of the server: its input buffer, its context, and what the server has
done on it so far: the requests it has answered, how often it has sent status 400, and the texts
it has written to the file for uploads, each in the place of the one before. -/
structure HttpServer where
  buffer : Buffer
  context : HttpContext
  requests : List HttpRequest
  badRequests : ℕ
  uploads : List (List UInt8)

namespace HttpServer

/-- `onConnection`, for a new connection. -/
def init : HttpServer where
  buffer := .init Buffer.kInitialSize
  context := .init
  requests := []
  badRequests := 0
  uploads := []

/-- `string s = buf->peek()`: everything up to the first zero, whether it is readable,
left over in the storage, or in the memory behind it. -/
def peekString (b : Buffer) (memory : List UInt8) : List UInt8 :=
  (b.buffer.drop b.peek ++ memory).takeWhile (· ≠ 0)

def contains (src sub : List UInt8) : Bool := (search sub src).isSome

/-- `memory` is what lies behind the storage of the buffer, and `opens` is whether the
file for uploads can be opened. -/
def onMessage (s : HttpServer) (memory : List UInt8) (opens : Bool) :
    Except HttpFault HttpServer := do
  if contains (peekString s.buffer memory) (ascii "shidu") then
    ensure (opens = true) .exit
    return { s with uploads := s.uploads ++ [peekString s.buffer memory] }
  else
    let (ok, context, buffer) ← s.context.parseRequest s.buffer
    let s := { s with
      context := context
      buffer := buffer
      badRequests := if ok then s.badRequests else s.badRequests + 1 }
    return if s.context.gotAll then
      { s with requests := s.requests ++ [s.context.request], context := s.context.reset }
    else s

/-- A fragment that `handleRead` has read, with the two circumstances of the call. -/
structure Fragment where
  data : List UInt8
  nonempty : data ≠ []
  memory : List UInt8
  opens : Bool

/-- `handleRead` when `readv` brings a fragment. -/
def deliver (s : HttpServer) (f : Fragment) : Except HttpFault HttpServer := do
  let (_, buffer) ← (s.buffer.readFd (.ok f.data)).mapError .buffer
  { s with buffer := buffer }.onMessage f.memory f.opens

end HttpServer

end Muduo.Net
