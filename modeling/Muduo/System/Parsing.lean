import Muduo.Net.Http.HttpContext

/-! A driver of the HTTP parser that takes every complete request out of its buffer and
stops for good at the first error. -/

namespace Muduo.System.Parsing

open Library Net

/-- `error` is the offset in the byte stream at which the error was reported, and
`delivered` counts the bytes appended to the buffer. -/
structure State where
  context : HttpContext
  buffer : Buffer
  requests : List HttpRequest
  error : Option ℕ
  delivered : ℕ
  undelivered : List (List UInt8)

def start : State where
  context := .init
  buffer := .init Buffer.kInitialSize
  requests := []
  error := none
  delivered := 0
  undelivered := []

/-- The requests that are complete; each takes bytes, which bounds the iterations. -/
def drive : ℕ → State → Except HttpFault State
  | 0, _ => .error .diverges
  | fuel + 1, s => do
      let (ok, context, buffer) ← s.context.parseRequest s.buffer
      if ok then
        if context.gotAll then
          drive fuel { s with
            context := context.reset
            buffer := buffer
            requests := s.requests ++ [context.request] }
        else
          return { s with context := context, buffer := buffer }
      else
        return { s with
          context := context
          buffer := buffer
          error := some (s.delivered - buffer.readableBytes) }

/-- A fragment that comes after an error is not delivered. -/
def deliver (s : State) (fragment : List UInt8) : Except HttpFault State :=
  match s.error with
  | some _ => .ok { s with undelivered := s.undelivered ++ [fragment] }
  | none => do
      let buffer ← (s.buffer.append fragment).mapError .buffer
      drive (buffer.readableBytes + 1) { s with
        buffer := buffer
        delivered := s.delivered + fragment.length }

end Muduo.System.Parsing
