import Muduo.Net.Http.HttpRequest

/-! The request parser of the HTTP server. -/

namespace Muduo.Net

open Library

namespace HttpContext

inductive HttpRequestParseState where
  | kExpectRequestLine
  | kExpectHeaders
  | kExpectBody
  | kGotAll
  deriving DecidableEq, Repr

end HttpContext

open HttpContext

structure HttpContext where
  state : HttpRequestParseState
  request : HttpRequest

namespace HttpContext

def init : HttpContext := ⟨.kExpectRequestLine, .init⟩

def gotAll (c : HttpContext) : Bool := c.state = .kGotAll

/-- The request is swapped with a fresh one, which is destroyed with what it got. -/
def reset (_ : HttpContext) : HttpContext where
  state := .kExpectRequestLine
  request := .init

/-- `std::find(start, end, c)`: what precedes the first `c`, and what follows it. -/
def splitAt (c : UInt8) (xs : List UInt8) : List UInt8 × Option (List UInt8) :=
  let (before, rest) := xs.span (· ≠ c)
  (before, rest.tail?)

/-- `setPath` and `setQuery`; the query starts with its question mark. -/
def processTarget (r : HttpRequest) (target : List UInt8) : HttpRequest :=
  match splitAt 63 target with
  | (path, some query) => { r with path := path, query := 63 :: query }
  | (_, none) => { r with path := target }

def processVersion (r : HttpRequest) (version : List UInt8) : Bool × HttpRequest :=
  if version.length = 8 ∧ version.dropLast = ascii "HTTP/1." then
    if version.getLast? = some 49 then (true, { r with version := .kHttp11 })
    else if version.getLast? = some 48 then (true, { r with version := .kHttp10 })
    else (false, r)
  else (false, r)

/-- The result also tells what a rejected line has left in the request. -/
def processRequestLine (r : HttpRequest) (line : List UInt8) :
    Except HttpFault (Bool × HttpRequest) :=
  match splitAt 32 line with
  | (_, none) => .ok (false, r)
  | (m, some rest) => do
      let (ok, r) ← r.setMethod m
      return if ok then
        match splitAt 32 rest with
        | (_, none) => (false, r)
        | (target, some version) => processVersion (processTarget r target) version
      else (false, r)

/-- One iteration of the loop in `parseRequest`: `ok`, `hasMore`, the parser and the
buffer. Nothing happens in the last two states, and `hasMore` stays. -/
def parseLine (c : HttpContext) (b : Buffer) :
    Except HttpFault (Bool × Bool × HttpContext × Buffer) :=
  match c.state with
  | .kExpectRequestLine =>
      match b.findCRLF with
      | some crlf => do
          let (ok, r) ← processRequestLine c.request (b.bytes b.peek crlf)
          if ok then
            let b ← (b.retrieveUntil (crlf + 2)).mapError .buffer
            return (true, true, ⟨.kExpectHeaders, r⟩, b)
          else
            return (false, false, { c with request := r }, b)
      | none => .ok (true, false, c, b)
  | .kExpectHeaders =>
      match b.findCRLF with
      | some crlf => do
          let (hasMore, c) :=
            match splitAt 58 (b.bytes b.peek crlf) with
            | (field, some value) => (true, { c with request := c.request.addHeader field value })
            | (_, none) => (false, { c with state := .kGotAll })
          let b ← (b.retrieveUntil (crlf + 2)).mapError .buffer
          return (true, hasMore, c, b)
      | none => .ok (true, false, c, b)
  | .kExpectBody => .ok (true, true, c, b)
  | .kGotAll => .ok (true, true, c, b)

def parseLoop : ℕ → HttpContext → Buffer → Except HttpFault (Bool × HttpContext × Buffer)
  | 0, _, _ => .error .diverges
  | fuel + 1, c, b => do
      let (ok, hasMore, c, b) ← c.parseLine b
      if hasMore then parseLoop fuel c b else return (ok, c, b)

/-- An iteration after which the loop goes on has taken a line, so a loop that returns
at all does so within this many iterations. -/
def parseRequest (c : HttpContext) (b : Buffer) : Except HttpFault (Bool × HttpContext × Buffer) :=
  parseLoop (b.readableBytes + 1) c b

end HttpContext

end Muduo.Net
