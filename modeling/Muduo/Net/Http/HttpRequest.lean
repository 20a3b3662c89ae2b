import Muduo.Base.Literal
import Muduo.Net.Buffer
import Mathlib.Data.List.DropRight
import Mathlib.Logic.Function.Basic

/-! An HTTP request as the parser fills it in. The receive time is left out. -/

namespace Muduo.Net

open Library

/-- `isspace` in the C locale. -/
def isspace (c : UInt8) : Bool := c = 32 ∨ 9 ≤ c ∧ c ≤ 13

/-- Failed assertions, a parser that does not return, and the end of the process. -/
inductive HttpFault where
  | setMethod
  | buffer (fault : Buffer.Fault)
  | diverges
  | exit
  deriving DecidableEq, Repr

namespace HttpRequest

inductive Method where
  | kInvalid
  | kGet
  | kPost
  | kHead
  | kPut
  | kDelete
  deriving DecidableEq, Repr

inductive Version where
  | kUnknown
  | kHttp10
  | kHttp11
  deriving DecidableEq, Repr

end HttpRequest

open HttpRequest

structure HttpRequest where
  method : Method
  version : Version
  path : List UInt8
  query : List UInt8
  headers : List UInt8 → Option (List UInt8)

namespace HttpRequest

def init : HttpRequest where
  method := .kInvalid
  version := .kUnknown
  path := []
  query := []
  headers := fun _ => none

def parseMethod (m : List UInt8) : Method :=
  if m = ascii "GET" then .kGet
  else if m = ascii "POST" then .kPost
  else if m = ascii "HEAD" then .kHead
  else if m = ascii "PUT" then .kPut
  else if m = ascii "DELETE" then .kDelete
  else .kInvalid

/-- The assertion of `setMethod` says that no method was set before. -/
def setMethod (r : HttpRequest) (m : List UInt8) : Except HttpFault (Bool × HttpRequest) := do
  ensure (r.method = .kInvalid) .setMethod
  return (parseMethod m ≠ .kInvalid, { r with method := parseMethod m })

def methodString (r : HttpRequest) : List UInt8 :=
  match r.method with
  | .kGet => ascii "GET"
  | .kPost => ascii "POST"
  | .kHead => ascii "HEAD"
  | .kPut => ascii "PUT"
  | .kDelete => ascii "DELETE"
  | .kInvalid => ascii "UNKNOWN"

/-- Leading and trailing blanks of the value are dropped; a later value of the same
field replaces an earlier one. -/
def addHeader (r : HttpRequest) (field value : List UInt8) : HttpRequest :=
  let value := (value.dropWhile isspace).rdropWhile isspace
  { r with headers := Function.update r.headers field (some value) }

/-- The empty string stands for a field that is not there. -/
def getHeader (r : HttpRequest) (field : List UInt8) : List UInt8 := (r.headers field).getD []

end HttpRequest

end Muduo.Net
