import Mathlib.Logic.Function.Basic
import Muduo.Library.Run

/-! One end of a connection for remote procedure calls. -/

namespace Muduo.Net

open Library

namespace RpcMessage

inductive MessageType where
  | request
  | response
  | error
  deriving DecidableEq, Repr

inductive ErrorCode where
  | noError
  | wrongProto
  | noService
  | noMethod
  | invalidRequest
  | invalidResponse
  | timeout
  deriving DecidableEq, Repr

end RpcMessage

open RpcMessage

/-- The message of the wire protocol, in which `id` is a `fixed64`. An absent text or
request reads as the empty one. -/
structure RpcMessage where
  type : MessageType
  id : UInt64
  service : List UInt8
  method : List UInt8
  request : List UInt8
  response : Option (List UInt8)
  error : Option ErrorCode
  deriving DecidableEq, Repr

/-- What the library of protocol buffers does with the messages of the services:
`parseFromString r bytes` is what the object `r` holds after the call. -/
structure MessageLibrary (ρ : Type) where
  serializeAsString : ρ → List UInt8
  parseFromString : ρ → List UInt8 → ρ

/-- A method is found by its name, and parses its requests. -/
structure Service (ρ : Type) where
  findMethodByName : List UInt8 → Option (List UInt8 → Option ρ)

/-- The response object, whose contents are a `ρ`, and the closure; either may be null. -/
structure OutstandingCall (ρ κ : Type) where
  response : Option ρ
  done : Option κ
  deriving DecidableEq, Repr

structure RpcChannel (ρ κ : Type) where
  id : Int64
  outstandings : Int64 → Option (OutstandingCall ρ κ)
  services : Option (List UInt8 → Option (Service ρ))

namespace RpcChannel

/-- The assertion `has_response() || has_error()`. -/
inductive Fault where
  | noAnswer
  deriving DecidableEq, Repr

variable {ρ κ : Type}

def init (services : Option (List UInt8 → Option (Service ρ))) : RpcChannel ρ κ where
  id := 0
  outstandings := fun _ => none
  services := services

/-! ### `CallMethod`, whose three parts other threads can come between -/

/-- A `CallMethod` under way: its arguments and the `id` it has got. -/
structure Call (ρ κ : Type) where
  id : Int64
  service : List UInt8
  method : List UInt8
  request : List UInt8
  out : OutstandingCall ρ κ

/-- `id_.incrementAndGet()` -/
def incrementAndGet (ch : RpcChannel ρ κ) : Int64 × RpcChannel ρ κ :=
  (ch.id + 1, { ch with id := ch.id + 1 })

/-- `outstandings_[id] = out` -/
def register (ch : RpcChannel ρ κ) (call : Call ρ κ) : RpcChannel ρ κ :=
  { ch with outstandings := Function.update ch.outstandings call.id (some call.out) }

def Call.message (call : Call ρ κ) : RpcMessage where
  type := .request
  id := call.id.toUInt64
  service := call.service
  method := call.method
  request := call.request
  response := none
  error := none

/-! ### `onRpcMessage` -/

/-- The call is taken out under the lock; `{ NULL, NULL }` if there is none. -/
def takeOutstanding (ch : RpcChannel ρ κ) (id : Int64) : OutstandingCall ρ κ × RpcChannel ρ κ :=
  match ch.outstandings id with
  | some out => (out, { ch with outstandings := Function.update ch.outstandings id none })
  | none => (⟨none, none⟩, ch)

/-- The rest of the work on a response: the closure that is run, and what its response
object holds then. -/
def finishCall (lib : MessageLibrary ρ) (out : OutstandingCall ρ κ) (message : RpcMessage) :
    Option (κ × ρ) :=
  match out.response with
  | some response =>
      let response := match message.response with
        | some bytes => lib.parseFromString response bytes
        | none => response
      out.done.map (·, response)
  | none => none

/-- The request that a service is called with, or the error code. -/
def findRequest (ch : RpcChannel ρ κ) (message : RpcMessage) : Except ErrorCode ρ :=
  match ch.services with
  | some services =>
      match services message.service with
      | some service =>
          match service.findMethodByName message.method with
          | some parse =>
              match parse message.request with
              | some request => .ok request
              | none => .error .invalidRequest
          | none => .error .noMethod
      | none => .error .noService
  | none => .error .noService

/-- The answer to a request that no service was called for. -/
def errorResponse (message : RpcMessage) (error : ErrorCode) : RpcMessage where
  type := .response
  id := message.id
  service := []
  method := []
  request := []
  response := none
  error := some error

/-- The message that `doneCallback` sends. -/
def doneCallback (lib : MessageLibrary ρ) (response : ρ) (id : Int64) : RpcMessage where
  type := .response
  id := id.toUInt64
  service := []
  method := []
  request := []
  response := some (lib.serializeAsString response)
  error := none

/-- What is left to do when `onRpcMessage` is through with the members of the channel. -/
inductive Action (ρ κ : Type) where
  | finish (out : OutstandingCall ρ κ)
  | callMethod (request : ρ)
  | refuse (error : ErrorCode)
  | nothing

def onRpcMessage (ch : RpcChannel ρ κ) (message : RpcMessage) :
    Except Fault (RpcChannel ρ κ × Action ρ κ) :=
  match message.type with
  | .response => do
      ensure (message.response.isSome ∨ message.error.isSome) .noAnswer
      let (out, ch) := ch.takeOutstanding message.id.toInt64
      return (ch, .finish out)
  | .request =>
      match ch.findRequest message with
      | .ok request => .ok (ch, .callMethod request)
      | .error error => .ok (ch, .refuse error)
  | .error => .ok (ch, .nothing)

end RpcChannel

end Muduo.Net
