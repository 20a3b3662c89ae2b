import Mathlib.Algebra.Group.Nat.Defs
import Muduo.Net.Protorpc.RpcChannel

/-! Two channels joined by a first-in first-out link in each direction. Any number of
threads call methods at both ends, and services complete their calls at any later
moment and in any order. -/

namespace Muduo.System.Rpc

open Library Net
open RpcMessage (ErrorCode)
open RpcChannel (Call Fault finishCall errorResponse doneCallback)

/-- A closure that was run, and what its response object held. -/
structure Run (ρ κ : Type) where
  id : Int64
  done : κ
  response : ρ

/-- A response that was sent, the request it is for, and what it was made of: the response
of the service, or an error code. -/
structure Reply (ρ : Type) where
  request : RpcMessage
  message : RpcMessage
  outcome : Except ErrorCode ρ

/-- The side of an endpoint that calls. `calling` and `sending` are the calls that have
got an `id` and those that are registered but not sent; `handling` is a response whose
call has been taken out. The other fields record history. -/
structure Client (ρ κ : Type) where
  channel : RpcChannel ρ κ
  calling : List (Call ρ κ)
  sending : List (Call ρ κ)
  handling : Option (OutstandingCall ρ κ × RpcMessage)
  issued : ℕ
  registered : List (Call ρ κ)
  answered : List RpcMessage
  ran : List (Run ρ κ)

/-- The side that serves: `pending` are the requests whose closures services still hold. -/
structure Server (ρ : Type) where
  pending : List RpcMessage
  handled : List RpcMessage
  replies : List (Reply ρ)

/-- `inbox` are the messages on their way to the endpoint. -/
structure Endpoint (ρ κ : Type) where
  client : Client ρ κ
  server : Server ρ
  inbox : List RpcMessage

/-- The two endpoints. -/
abbrev State (ρ κ : Type) : Type := Bool → Endpoint ρ κ

inductive Label (ρ κ : Type) where
  | call (d : Bool) (service method request : List UInt8) (out : OutstandingCall ρ κ)
  | register (d : Bool) (i : ℕ)
  | send (d : Bool) (i : ℕ)
  | deliver (d : Bool)
  | finish (d : Bool)
  | done (d : Bool) (i : ℕ) (response : ρ)

variable {ρ κ : Type}

def Client.init (services : Option (List UInt8 → Option (Service ρ))) : Client ρ κ where
  channel := .init services
  calling := []
  sending := []
  handling := none
  issued := 0
  registered := []
  answered := []
  ran := []

def start (services : Bool → Option (List UInt8 → Option (Service ρ))) : State ρ κ :=
  fun d => ⟨.init (services d), ⟨[], [], []⟩, []⟩

namespace State

def set (s : State ρ κ) (d : Bool) (e : Endpoint ρ κ) : State ρ κ := Function.update s d e

/-- `codec_.send` at the other end: the message is on its way to `d`. -/
def post (s : State ρ κ) (d : Bool) (m : RpcMessage) : State ρ κ :=
  s.set d { s d with inbox := (s d).inbox ++ [m] }

end State

namespace Client

/-- `CallMethod` up to the increment of `id_`. -/
def call (c : Client ρ κ) (service method request : List UInt8) (out : OutstandingCall ρ κ) :
    Client ρ κ :=
  let (id, channel) := c.channel.incrementAndGet
  { c with
    channel := channel
    calling := c.calling ++ [⟨id, service, method, request, out⟩]
    issued := c.issued + 1 }

def register (c : Client ρ κ) (i : ℕ) (call : Call ρ κ) : Client ρ κ :=
  { c with
    channel := c.channel.register call
    calling := c.calling.eraseIdx i
    sending := c.sending ++ [call]
    registered := c.registered ++ [call] }

def respond (c : Client ρ κ) (channel : RpcChannel ρ κ) (out : OutstandingCall ρ κ)
    (m : RpcMessage) : Client ρ κ :=
  { c with
    channel := channel
    handling := some (out, m)
    answered := c.answered ++ [m] }

def finish (lib : MessageLibrary ρ) (c : Client ρ κ) (out : OutstandingCall ρ κ) (m : RpcMessage) :
    Client ρ κ :=
  { c with
    handling := none
    ran := c.ran ++ (finishCall lib out m).toList.map fun (done, r) => ⟨m.id.toInt64, done, r⟩ }

end Client

namespace Server

def accept (v : Server ρ) (m : RpcMessage) : Server ρ :=
  { v with pending := v.pending ++ [m], handled := v.handled ++ [m] }

def refuse (v : Server ρ) (m : RpcMessage) (error : ErrorCode) : Server ρ :=
  { v with
    handled := v.handled ++ [m]
    replies := v.replies ++ [⟨m, errorResponse m error, .error error⟩] }

def complete (lib : MessageLibrary ρ) (v : Server ρ) (i : ℕ) (m : RpcMessage) (response : ρ) :
    Server ρ :=
  { v with
    pending := v.pending.eraseIdx i
    replies := v.replies ++ [⟨m, doneCallback lib response m.id.toInt64, .ok response⟩] }

end Server

/-- A label that names nothing there is leaves the state alone. -/
def exec (lib : MessageLibrary ρ) (s : State ρ κ) : Label ρ κ → Except Fault (State ρ κ)
  | .call d service method request out =>
      .ok (s.set d { s d with client := (s d).client.call service method request out })
  | .register d i =>
      match (s d).client.calling[i]? with
      | some call => .ok (s.set d { s d with client := (s d).client.register i call })
      | none => .ok s
  | .send d i =>
      match (s d).client.sending[i]? with
      | some call =>
          let c := { (s d).client with sending := (s d).client.sending.eraseIdx i }
          .ok ((s.set d { s d with client := c }).post (!d) call.message)
      | none => .ok s
  | .deliver d =>
      match (s d).inbox with
      | m :: rest => do
          let (channel, action) ← (s d).client.channel.onRpcMessage m
          match action with
          | .finish out =>
              return s.set d { s d with
                client := (s d).client.respond channel out m
                inbox := rest }
          | .callMethod _ =>
              return s.set d { s d with
                server := (s d).server.accept m
                inbox := rest }
          | .refuse error =>
              let e := { s d with server := (s d).server.refuse m error, inbox := rest }
              return (s.set d e).post (!d) (errorResponse m error)
          | .nothing => return s.set d { s d with inbox := rest }
      | [] => .ok s
  | .finish d =>
      match (s d).client.handling with
      | some (out, m) => .ok (s.set d { s d with client := (s d).client.finish lib out m })
      | none => .ok s
  | .done d i response =>
      match (s d).server.pending[i]? with
      | some m =>
          let e := { s d with server := (s d).server.complete lib i m response }
          .ok ((s.set d e).post (!d) (doneCallback lib response m.id.toInt64))
      | none => .ok s

/-- Calls come with a response object, and there are fewer than `2 ^ 63` of them at either
end. A loop handles one message at a time. -/
def enabled (s : State ρ κ) : Label ρ κ → Bool
  | .call d _ _ _ out => out.response.isSome && (s d).client.issued + 1 < 2 ^ 63
  | .register d i => i < (s d).client.calling.length
  | .send d i => i < (s d).client.sending.length
  | .deliver d => !(s d).inbox.isEmpty && (s d).client.handling.isNone
  | .finish d => (s d).client.handling.isSome
  | .done d i _ => i < (s d).server.pending.length

end Muduo.System.Rpc
