import Muduo.Verification.Rpc.Linked

/-! Requests and responses are matched in every interleaving. -/

namespace Muduo.System.Rpc

open Library Net
open RpcMessage (ErrorCode)
open RpcChannel (Call Fault finishCall errorResponse doneCallback)
open List (Perm)

variable {ρ κ : Type} {lib : MessageLibrary ρ} {s : State ρ κ}

def responses (inbox : List RpcMessage) : List RpcMessage := inbox.filter (·.type = .response)

def requests (inbox : List RpcMessage) : List RpcMessage := inbox.filter (·.type = .request)

/-- The calls of `e` and the work of its peer on them. -/
def Joined (lib : MessageLibrary ρ) (e peer : Endpoint ρ κ) : Prop :=
  Linked lib e.client (responses e.inbox) peer.server (requests peer.inbox)

/-- Both endpoints call, and both serve. -/
def Inv (lib : MessageLibrary ρ) (s : State ρ κ) : Prop := ∀ d, Joined lib (s d) (s !d)

theorem inv_of {d : Bool} (h : Joined lib (s d) (s !d)) (h' : Joined lib (s !d) (s d)) :
    Inv lib s := by
  intro d'
  by_cases hd : d' = d
  · rw [hd]
    exact h
  · rw [Bool.eq_not_of_ne hd, Bool.not_not]
    exact h'

theorem Inv.peer (h : Inv lib s) (d : Bool) : Joined lib (s !d) (s d) := by
  have hpeer := h (!d)
  rwa [Bool.not_not] at hpeer

theorem set_self (s : State ρ κ) (d : Bool) (e : Endpoint ρ κ) : s.set d e d = e := by
  rw [State.set, Function.update_self]

theorem set_not (s : State ρ κ) (d : Bool) (e : Endpoint ρ κ) : s.set d e (!d) = s (!d) := by
  rw [State.set, Function.update_of_ne (by simp)]

theorem post_self (s : State ρ κ) (d : Bool) (m : RpcMessage) : s.post (!d) m d = s d := by
  rw [State.post, State.set, Function.update_of_ne (by simp)]

theorem post_not (s : State ρ κ) (d : Bool) (m : RpcMessage) :
    s.post (!d) m (!d) = { s (!d) with inbox := (s (!d)).inbox ++ [m] } := set_self _ _ _

/-- A step of one endpoint alone. -/
theorem Inv.set {d : Bool} {e : Endpoint ρ κ} (h : Joined lib e (s !d)) (h' : Joined lib (s !d) e) :
    Inv lib (s.set d e) := by
  refine inv_of (d := d) ?_ ?_
  · rwa [set_self, set_not]
  · rwa [set_self, set_not]

/-- A step of one endpoint that also sends a message to the other. -/
theorem Inv.set_post {d : Bool} {e : Endpoint ρ κ} {m : RpcMessage}
    (h : Joined lib e { s (!d) with inbox := (s (!d)).inbox ++ [m] })
    (h' : Joined lib { s (!d) with inbox := (s (!d)).inbox ++ [m] } e) :
    Inv lib ((s.set d e).post (!d) m) := by
  refine inv_of (d := d) ?_ ?_
  · rwa [post_self, post_not, set_self, set_not]
  · rwa [post_self, post_not, set_self, set_not]

/-! ### What is under way -/

theorem posted_request {m : RpcMessage} (hm : m.type = .request) (inbox : List RpcMessage) :
    responses (inbox ++ [m]) = responses inbox ∧
      requests (inbox ++ [m]) = requests inbox ++ [m] := by
  simp [responses, requests, hm]

theorem posted_response {m : RpcMessage} (hm : m.type = .response) (inbox : List RpcMessage) :
    responses (inbox ++ [m]) = responses inbox ++ [m] ∧
      requests (inbox ++ [m]) = requests inbox := by
  simp [responses, requests, hm]

theorem under_way_response {m : RpcMessage} (hm : m.type = .response) (rest : List RpcMessage) :
    responses (m :: rest) = m :: responses rest ∧ requests (m :: rest) = requests rest := by
  simp [responses, requests, hm]

theorem under_way_request {m : RpcMessage} (hm : m.type = .request) (rest : List RpcMessage) :
    responses (m :: rest) = responses rest ∧ requests (m :: rest) = m :: requests rest := by
  simp [responses, requests, hm]

theorem under_way_error {m : RpcMessage} (hm : m.type = .error) (rest : List RpcMessage) :
    responses (m :: rest) = responses rest ∧ requests (m :: rest) = requests rest := by
  simp [responses, requests, hm]

/-! ### Steps -/

theorem exec_send (h : Inv lib s) (d : Bool) (i : ℕ) :
    ∃ s', exec lib s (.send d i) = .ok s' ∧ Inv lib s' := by
  cases hi : (s d).client.sending[i]? with
  | none => exact ⟨s, by simp only [exec, hi], h⟩
  | some call =>
      refine ⟨_, by simp only [exec, hi]; rfl, Inv.set_post ?_ ?_⟩
      · rw [Joined, (posted_request rfl _).2]
        exact (h d).send hi
      · rw [Joined, (posted_request rfl _).1]
        exact h.peer d

theorem exec_done (h : Inv lib s) (d : Bool) (i : ℕ) (response : ρ) :
    ∃ s', exec lib s (.done d i response) = .ok s' ∧ Inv lib s' := by
  cases hi : (s d).server.pending[i]? with
  | none => exact ⟨s, by simp only [exec, hi], h⟩
  | some m =>
      refine ⟨_, by simp only [exec, hi]; rfl, Inv.set_post ?_ ?_⟩
      · rw [Joined, (posted_response rfl _).2]
        exact h d
      · rw [Joined, (posted_response rfl _).1]
        exact (h.peer d).complete hi response

theorem onRpcMessage_response {ch : RpcChannel ρ κ} {m : RpcMessage} {out : OutstandingCall ρ κ}
    (hm : m.type = .response) (hanswers : m.response.isSome ∨ m.error.isSome)
    (hout : ch.outstandings m.id.toInt64 = some out) :
    ch.onRpcMessage m = .ok ({ ch with
      outstandings := Function.update ch.outstandings m.id.toInt64 none }, .finish out) := by
  rw [RpcChannel.onRpcMessage, hm]
  simp only [ensure_of _ hanswers, ok_bind, RpcChannel.takeOutstanding, hout]
  rfl

theorem exec_deliver (h : Inv lib s) (d : Bool) :
    ∃ s', exec lib s (.deliver d) = .ok s' ∧ Inv lib s' := by
  cases hin : (s d).inbox with
  | nil => exact ⟨s, by simp only [exec, hin], h⟩
  | cons m rest =>
      have hclient := h d
      have hserver := h.peer d
      rw [Joined, hin] at hclient hserver
      cases hm : m.type with
      | response =>
          rw [(under_way_response hm rest).1] at hclient
          rw [(under_way_response hm rest).2] at hserver
          obtain ⟨call, -, -, hout, hrespond⟩ := hclient.respond
          have hon := onRpcMessage_response hm hclient.answers hout
          refine ⟨_, by simp only [exec, hin, hon, ok_bind]; rfl, Inv.set ?_ ?_⟩
          · exact hrespond
          · exact hserver
      | request =>
          rw [(under_way_request hm rest).1] at hclient
          rw [(under_way_request hm rest).2] at hserver
          cases hfind : (s d).client.channel.findRequest m with
          | ok request =>
              have hon : (s d).client.channel.onRpcMessage m =
                  .ok ((s d).client.channel, .callMethod request) := by
                rw [RpcChannel.onRpcMessage, hm]
                simp only [hfind]
              refine ⟨_, by simp only [exec, hin, hon, ok_bind]; rfl, Inv.set ?_ ?_⟩
              · exact hclient
              · exact hserver.accept
          | error error =>
              have hon : (s d).client.channel.onRpcMessage m =
                  .ok ((s d).client.channel, .refuse error) := by
                rw [RpcChannel.onRpcMessage, hm]
                simp only [hfind]
              refine ⟨_, by simp only [exec, hin, hon, ok_bind]; rfl, Inv.set_post ?_ ?_⟩
              · rw [Joined, (posted_response rfl _).2]
                exact hclient
              · rw [Joined, (posted_response rfl _).1]
                exact hserver.refuse error
      | error =>
          rw [(under_way_error hm rest).1] at hclient
          rw [(under_way_error hm rest).2] at hserver
          have hon : (s d).client.channel.onRpcMessage m =
              .ok ((s d).client.channel, .nothing) := by
            rw [RpcChannel.onRpcMessage, hm]
          refine ⟨_, by simp only [exec, hin, hon, ok_bind]; rfl, Inv.set ?_ ?_⟩
          · exact hclient
          · exact hserver

theorem exec_inv (s : State ρ κ) (l : Label ρ κ) (h : Inv lib s) (hl : enabled s l = true) :
    ∃ s', exec lib s l = .ok s' ∧ Inv lib s' := by
  cases l with
  | call d service method request out =>
      simp only [enabled, Bool.and_eq_true, decide_eq_true_eq] at hl
      refine ⟨_, rfl, Inv.set ?_ ?_⟩
      · exact (h d).call hl.2 service method request hl.1
      · exact h.peer d
  | register d i =>
      cases hi : (s d).client.calling[i]? with
      | none => exact ⟨s, by simp only [exec, hi], h⟩
      | some call =>
          refine ⟨_, by simp only [exec, hi]; rfl, Inv.set ?_ ?_⟩
          · exact (h d).register hi
          · exact h.peer d
  | send d i => exact exec_send h d i
  | deliver d => exact exec_deliver h d
  | finish d =>
      cases hm : (s d).client.handling with
      | none => exact ⟨s, by simp only [exec, hm], h⟩
      | some call =>
          refine ⟨_, by simp only [exec, hm]; rfl, Inv.set ?_ ?_⟩
          · exact (h d).finish hm
          · exact h.peer d
  | done d i response => exact exec_done h d i response

theorem start_inv (services : Bool → Option (List UInt8 → Option (Service ρ))) :
    Inv lib (start services : State ρ κ) := fun d => Linked.init (services d)

/-! ### Correlation -/

/-- What a response object holds after the reply, if it held `r` before. -/
def Reply.leaves (lib : MessageLibrary ρ) (reply : Reply ρ) (r : ρ) : ρ :=
  match reply.outcome with
  | .ok response => lib.parseFromString r (lib.serializeAsString response)
  | .error _ => r

/-- The calls that `e` has made to its peer, and what has become of them. -/
structure Correlated (lib : MessageLibrary ρ) (e peer : Endpoint ρ κ) : Prop where
  /-- Every request that was handled is with a service or has one response. -/
  one_response : Perm (peer.server.replies.map (·.request) ++ peer.server.pending)
    peer.server.handled
  handled_once : (peer.server.handled.map (·.id)).Nodup
  /-- The response carries the id of its request. -/
  response_id : ∀ reply ∈ peer.server.replies,
    reply.message.type = .response ∧ reply.message.id = reply.request.id
  /-- Every response sent was handled or is under way. -/
  sent : peer.server.replies.map (·.message) = e.client.answered ++ responses e.inbox
  closure_once : (e.client.ran.map (·.id)).Nodup
  /-- A closure was run on a response with its own id that was handled, and its response
  object is as the reply to its own request leaves it. -/
  closure : ∀ x ∈ e.client.ran, ∃ call ∈ e.client.registered, ∃ reply ∈ peer.server.replies, ∃ r,
    call.id = x.id ∧ call.out = ⟨some r, some x.done⟩ ∧ reply.request = call.message ∧
    reply.message ∈ e.client.answered ∧ reply.message.id = call.id.toUInt64 ∧
    x.response = reply.leaves lib r
  /-- The map holds the calls that are registered and not answered. -/
  outstandings : ∀ id out, e.client.channel.outstandings id = some out ↔
    (∃ call ∈ e.client.registered, call.id = id ∧ call.out = out) ∧
      id.toUInt64 ∉ e.client.answered.map (·.id)
  /-- Any other response changes nothing and runs nothing. -/
  stray : ∀ m : RpcMessage, m.type = .response → m.response.isSome ∨ m.error.isSome →
    (∀ call ∈ e.client.registered, call.id ≠ m.id.toInt64) ∨ m.id ∈ e.client.answered.map (·.id) →
    ∃ out, e.client.channel.onRpcMessage m = .ok (e.client.channel, .finish out) ∧
      finishCall lib out m = none

theorem finishCall_some {out : OutstandingCall ρ κ} {m : RpcMessage} {done : κ} {response : ρ}
    (h : finishCall lib out m = some (done, response)) :
    ∃ r, out = ⟨some r, some done⟩ ∧
      response = match m.response with
        | some bytes => lib.parseFromString r bytes
        | none => r := by
  obtain ⟨r | r, done'⟩ := out
  · cases h
  · obtain ⟨done'', hdone, heq⟩ := Option.map_eq_some_iff.mp h
    cases heq
    cases hdone
    exact ⟨r, rfl, rfl⟩

theorem Reply.Sound.leaves {reply : Reply ρ} (h : reply.Sound lib) (r : ρ) :
    (match reply.message.response with
      | some bytes => lib.parseFromString r bytes
      | none => r) = reply.leaves lib r := by
  cases h with
  | produced => rfl
  | refused => rfl

theorem Linked.handled_nodup {c : Client ρ κ} {v : Server ρ} {rs qs : List RpcMessage}
    (h : Linked lib c rs v qs) : (v.handled.map (·.id)).Nodup := by
  have hall := (h.places.map (·.id)).nodup_iff.mpr h.message_id_nodup
  rw [List.map_append, List.map_append] at hall
  have hserver := hall.of_append_right.of_append_right
  exact ((List.perm_append_comm.trans h.handled).map (·.id)).nodup_iff.mp hserver

theorem Linked.closure {c : Client ρ κ} {v : Server ρ} {rs qs : List RpcMessage}
    (h : Linked lib c rs v qs) {x : Run ρ κ} (hx : x ∈ c.ran) :
    ∃ call ∈ c.registered, ∃ reply ∈ v.replies, ∃ r,
      call.id = x.id ∧ call.out = ⟨some r, some x.done⟩ ∧ reply.request = call.message ∧
      reply.message ∈ c.answered ∧ reply.message.id = call.id.toUInt64 ∧
      x.response = reply.leaves lib r := by
  obtain ⟨call, hcall, hid, m, hm, hmid, hfinish⟩ := h.ran x hx
  have hsent : m ∈ v.replies.map (·.message) := by
    rw [h.fifo]
    exact List.mem_append_left _ hm
  obtain ⟨reply, hreply, rfl⟩ := List.mem_map.mp hsent
  obtain ⟨r, hout, hresponse⟩ := finishCall_some hfinish
  have hwire : reply.message.id = call.id.toUInt64 := by
    rw [hid, ← hmid, UInt64.toUInt64_toInt64]
  refine ⟨call, hcall, reply, hreply, r, hid, hout, ?_, hm, hwire, ?_⟩
  · refine h.call_eq (h.request_mem hreply) (List.mem_map_of_mem hcall) ?_
    rw [← (h.sound reply hreply).id_eq, hwire]
    rfl
  · rw [hresponse, (h.sound reply hreply).leaves]

theorem Linked.stray {c : Client ρ κ} {v : Server ρ} {rs qs : List RpcMessage}
    (h : Linked lib c rs v qs) {m : RpcMessage} (hm : m.type = .response)
    (hanswers : m.response.isSome ∨ m.error.isSome)
    (hstray : (∀ call ∈ c.registered, call.id ≠ m.id.toInt64) ∨ m.id ∈ c.answered.map (·.id)) :
    ∃ out, c.channel.onRpcMessage m = .ok (c.channel, .finish out) ∧
      finishCall lib out m = none := by
  have hnone : c.channel.outstandings m.id.toInt64 = none := by
    cases hout : c.channel.outstandings m.id.toInt64 with
    | none => rfl
    | some out =>
        obtain ⟨⟨call, hcall, hid, -⟩, hnew⟩ := (h.outstandings _ _).mp hout
        rcases hstray with hunknown | hanswered
        · exact absurd hid (hunknown call hcall)
        · exact absurd hanswered hnew
  refine ⟨⟨none, none⟩, ?_, rfl⟩
  rw [RpcChannel.onRpcMessage, hm]
  simp only [ensure_of _ hanswers, ok_bind, RpcChannel.takeOutstanding, hnone]
  rfl

theorem Joined.correlated {e peer : Endpoint ρ κ} (h : Joined lib e peer) :
    Correlated lib e peer where
  one_response := h.handled
  handled_once := h.handled_nodup
  response_id := fun reply hreply => ⟨(h.sound reply hreply).type_eq, (h.sound reply hreply).id_eq⟩
  sent := h.fifo
  closure_once := h.ran_nodup
  closure := fun _ hx => h.closure hx
  outstandings := h.outstandings
  stray := fun _ hm hanswers hstray => h.stray hm hanswers hstray

/-- In every interleaving no assertion fails, and in the state reached the calls of each
endpoint are correlated with the work of the other. -/
theorem calls_correlated (lib : MessageLibrary ρ)
    (services : Bool → Option (List UInt8 → Option (Service ρ))) (ls : List (Label ρ κ))
    (hl : LegalRun (exec lib) (fun s l => enabled s l = true) (start services) ls) :
    ∃ s, run (exec lib) (start services) ls = .ok s ∧ ∀ d, Correlated lib (s d) (s !d) := by
  obtain ⟨s, hrun, hinv⟩ := run_invariant exec_inv (start_inv services) hl
  exact ⟨s, hrun, fun d => (hinv d).correlated⟩

/-- Messages that are their own serialisation. -/
def rawLibrary : MessageLibrary (List UInt8) := ⟨id, fun _ bytes => bytes⟩

/-- The second endpoint serves the method 2 of the service 1. -/
def oneService (d : Bool) : Option (List UInt8 → Option (Service (List UInt8))) :=
  if d then
    some fun service => if service = [1] then
      some ⟨fun method => if method = [2] then some some else none⟩
    else none
  else none

/-- Three calls, one of them of an unknown service, are answered out of order. -/
def threeCalls : List (Label (List UInt8) ℕ) :=
  [.call false [1] [2] [10] ⟨some [], some 0⟩, .call false [1] [2] [20] ⟨some [], some 1⟩,
    .call false [3] [2] [30] ⟨some [], some 2⟩,
    .register false 1, .send false 0, .register false 0, .register false 0, .send false 1,
    .send false 0, .deliver true, .deliver true, .deliver true,
    .deliver false, .finish false, .done true 0 [21], .done true 0 [11],
    .deliver false, .finish false, .deliver false, .finish false]

theorem calls_correlated_three :
    ∃ s, run (exec rawLibrary) (start oneService) threeCalls = .ok s ∧
      ∀ d, Correlated rawLibrary (s d) (s !d) :=
  calls_correlated rawLibrary oneService threeCalls (by decide +kernel)

-- The closures run in the order of the answers, each with the answer to its own call.
example : ∃ s, run (exec rawLibrary) (start oneService) threeCalls = .ok s ∧
    (s false).client.ran.map (fun x => (x.done, x.response)) = [(2, []), (1, [21]), (0, [11])] := by
  decide +kernel

end Muduo.System.Rpc
