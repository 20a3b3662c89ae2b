import Mathlib.Data.List.Nodup
import Mathlib.Data.List.Perm.Basic
import Muduo.System.Rpc

/-! The calls of one endpoint and the work of the other on them, as one protocol: the
invariant, and what each step does to it. -/

namespace Muduo.System.Rpc

open Library Net
open RpcMessage (ErrorCode)
open RpcChannel (Call Fault finishCall errorResponse doneCallback)
open List (Perm)

variable {ρ κ : Type}

/-- The reply says what it was made of, and is for its request. -/
inductive Reply.Sound (lib : MessageLibrary ρ) : Reply ρ → Prop
  | produced (m : RpcMessage) (response : ρ) :
      Reply.Sound lib ⟨m, doneCallback lib response m.id.toInt64, .ok response⟩
  | refused (m : RpcMessage) (error : ErrorCode) :
      Reply.Sound lib ⟨m, errorResponse m error, .error error⟩

theorem Reply.Sound.id_eq {lib : MessageLibrary ρ} {r : Reply ρ} (h : r.Sound lib) :
    r.message.id = r.request.id := by
  cases h with
  | produced => rfl
  | refused => rfl

theorem Reply.Sound.type_eq {lib : MessageLibrary ρ} {r : Reply ρ} (h : r.Sound lib) :
    r.message.type = .response := by
  cases h with
  | produced => rfl
  | refused => rfl

theorem Reply.Sound.answers {lib : MessageLibrary ρ} {r : Reply ρ} (h : r.Sound lib) :
    r.message.response.isSome ∨ r.message.error.isSome := by
  cases h with
  | produced => exact .inl rfl
  | refused => exact .inr rfl

/-- `responses` are on their way to the client and `requests` on their way to the server.
Every request that was registered is in one place: not sent, under way, with a service, or
replied to; and the replies are those handled by the client and those under way to it. -/
structure Linked (lib : MessageLibrary ρ) (c : Client ρ κ) (responses : List RpcMessage)
    (v : Server ρ) (requests : List RpcMessage) : Prop where
  counter : c.channel.id.toInt = c.issued
  id_le : ∀ call ∈ c.calling ++ c.registered, call.id.toInt ≤ c.issued
  id_nodup : ((c.calling ++ c.registered).map (·.id)).Nodup
  nonnull : ∀ call ∈ c.calling ++ c.registered, call.out.response.isSome
  places : Perm
    (c.sending.map (·.message) ++ (requests ++ (v.pending ++ v.replies.map (·.request))))
    (c.registered.map (·.message))
  handled : Perm (v.replies.map (·.request) ++ v.pending) v.handled
  fifo : v.replies.map (·.message) = c.answered ++ responses
  sound : ∀ r ∈ v.replies, r.Sound lib
  outstandings : ∀ id out, c.channel.outstandings id = some out ↔
    (∃ call ∈ c.registered, call.id = id ∧ call.out = out) ∧ id.toUInt64 ∉ c.answered.map (·.id)
  handling : ∀ out m, c.handling = some (out, m) →
    (∃ call ∈ c.registered, call.id.toUInt64 = m.id ∧ call.out = out) ∧ m ∈ c.answered ∧
      m.id.toInt64 ∉ c.ran.map (·.id)
  ran_nodup : (c.ran.map (·.id)).Nodup
  ran : ∀ e ∈ c.ran, ∃ call ∈ c.registered, call.id = e.id ∧ ∃ m ∈ c.answered,
    m.id.toInt64 = e.id ∧ finishCall lib call.out m = some (e.done, e.response)

namespace Linked

variable {lib : MessageLibrary ρ} {c : Client ρ κ} {v : Server ρ}
  {responses requests : List RpcMessage}

theorem init (services : Option (List UInt8 → Option (Service ρ))) :
    Linked lib (Client.init services : Client ρ κ) [] ⟨[], [], []⟩ [] := by
  constructor <;> simp [Client.init, RpcChannel.init]

theorem perm_two_middle {α : Type} {x : α} {xs ys zs : List α} :
    Perm (xs ++ (ys ++ x :: zs)) (x :: (xs ++ (ys ++ zs))) :=
  (List.perm_middle.append_left xs).trans List.perm_middle

/-! ### What the invariant says about ids -/

theorem registered_nodup (h : Linked lib c responses v requests) :
    (c.registered.map (·.id)).Nodup := by
  have hnodup := h.id_nodup
  rw [List.map_append] at hnodup
  exact hnodup.of_append_right

theorem message_id_nodup (h : Linked lib c responses v requests) :
    ((c.registered.map (·.message)).map (·.id)).Nodup := by
  have hids : (c.registered.map (·.message)).map (·.id) =
      (c.registered.map (·.id)).map Int64.toUInt64 := by
    rw [List.map_map, List.map_map]
    rfl
  rw [hids]
  refine h.registered_nodup.map ?_
  intro x y hxy
  rw [← Int64.toInt64_toUInt64 x, hxy, Int64.toInt64_toUInt64]

theorem request_mem {r : Reply ρ} (h : Linked lib c responses v requests) (hr : r ∈ v.replies) :
    r.request ∈ c.registered.map (·.message) := by
  refine h.places.subset ?_
  refine List.mem_append_right _ (List.mem_append_right _ (List.mem_append_right _ ?_))
  exact List.mem_map_of_mem hr

/-- No two replies are for one call. -/
theorem reply_id_nodup (h : Linked lib c responses v requests) :
    ((v.replies.map (·.message)).map (·.id)).Nodup := by
  have hids : (v.replies.map (·.message)).map (·.id) = (v.replies.map (·.request)).map (·.id) := by
    rw [List.map_map, List.map_map]
    exact List.map_congr_left fun r hr => (h.sound r hr).id_eq
  have hall := (h.places.map (·.id)).nodup_iff.mpr h.message_id_nodup
  rw [List.map_append, List.map_append, List.map_append] at hall
  rw [hids]
  exact hall.of_append_right.of_append_right.of_append_right

/-- Calls are told apart by their ids. -/
theorem call_eq {x y : RpcMessage} (h : Linked lib c responses v requests)
    (hx : x ∈ c.registered.map (·.message)) (hy : y ∈ c.registered.map (·.message))
    (hid : x.id = y.id) : x = y :=
  List.inj_on_of_nodup_map h.message_id_nodup hx hy hid

theorem answered_registered (h : Linked lib c responses v requests) {m : RpcMessage}
    (hm : m ∈ c.answered ++ responses) : ∃ call ∈ c.registered, call.id.toUInt64 = m.id := by
  rw [← h.fifo] at hm
  obtain ⟨r, hr, rfl⟩ := List.mem_map.mp hm
  obtain ⟨call, hcall, hmessage⟩ := List.mem_map.mp (h.request_mem hr)
  refine ⟨call, hcall, ?_⟩
  rw [(h.sound r hr).id_eq, ← hmessage]
  rfl

theorem answers {m : RpcMessage} (h : Linked lib c (m :: responses) v requests) :
    m.response.isSome ∨ m.error.isSome := by
  have hm : m ∈ v.replies.map (·.message) := by
    rw [h.fifo]
    exact List.mem_append_right _ List.mem_cons_self
  obtain ⟨r, hr, rfl⟩ := List.mem_map.mp hm
  exact (h.sound r hr).answers

/-! ### The steps of the client -/

theorem next_id (h : Linked lib c responses v requests) (hlt : c.issued + 1 < 2 ^ 63) :
    (c.channel.id + 1).toInt = (c.issued + 1 : ℕ) := by
  rw [Int64.toInt_add, h.counter, Int64.toInt_one, Int.bmod_eq_of_le] <;> omega

theorem call (h : Linked lib c responses v requests) (hlt : c.issued + 1 < 2 ^ 63)
    (service method request : List UInt8) {out : OutstandingCall ρ κ} (hout : out.response.isSome) :
    Linked lib (c.call service method request out) responses v requests := by
  have hid := h.next_id hlt
  have hperm :
      Perm (c.calling ++ [⟨c.channel.id + 1, service, method, request, out⟩] ++ c.registered)
      (⟨c.channel.id + 1, service, method, request, out⟩ :: (c.calling ++ c.registered)) := by
    rw [List.append_assoc]
    exact List.perm_middle
  refine { h with
    counter := hid
    id_le := ?_
    id_nodup := ?_
    nonnull := ?_
    outstandings := h.outstandings }
  · intro call hcall
    rcases List.mem_cons.mp (hperm.subset hcall) with rfl | hcall
    · exact Int.le_of_eq hid
    · exact Int.le_trans (h.id_le call hcall) (Int.ofNat_le.mpr (Nat.le_succ _))
  · refine (hperm.map (·.id)).nodup_iff.mpr (List.nodup_cons.mpr ⟨?_, h.id_nodup⟩)
    intro hmem
    obtain ⟨call, hcall, heq⟩ := List.mem_map.mp hmem
    have hle := h.id_le call hcall
    rw [heq, hid] at hle
    omega
  · intro call hcall
    rcases List.mem_cons.mp (hperm.subset hcall) with rfl | hcall
    · exact hout
    · exact h.nonnull call hcall

/-- An id that was got but not registered is new to the map and to the replies. -/
theorem fresh {call : Call ρ κ} (h : Linked lib c responses v requests) (hcall : call ∈ c.calling) :
    (∀ other ∈ c.registered, other.id ≠ call.id) ∧ call.id.toUInt64 ∉ c.answered.map (·.id) := by
  have hnodup := h.id_nodup
  rw [List.map_append] at hnodup
  have hne : ∀ other ∈ c.registered, other.id ≠ call.id := fun other hother heq =>
    List.disjoint_of_nodup_append hnodup (List.mem_map_of_mem hcall)
      (heq ▸ List.mem_map_of_mem hother)
  refine ⟨hne, ?_⟩
  intro hmem
  obtain ⟨m, hm, hid⟩ := List.mem_map.mp hmem
  obtain ⟨other, hother, heq⟩ := h.answered_registered (List.mem_append_left _ hm)
  refine hne other hother ?_
  rw [← Int64.toInt64_toUInt64 other.id, heq, hid, Int64.toInt64_toUInt64]

theorem register (h : Linked lib c responses v requests) {i : ℕ} {call : Call ρ κ}
    (hi : c.calling[i]? = some call) : Linked lib (c.register i call) responses v requests := by
  obtain ⟨hlt, hget⟩ := List.getElem?_eq_some_iff.mp hi
  have hcall : call ∈ c.calling := hget ▸ List.getElem_mem hlt
  obtain ⟨hnew, hunanswered⟩ := h.fresh hcall
  have hperm : Perm (c.calling.eraseIdx i ++ (c.registered ++ [call]))
      (c.calling ++ c.registered) := by
    rw [← List.append_assoc]
    refine (List.perm_append_singleton call _).trans ?_
    exact (hget ▸ List.getElem_cons_eraseIdx_perm hlt).append_right c.registered
  have hmono : ∀ {x}, x ∈ c.registered → x ∈ c.registered ++ [call] := List.mem_append_left _
  refine { h with
    id_le := fun x hx => h.id_le x (hperm.subset hx)
    id_nodup := (hperm.map (·.id)).nodup_iff.mpr h.id_nodup
    nonnull := fun x hx => h.nonnull x (hperm.subset hx)
    places := ?_
    outstandings := ?_
    handling := ?_
    ran := ?_ }
  · simp only [Client.register, List.map_append, List.map_cons, List.map_nil, List.append_assoc,
      List.cons_append, List.nil_append]
    refine List.perm_middle.trans ((h.places.cons _).trans ?_)
    exact (List.perm_append_singleton _ _).symm
  · intro id out
    simp only [Client.register, RpcChannel.register]
    by_cases hid : id = call.id
    · subst hid
      rw [Function.update_self]
      constructor
      · intro hout
        cases hout
        exact ⟨⟨call, by simp, rfl, rfl⟩, hunanswered⟩
      · rintro ⟨⟨other, hother, heq, rfl⟩, -⟩
        rcases List.mem_append.mp hother with hother | hother
        · exact absurd heq (hnew other hother)
        · rw [List.mem_singleton.mp hother]
    · rw [Function.update_of_ne hid, h.outstandings]
      refine and_congr_left' ⟨fun ⟨x, hx, heq⟩ => ⟨x, hmono hx, heq⟩, ?_⟩
      rintro ⟨other, hother, heq, hout⟩
      rcases List.mem_append.mp hother with hother | hother
      · exact ⟨other, hother, heq, hout⟩
      · rw [List.mem_singleton.mp hother] at heq
        exact absurd heq.symm hid
  · intro out m hm
    obtain ⟨⟨x, hx, heq⟩, hrest⟩ := h.handling out m hm
    exact ⟨⟨x, hmono hx, heq⟩, hrest⟩
  · intro e he
    obtain ⟨x, hx, hrest⟩ := h.ran e he
    exact ⟨x, hmono hx, hrest⟩

theorem send (h : Linked lib c responses v requests) {i : ℕ} {call : Call ρ κ}
    (hi : c.sending[i]? = some call) :
    Linked lib { c with sending := c.sending.eraseIdx i } responses v
      (requests ++ [call.message]) := by
  obtain ⟨hlt, hget⟩ := List.getElem?_eq_some_iff.mp hi
  have hperm := (List.getElem_cons_eraseIdx_perm hlt).map (·.message)
  rw [hget, List.map_cons] at hperm
  refine { h with places := (Perm.trans ?_ (hperm.append_right _)).trans h.places }
  rw [List.append_assoc, List.cons_append, List.nil_append]
  exact perm_two_middle

/-- A response finds its call, which is out of the map from then on. -/
theorem respond {m : RpcMessage} (h : Linked lib c (m :: responses) v requests) :
    ∃ call ∈ c.registered, call.id.toUInt64 = m.id ∧
      c.channel.outstandings m.id.toInt64 = some call.out ∧
      Linked lib (c.respond { c.channel with
        outstandings := Function.update c.channel.outstandings m.id.toInt64 none } call.out m)
        responses v requests := by
  have hnodup := h.reply_id_nodup
  rw [h.fifo, List.map_append, List.map_cons] at hnodup
  have hnew : m.id ∉ c.answered.map (·.id) := by
    intro hmem
    exact List.disjoint_of_nodup_append hnodup hmem List.mem_cons_self
  obtain ⟨call, hcall, hid⟩ := h.answered_registered (List.mem_append_right _ List.mem_cons_self)
  have hid' : call.id = m.id.toInt64 := by rw [← hid, Int64.toInt64_toUInt64]
  have hfound : c.channel.outstandings m.id.toInt64 = some call.out :=
    (h.outstandings _ _).mpr ⟨⟨call, hcall, hid', rfl⟩, hnew⟩
  refine ⟨call, hcall, hid, hfound, { h with
    fifo := ?_
    outstandings := ?_
    handling := ?_
    ran := ?_ }⟩
  · rw [h.fifo, Client.respond, List.append_assoc]
    rfl
  · intro id out
    simp only [Client.respond, List.map_append, List.map_cons, List.map_nil]
    by_cases heq : id = m.id.toInt64
    · subst heq
      simp [Function.update_self]
    · have hne : id.toUInt64 ≠ m.id := by
        intro hid
        rw [← hid, Int64.toInt64_toUInt64] at heq
        exact heq rfl
      rw [Function.update_of_ne heq, h.outstandings, List.mem_append, List.mem_singleton,
        or_iff_left hne]
  · intro out m' heq
    cases heq
    refine ⟨⟨call, hcall, hid, rfl⟩, List.mem_append_right _ List.mem_cons_self, ?_⟩
    intro hmem
    obtain ⟨e, he, heq⟩ := List.mem_map.mp hmem
    obtain ⟨_, _, _, m', hm', hid', -⟩ := h.ran e he
    refine hnew (List.mem_map.mpr ⟨m', hm', ?_⟩)
    rw [← UInt64.toUInt64_toInt64 m'.id, hid', heq, UInt64.toUInt64_toInt64]
  · intro e he
    obtain ⟨x, hx, hxid, m', hm', hrest⟩ := h.ran e he
    exact ⟨x, hx, hxid, m', List.mem_append_left _ hm', hrest⟩

theorem finish {out : OutstandingCall ρ κ} {m : RpcMessage}
    (h : Linked lib c responses v requests) (hm : c.handling = some (out, m)) :
    Linked lib (c.finish lib out m) responses v requests := by
  obtain ⟨⟨call, hcall, hid, hout⟩, hanswered, hnew⟩ := h.handling out m hm
  rw [Client.finish]
  cases hfinish : finishCall lib out m with
  | none =>
      rw [Option.toList_none, List.map_nil, List.append_nil]
      exact { h with handling := nofun }
  | some event =>
      obtain ⟨done, r⟩ := event
      refine { h with handling := nofun, ran_nodup := ?_, ran := ?_ }
      · rw [List.map_append]
        exact h.ran_nodup.append (List.nodup_singleton _) (List.disjoint_singleton.mpr hnew)
      · intro e he
        rcases List.mem_append.mp he with he | he
        · exact h.ran e he
        · rw [List.mem_singleton.mp he]
          refine ⟨call, hcall, ?_, m, hanswered, rfl, hout ▸ hfinish⟩
          rw [← hid, Int64.toInt64_toUInt64]

/-! ### The steps of the server -/

theorem accept {m : RpcMessage} (h : Linked lib c responses v (m :: requests)) :
    Linked lib c responses (v.accept m) requests := by
  refine { h with places := Perm.trans ?_ h.places, handled := ?_ }
  · refine Perm.append_left _ ?_
    rw [Server.accept, List.append_assoc]
    exact perm_two_middle
  · rw [Server.accept, ← List.append_assoc]
    exact h.handled.append_right [m]

/-- A reply is sent for a request that leaves its place. -/
theorem reply {r : Reply ρ} {pending handled requests' : List RpcMessage}
    (h : Linked lib c responses v requests) (hr : r.Sound lib)
    (hplace : Perm (r.request :: (requests' ++ pending)) (requests ++ v.pending))
    (hhandled : Perm (r.request :: (v.replies.map (·.request) ++ pending)) handled) :
    Linked lib c (responses ++ [r.message]) ⟨pending, handled, v.replies ++ [r]⟩ requests' := by
  refine { h with
    places := Perm.trans (Perm.append_left _ ?_) h.places
    handled := Perm.trans ?_ hhandled
    fifo := ?_
    sound := ?_ }
  · simp only [List.map_append, List.map_cons, List.map_nil, ← List.append_assoc]
    exact (List.perm_append_singleton _ _).trans (hplace.append_right _)
  · rw [List.map_append, List.append_assoc]
    exact List.perm_middle
  · rw [List.map_append, h.fifo, List.append_assoc]
    rfl
  · intro r' hr'
    rcases List.mem_append.mp hr' with hr' | hr'
    · exact h.sound r' hr'
    · rwa [List.mem_singleton.mp hr']

theorem refuse {m : RpcMessage} (h : Linked lib c responses v (m :: requests)) (error : ErrorCode) :
    Linked lib c (responses ++ [errorResponse m error]) (v.refuse m error) requests :=
  h.reply (.refused m error) (.refl _)
    ((h.handled.cons m).trans (List.perm_append_singleton m _).symm)

theorem complete (h : Linked lib c responses v requests) {i : ℕ} {m : RpcMessage}
    (hi : v.pending[i]? = some m) (response : ρ) :
    Linked lib c (responses ++ [doneCallback lib response m.id.toInt64])
      (v.complete lib i m response) requests := by
  obtain ⟨hlt, hget⟩ := List.getElem?_eq_some_iff.mp hi
  have hperm := List.getElem_cons_eraseIdx_perm hlt
  rw [hget] at hperm
  refine h.reply (.produced m response) ?_ ?_
  · exact List.perm_middle.symm.trans (hperm.append_left _)
  · exact List.perm_middle.symm.trans ((hperm.append_left _).trans h.handled)

end Linked

end Muduo.System.Rpc
