import Mathlib.Data.List.Forall2
import Muduo.System.Parsing
import Muduo.Verification.Http.Lines

/-! What the driver records does not depend on how the bytes are cut. -/

namespace Muduo.System.Parsing

open Library Net HttpContext

/-- A driver that waits for its next fragment, with these bytes unread. -/
structure Waiting (s : State) (buf : List UInt8) : Prop where
  ready : Ready s.context
  holds : s.buffer.Holds buf
  error : s.error = none
  nothing : s.undelivered = []

/-- From `s` the driver got to `s'`, as the decoder did: `outs` are the requests it
recorded, `e` tells whether it has stopped at an error. -/
structure Drove (s s' : State) (outs : List HttpRequest) (rest : List UInt8) (e : Option Unit) :
    Prop where
  holds : s'.buffer.Holds rest
  requests : s'.requests = s.requests ++ outs
  error : s'.error = e.map fun _ => s'.delivered - rest.length
  ready : e = none → Ready s'.context

theorem start_waiting : Waiting start [] where
  ready := init_ready
  holds := Buffer.init_holds _
  error := rfl
  nothing := rfl

theorem drive_drains {s : State} {bs : List UInt8} {fuel : ℕ} (hready : Ready s.context)
    (hb : s.buffer.Holds bs) (he : s.error = none) (hfuel : bs.length < fuel) :
    ∃ s' outs rest e, drive fuel s = .ok s' ∧
      decoder.Drains s.context bs outs s'.context rest e ∧ Drove s s' outs rest e ∧
      s'.delivered = s.delivered ∧ s'.undelivered = s.undelivered := by
  induction fuel generalizing s bs with
  | zero => exact absurd hfuel (Nat.not_lt_zero _)
  | succ fuel ih =>
      obtain ⟨ok, c', b', rest, hres, hb', hparsed⟩ := parseRequest_parsed hready hb
      rw [drive, hres, ok_bind]
      cases hparsed with
      | wait hd hready' =>
          simp only [if_true, hready'.not_gotAll]
          refine ⟨_, [], rest, none, rfl, hd.drains_none, ⟨hb', ?_, he, fun _ => hready'⟩, rfl, rfl⟩
          exact (List.append_nil _).symm
      | bad hd hstate =>
          refine ⟨_, [], rest, some (), rfl, hd.drains_none, ⟨hb', ?_, ?_, nofun⟩, rfl, rfl⟩
          · exact (List.append_nil _).symm
          · rw [hb'.readableBytes_eq]
            rfl
      | @got r _ hd =>
          have hshort : rest.length < fuel :=
            Nat.lt_of_lt_of_le hd.length_lt (Nat.le_of_lt_succ hfuel)
          obtain ⟨s', outs, rest', e, hdrive, hdrains, hdrove, hdel, hund⟩ :=
            ih (s := { s with context := .init, buffer := b', requests := s.requests ++ [r] })
              init_ready hb' he hshort
          refine ⟨s', r :: outs, rest', e, hdrive, hd.drains hdrains, ?_, hdel, hund⟩
          refine ⟨hdrove.holds, ?_, hdrove.error, hdrove.ready⟩
          rw [hdrove.requests, List.append_assoc]
          rfl

/-- A driver that has stopped keeps what it has. -/
theorem run_stopped {s : State} {offset : ℕ} (h : s.error = some offset)
    (frags : List (List UInt8)) :
    run deliver s frags = .ok { s with undelivered := s.undelivered ++ frags } := by
  induction frags generalizing s with
  | nil => rw [run_nil, List.append_nil]
  | cons frag frags ih =>
      have hstep : deliver s frag = .ok { s with undelivered := s.undelivered ++ [frag] } := by
        rw [deliver, h]
      rw [run_cons_of_ok hstep, ih (s := { s with undelivered := s.undelivered ++ [frag] }) h,
        List.append_assoc]
      rfl

theorem deliver_drains {s : State} {buf : List UInt8} (h : Waiting s buf) (frag : List UInt8) :
    ∃ s' outs rest e, deliver s frag = .ok s' ∧
      decoder.Drains s.context (buf ++ frag) outs s'.context rest e ∧ Drove s s' outs rest e ∧
      s'.delivered = s.delivered + frag.length ∧ s'.undelivered = [] := by
  obtain ⟨b, happend, hb⟩ := h.holds.append frag
  have hfuel : (buf ++ frag).length < b.readableBytes + 1 := by
    rw [hb.readableBytes_eq]
    exact Nat.lt_succ_self _
  obtain ⟨s', outs, rest, e, hrun, hdrains, hdrove, hdel, hund⟩ :=
    drive_drains (s := { s with buffer := b, delivered := s.delivered + frag.length })
      h.ready hb h.error hfuel
  refine ⟨s', outs, rest, e, ?_, hdrains, ⟨hdrove.holds, hdrove.requests, hdrove.error,
    hdrove.ready⟩, hdel, hund.trans h.nothing⟩
  rw [deliver, h.error]
  rw [h.error] at hrun
  simp only [happend, Except.mapError, ok_bind]
  exact hrun

theorem run_fed {s : State} {buf : List UInt8} (h : Waiting s buf) (frags : List (List UInt8)) :
    ∃ s' outs rest e, run deliver s frags = .ok s' ∧
      decoder.Fed s.context buf frags outs s'.context rest s'.undelivered e ∧
      Drove s s' outs rest e ∧
      s'.delivered + s'.undelivered.flatten.length = s.delivered + frags.flatten.length := by
  induction frags generalizing s buf with
  | nil =>
      refine ⟨s, [], buf, none, rfl, ?_, ⟨h.holds, (List.append_nil _).symm, h.error,
        fun _ => h.ready⟩, ?_⟩
      · rw [h.nothing]
        exact .nil
      · rw [h.nothing]
  | cons frag frags ih =>
      obtain ⟨s₁, outs, rest, e, hstep, hdrains, hdrove, hdel, hund⟩ := deliver_drains h frag
      rw [run_cons_of_ok hstep]
      cases e with
      | none =>
          have hwait : Waiting s₁ rest := ⟨hdrove.ready rfl, hdrove.holds, hdrove.error, hund⟩
          obtain ⟨s', outs', rest', e, hrun, hfed, hdrove', hlen⟩ := ih hwait
          refine ⟨s', outs ++ outs', rest', e, hrun, .fragment hdrains hfed, ?_, ?_⟩
          · refine ⟨hdrove'.holds, ?_, hdrove'.error, hdrove'.ready⟩
            rw [hdrove'.requests, hdrove.requests, List.append_assoc]
          · rw [hlen, hdel, List.flatten_cons, List.length_append, Nat.add_assoc]
      | some =>
          refine ⟨_, outs, rest, some (), run_stopped hdrove.error frags, ?_,
            ⟨hdrove.holds, hdrove.requests, hdrove.error, nofun⟩, ?_⟩
          · simp only [hund, List.nil_append]
            exact .stop hdrains
          · simp only [hdel, hund, List.nil_append, List.flatten_cons, List.length_append,
              Nat.add_assoc]

/-- The driver does with the fragments what the decoder does with their bytes. -/
theorem run_drains (frags : List (List UInt8)) :
    ∃ s e, run deliver start frags = .ok s ∧
      decoder.Drains init frags.flatten s.requests s.context
        (s.buffer.readable ++ s.undelivered.flatten) e ∧
      s.error = e.map fun _ =>
        frags.flatten.length - (s.buffer.readable ++ s.undelivered.flatten).length := by
  obtain ⟨s, outs, rest, e, hrun, hfed, hdrove, hlen⟩ := run_fed start_waiting frags
  refine ⟨s, e, hrun, ?_, ?_⟩
  · rw [hdrove.holds.readable_eq, hdrove.requests]
    exact hfed.drains (decoder_next_nil _)
  · have hlen : s.delivered + s.undelivered.flatten.length = frags.flatten.length := by
      rw [hlen]
      exact Nat.zero_add _
    rw [hdrove.error, hdrove.holds.readable_eq, List.length_append, ← hlen]
    simp only [Nat.add_sub_add_right]

/-- However a byte string is cut, the driver records the same requests, reports the same
error at the same offset, and is left with the same parser state and the same bytes. A
fresh parser produces each of the requests from bytes of its own. -/
theorem fragmentation_independent (frags : List (List UInt8)) :
    ∃ s t, run deliver start frags = .ok s ∧ run deliver start [frags.flatten] = .ok t ∧
      s.requests = t.requests ∧ s.error = t.error ∧ s.context = t.context ∧
      s.buffer.readable ++ s.undelivered.flatten = t.buffer.readable ++ t.undelivered.flatten ∧
      ∃ segs tail, frags.flatten = segs.flatten ++ tail ∧
        List.Forall₂ (fun seg r => ∀ b : Buffer, b.Holds seg →
          ∃ b', init.parseRequest b = .ok (true, ⟨.kGotAll, r⟩, b') ∧ b'.Holds [])
        segs s.requests := by
  obtain ⟨s, e, hs, hdrains, herror⟩ := run_drains frags
  obtain ⟨t, e', ht, hdrains', herror'⟩ := run_drains [frags.flatten]
  rw [List.flatten_singleton] at hdrains' herror'
  obtain ⟨hrequests, hcontext, hrest, rfl⟩ := hdrains.det hdrains'
  obtain ⟨segs, part, _, hsplit, -, hall⟩ := hdrains.segments decoder_restarts .nil
  refine ⟨s, t, hs, ht, hrequests, ?_, hcontext, hrest, segs, _, hsplit, hall.imp ?_⟩
  · rw [herror, herror', hrest]
  · intro seg r hseg b hb
    exact parseRequest_completes init_ready hseg (by rwa [List.append_nil])

end Muduo.System.Parsing
