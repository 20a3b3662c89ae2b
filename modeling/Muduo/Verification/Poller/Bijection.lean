import Muduo.Verification.Poller.Standing
import Mathlib.Data.Set.Function

/-! The poller over `poll(2)`: the array and the map stay in bijection, and the channels with
events are found, as long as no channel is used again after its removal. -/

namespace Muduo.System.Polling

open Library Net PollPoller

/-! ### The map outside the channel of a step -/

theorem channels_updateChannel {p p' : PollPoller} {c c' : Channel}
    (h : p.updateChannel c = .ok (p', c')) {f : ℤ} (hf : f ≠ c.fd) :
    p'.channels f = p.channels f := by
  unfold PollPoller.updateChannel at h
  split_ifs at h
  · obtain ⟨-, h⟩ := of_ensure_bind h
    obtain ⟨rfl, -⟩ := Prod.mk.inj (Except.ok.inj h)
    exact Function.update_of_ne hf _ _
  · obtain ⟨-, h⟩ := of_ensure_bind h
    cases hpfd : p.pollfds[c.index.toNat]? with
    | none =>
        rw [hpfd] at h
        cases h
    | some pfd =>
        rw [hpfd] at h
        obtain ⟨-, h⟩ := of_ensure_bind h
        obtain ⟨rfl, -⟩ := Prod.mk.inj (Except.ok.inj h)
        rfl

theorem channels_removeChannel {p p' : PollPoller} {heap heap' : ℕ → Channel} {c : Channel}
    (h : p.removeChannel heap c = .ok (p', heap')) {f : ℤ} (hf : f ≠ c.fd) :
    p'.channels f = p.channels f := by
  unfold PollPoller.removeChannel at h
  obtain ⟨-, h⟩ := of_ensure_bind h
  obtain ⟨-, h⟩ := of_ensure_bind h
  obtain ⟨-, h⟩ := of_ensure_bind h
  dsimp only at h
  cases hpfd : p.pollfds[c.index.toNat]? with
  | none =>
      rw [hpfd] at h
      cases h
  | some pfd =>
      cases hback : p.pollfds.getLast? with
      | none =>
          rw [hpfd, hback] at h
          cases h
      | some back =>
          rw [hpfd, hback] at h
          obtain ⟨-, h⟩ := of_ensure_bind h
          by_cases hlast : c.index.toNat = p.pollfds.length - 1
          · rw [if_pos hlast] at h
            obtain ⟨rfl, -⟩ := Prod.mk.inj (Except.ok.inj h)
            exact Function.update_of_ne hf _ _
          · rw [if_neg hlast] at h
            cases hend : Function.update p.channels c.fd none
                (if back.fd < 0 then ignored back.fd else back.fd) with
            | none =>
                rw [hend] at h
                cases h
            | some address =>
                rw [hend] at h
                obtain ⟨rfl, -⟩ := Prod.mk.inj (Except.ok.inj h)
                exact Function.update_of_ne hf _ _

variable {live : ℕ → Prop} {fd : ℕ → ℤ} {st : ℕ → Standing}

theorem channels_exec {t t' : State PollPoller} {l : Label} (h : exec poll t l = .ok t') {f : ℤ}
    (hf : f ≠ (t.heap l.channel).fd) : t'.poller.channels f = t.poller.channels f := by
  cases l with
  | update u a =>
      simp only [exec, poll, Function.update_self] at h
      obtain ⟨⟨p, heap⟩, hpoller, h⟩ := of_bind h
      obtain ⟨⟨p₁, c⟩, hupdate, hpair⟩ := of_bind (of_mapError hpoller)
      obtain ⟨rfl, -⟩ := Prod.mk.inj (Except.ok.inj hpair)
      obtain rfl := Except.ok.inj h
      exact channels_updateChannel hupdate hf
  | remove a =>
      simp only [exec, poll, Function.update_self] at h
      obtain ⟨-, h⟩ := of_ensure_bind h
      obtain ⟨⟨p, heap⟩, hpoller, h⟩ := of_bind h
      obtain rfl := Except.ok.inj h
      exact channels_removeChannel (of_mapError hpoller) hf

/-! ### The states between the steps -/

/-- Every registered channel has its entry, and the ones that are watched have events. -/
structure PollRegistered (live : ℕ → Prop) (fd : ℕ → ℤ) (st : ℕ → Standing)
    (t : Session PollPoller) : Prop where
  polled : Polled live fd st t.state
  registered : ∀ a, live a → (t.registered a = true ↔ st a = .watched ∨ st a = .ignored)
  masked : ∀ a, live a → st a = .watched → (t.state.heap a).events ≠ Channel.kNoneEvent
  strangers : ∀ f, (∀ a, live a → fd a ≠ f) → t.state.poller.channels f = none

theorem start_pollRegistered (live : ℕ → Prop) (fd : ℕ → ℤ) :
    PollRegistered live fd (fun _ => .fresh) (.start .init fd) where
  polled := start_polled live fd
  registered _ _ := by simp [Session.start]
  masked _ _ h := by cases h
  strangers _ _ := rfl

section

variable {t : Session PollPoller}

theorem PollRegistered.strangers_exec (h : PollRegistered live fd st t) {l : Label}
    {t' : State PollPoller} (hexec : exec poll t.state l = .ok t') (hl : live l.channel) :
    ∀ f, (∀ a, live a → fd a ≠ f) → t'.poller.channels f = none := by
  intro f hf
  have hother : f ≠ (t.state.heap l.channel).fd := by
    rw [(h.polled.placed _ hl).2]
    exact (hf _ hl).symm
  rw [channels_exec hexec hother]
  exact h.strangers f hf

/-- An update that leaves the channel in the standing that its mask says. -/
theorem PollRegistered.of_update (h : PollRegistered live fd st t) {a : ℕ} (ha : live a)
    {u : Update} {t' : State PollPoller} (hexec : exec poll t.state (.update u a) = .ok t')
    (hpolled : Polled live fd
      (Function.update st a (.entered (u.mask (t.state.heap a).events))) t')
    (hevents : ∀ b, (t'.heap b).events =
      if b = a then u.mask (t.state.heap a).events else (t.state.heap b).events) :
    PollRegistered live fd (Function.update st a (.entered (u.mask (t.state.heap a).events)))
      ⟨t', Session.registeredAfter t.registered (.update u a)⟩ where
  polled := hpolled
  registered := registered_update h.registered (Standing.isKnown_entered _) u
  masked b hb := by
    dsimp only
    rw [hevents b]
    by_cases hne : b = a
    · subst hne
      rw [Function.update_self, if_pos rfl, Standing.entered]
      split_ifs with hnone
      · exact fun hst => by cases hst
      · exact fun _ => hnone
    · rw [Function.update_of_ne hne, if_neg hne]
      exact h.masked b hb
  strangers := h.strangers_exec hexec ha

theorem PollRegistered.update (h : PollRegistered live fd st t) (hfd : Distinct live fd) {a : ℕ}
    {u : Update} (hl : t.Eventful live (.update u a)) (hst : st a ≠ .removed) :
    ∃ t', t.exec poll (.update u a) = .ok t' ∧
      PollRegistered live fd (Function.update st a (.entered (u.mask (t.state.heap a).events)))
        t' := by
  obtain ⟨ha, hfirst⟩ := hl
  by_cases hfresh : st a = .fresh
  · have hunregistered : t.registered a = false := by
      rw [← Bool.not_eq_true, h.registered a ha, hfresh]
      simp
    have hentered : Standing.entered (u.mask (t.state.heap a).events) = .watched :=
      if_neg (hfirst hunregistered)
    obtain ⟨t', hexec, hpolled, hevents⟩ := h.polled.update_fresh hfd ha u hfresh
    rw [← hentered] at hpolled
    exact ⟨_, by rw [Session.exec, hexec]; rfl, h.of_update ha hexec hpolled hevents⟩
  · have hknown := Standing.isKnown_of_ne hfresh hst
    obtain ⟨t', hexec, hpolled, hevents⟩ := h.polled.update_known hfd ha u hknown
    exact ⟨_, by rw [Session.exec, hexec]; rfl, h.of_update ha hexec hpolled hevents⟩

theorem PollRegistered.remove (h : PollRegistered live fd st t) (hfd : Distinct live fd) {a : ℕ}
    (hl : t.Eventful live (.remove a)) :
    ∃ t', t.exec poll (.remove a) = .ok t' ∧
      PollRegistered live fd (Function.update st a .removed) t' := by
  obtain ⟨ha, hregistered, hnone⟩ := hl
  rw [isNoneEvent_eq, decide_eq_true_eq] at hnone
  have hst : st a = .ignored :=
    ((h.registered a ha).mp hregistered).resolve_left fun hwatched =>
      h.masked a ha hwatched hnone
  obtain ⟨t', hexec, hpolled, hevents⟩ := h.polled.remove hfd ha hst
  refine ⟨_, by rw [Session.exec, hexec]; rfl, hpolled, registered_remove h.registered,
    fun b hb => ?_, h.strangers_exec (l := .remove a) hexec ha⟩
  dsimp only
  rw [hevents b]
  by_cases hne : b = a
  · subst hne
    rw [Function.update_self]
    exact fun hcase => by cases hcase
  · rw [Function.update_of_ne hne]
    exact h.masked b hb

theorem PollRegistered.update_again (h : PollRegistered live fd st t) {a : ℕ} (ha : live a)
    (hst : st a = .removed) (u : Update) :
    t.exec poll (.update u a) = .error (.poller .updateUnknown) := by
  rw [Session.exec, h.polled.update_again ha hst u]
  rfl

theorem PollRegistered.outcome (hfd : Distinct live fd) (t : Session PollPoller) (l : Label)
    (h : ∃ st, PollRegistered live fd st t) (hl : t.Eventful live l) :
    Outcome (fun t' => ∃ st, PollRegistered live fd st t') (fun _ => True) (t.exec poll l) := by
  obtain ⟨st, h⟩ := h
  cases l with
  | update u a =>
      by_cases hst : st a = .removed
      · rw [h.update_again hl.1 hst u]
        exact .error trivial
      · obtain ⟨t', hexec, h'⟩ := h.update hfd hl hst
        rw [hexec]
        exact .ok ⟨_, h'⟩
  | remove a =>
      obtain ⟨t', hexec, h'⟩ := h.remove hfd hl
      rw [hexec]
      exact .ok ⟨_, h'⟩

/-- No channel is updated after its removal. -/
def NoReuse (ls : List Label) : Prop :=
  ls.Pairwise fun l l' => ∀ a u, l = .remove a → l' ≠ .update u a

theorem noReuse_update {u : Update} {a : ℕ} {ls : List Label} :
    NoReuse (.update u a :: ls) ↔ NoReuse ls := by
  rw [NoReuse, List.pairwise_cons]
  refine and_iff_right fun l' _ b v heq => ?_
  cases heq

theorem noReuse_remove {a : ℕ} {ls : List Label} :
    NoReuse (.remove a :: ls) ↔ (∀ u, .update u a ∉ ls) ∧ NoReuse ls := by
  rw [NoReuse, List.pairwise_cons]
  refine and_congr_left fun _ => ⟨fun h u hmem => h _ hmem a u rfl rfl, ?_⟩
  intro h l' hmem b u heq hupdate
  cases heq
  exact h u (hupdate ▸ hmem)

/-- None of the channels that have been removed is updated. -/
def Avoids (live : ℕ → Prop) (st : ℕ → Standing) (ls : List Label) : Prop :=
  ∀ a, live a → st a = .removed → ∀ u, .update u a ∉ ls

theorem avoids_update {a : ℕ} {x : Standing} {u : Update} {ls : List Label}
    (hst : st a ≠ .removed) (hx : x ≠ .removed) :
    Avoids live (Function.update st a x) ls ↔ Avoids live st (.update u a :: ls) := by
  constructor
  · intro h b hb hcase v hmem
    have hne : b ≠ a := by
      rintro rfl
      exact hst hcase
    rcases List.mem_cons.mp hmem with heq | hmem
    · cases heq
      exact hne rfl
    · refine h b hb ?_ v hmem
      rwa [Function.update_of_ne hne]
  · intro h b hb hcase v hmem
    by_cases hne : b = a
    · subst hne
      rw [Function.update_self] at hcase
      exact hx hcase
    · rw [Function.update_of_ne hne] at hcase
      exact h b hb hcase v (List.mem_cons_of_mem _ hmem)

theorem avoids_remove {a : ℕ} {ls : List Label} (ha : live a) (hst : st a ≠ .removed) :
    Avoids live (Function.update st a .removed) ls ↔
      (∀ u, .update u a ∉ ls) ∧ Avoids live st (.remove a :: ls) := by
  constructor
  · intro h
    refine ⟨h a ha (Function.update_self ..), fun b hb hcase v hmem => ?_⟩
    have hne : b ≠ a := by
      rintro rfl
      exact hst hcase
    refine h b hb ?_ v ((List.mem_cons.mp hmem).resolve_left (by simp))
    rwa [Function.update_of_ne hne]
  · rintro ⟨hlater, h⟩ b hb hcase v hmem
    by_cases hne : b = a
    · subst hne
      exact hlater v hmem
    · rw [Function.update_of_ne hne] at hcase
      exact h b hb hcase v (List.mem_cons_of_mem _ hmem)

/-- A run returns exactly if it updates no channel that is removed. -/
theorem PollRegistered.run_iff (h : PollRegistered live fd st t) (hfd : Distinct live fd)
    {ls : List Label} (hl : LegalRun (Session.exec poll) (Session.Eventful live) t ls) :
    (∃ t' st', run (Session.exec poll) t ls = .ok t' ∧ PollRegistered live fd st' t') ↔
      NoReuse ls ∧ Avoids live st ls := by
  induction ls generalizing t st with
  | nil => exact ⟨fun _ => ⟨.nil, fun _ _ _ _ => List.not_mem_nil⟩, fun _ => ⟨t, st, rfl, h⟩⟩
  | cons l ls ih =>
      cases l with
      | update u a =>
          by_cases hst : st a = .removed
          · rw [run_cons_of_error (h.update_again hl.1.1 hst u)]
            constructor
            · rintro ⟨_, _, hrun, -⟩
              cases hrun
            · rintro ⟨-, havoids⟩
              exact absurd List.mem_cons_self (havoids a hl.1.1 hst u)
          · obtain ⟨t', hexec, h'⟩ := h.update hfd hl.1 hst
            rw [run_cons_of_ok hexec, ih h' (hl.2 t' hexec), noReuse_update,
              avoids_update hst (Standing.entered_ne _)]
      | remove a =>
          obtain ⟨t', hexec, h'⟩ := h.remove hfd hl.1
          have hst : st a ≠ .removed := by
            rcases (h.registered a hl.1.1).mp hl.1.2.1 with hcase | hcase <;> simp [hcase]
          rw [run_cons_of_ok hexec, ih h' (hl.2 t' hexec), noReuse_remove,
            avoids_remove hl.1.1 hst, and_left_comm, and_assoc]

/-! ### The array and the map -/

/-- The indices of the channels in `channels_` are the positions in `pollfds_`, and each
channel finds its own entry at its index. -/
structure InBijection (t : State PollPoller) : Prop where
  bijOn : Set.BijOn (fun a => (t.heap a).index) {a | ∃ f, t.poller.channels f = some a}
    {i | 0 ≤ i ∧ i < (t.poller.pollfds.length : ℤ)}
  entry : ∀ f a, t.poller.channels f = some a → (t.heap a).fd = f ∧
    t.poller.pollfds[(t.heap a).index.toNat]? = some (pollfdOf (t.heap a))

/-- A channel in the map is registered and has an entry. -/
theorem PollRegistered.entered (h : PollRegistered live fd st t) {f : ℤ} {a : ℕ}
    (hf : t.state.poller.channels f = some a) :
    live a ∧ fd a = f ∧ ∃ i : ℕ, (t.state.heap a).index = i ∧
      t.state.poller.pollfds[i]? = some (pollfdOf (t.state.heap a)) := by
  obtain ⟨b, hb, rfl⟩ : ∃ b, live b ∧ fd b = f := by
    by_contra hno
    rw [h.strangers f fun b hb heq => hno ⟨b, hb, heq⟩] at hf
    cases hf
  obtain ⟨hself, hplace⟩ := h.polled.placed b hb
  have hlisted := h.polled.listed b hb
  cases hst : st b with
  | fresh =>
      rw [hst] at hlisted
      rw [← hplace, hlisted.2] at hf
      cases hf
  | removed =>
      rw [hst] at hlisted
      rw [← hplace, hlisted.2] at hf
      cases hf
  | watched =>
      rw [hst] at hlisted
      obtain ⟨i, hi⟩ := hlisted
      have hsame := hi.known
      rw [hplace, hself, hf] at hsame
      obtain rfl := Option.some.inj hsame
      refine ⟨hb, rfl, i, hi.index, ?_⟩
      rw [hi.entry, pollfdOf, if_neg (by simpa [isNoneEvent_eq] using h.masked a hb hst)]
  | ignored =>
      rw [hst] at hlisted
      obtain ⟨hnone, i, hi⟩ := hlisted
      have hsame := hi.known
      rw [hplace, hself, hf] at hsame
      obtain rfl := Option.some.inj hsame
      refine ⟨hb, rfl, i, hi.index, ?_⟩
      rw [hi.entry, pollfdOf, if_pos (by rw [isNoneEvent_eq, hnone]; rfl)]

theorem PollRegistered.registered_iff (h : PollRegistered live fd st t) (a : ℕ) (ha : live a) :
    t.registered a = true ↔ t.state.poller.channels (fd a) = some a := by
  have hlisted := h.polled.listed a ha
  obtain ⟨hself, hplace⟩ := h.polled.placed a ha
  rw [h.registered a ha, ← hplace]
  cases hst : st a with
  | fresh =>
      rw [hst] at hlisted
      simp [hlisted.2]
  | removed =>
      rw [hst] at hlisted
      simp [hlisted.2]
  | watched =>
      rw [hst] at hlisted
      obtain ⟨i, hi⟩ := hlisted
      simp [hi.known, hself]
  | ignored =>
      rw [hst] at hlisted
      obtain ⟨-, i, hi⟩ := hlisted
      simp [hi.known, hself]

theorem decode_pollfdOf {c : Channel} (h : 0 ≤ c.fd) : decode (pollfdOf c).fd = c.fd := by
  rw [pollfdOf]
  dsimp only
  split_ifs
  · exact decode_ignored h
  · exact decode_nonneg h

theorem PollRegistered.inBijection (h : PollRegistered live fd st t) (hfd : Distinct live fd) :
    InBijection t.state where
  bijOn := by
    refine ⟨fun a ⟨f, hf⟩ => ?_, fun a ⟨f, hf⟩ b ⟨g, hg⟩ hab => ?_, fun j hj => ?_⟩
    · obtain ⟨-, -, i, hindex, hentry⟩ := h.entered hf
      have hlen := (List.getElem?_eq_some_iff.mp hentry).1
      simp only [hindex, Set.mem_ofPred_eq]
      omega
    · obtain ⟨ha, -, i, hi, hentry⟩ := h.entered hf
      obtain ⟨hb, -, k, hk, hentry'⟩ := h.entered hg
      obtain rfl : i = k := Int.ofNat.inj (hi.symm.trans (hab.trans hk))
      have hfds := congrArg (fun pfd => decode pfd.fd)
        (Option.some.inj (hentry.symm.trans hentry'))
      have hplace := (h.polled.placed a ha).2
      have hplace' := (h.polled.placed b hb).2
      rw [decode_pollfdOf (hplace ▸ hfd.nonneg a ha), decode_pollfdOf (hplace' ▸ hfd.nonneg b hb),
        hplace, hplace'] at hfds
      exact hfd.inj a b ha hb hfds
    · obtain ⟨i, rfl⟩ := Int.eq_ofNat_of_zero_le hj.1
      have hlen : i < t.state.poller.pollfds.length := Int.ofNat_lt.mp hj.2
      obtain ⟨a, -, hindex, hknown⟩ := h.polled.owned i _ (List.getElem?_eq_getElem hlen)
      exact ⟨a, ⟨_, hknown⟩, hindex⟩
  entry f a hf := by
    obtain ⟨ha, hfa, i, hindex, hentry⟩ := h.entered hf
    refine ⟨(h.polled.placed a ha).2.trans hfa, ?_⟩
    rw [hindex, Int.toNat_natCast, hentry]

/-! ### The active channels -/

/-- What the loop appends for one entry. -/
def found (p : PollPoller) (pfd : PollFd) : Option (ℕ × Revents) :=
  if pfd.revents = .zero then none else (p.channels pfd.fd).map (·, pfd.revents)

theorem fillLoop_zero (p : PollPoller) (heap : ℕ → Channel) (pfds : List PollFd) :
    p.fillLoop heap 0 pfds = .ok [] := by
  cases pfds with
  | nil => rfl
  | cons pfd pfds => rw [fillLoop, if_neg (Int.lt_irrefl 0)]

/-- The loop sees every entry with events before it has counted them all. -/
theorem fillLoop_eq {p : PollPoller} {heap : ℕ → Channel} {pfds : List PollFd}
    (h : ∀ pfd ∈ pfds, pfd.revents ≠ .zero →
      ∃ a, p.channels pfd.fd = some a ∧ (heap a).fd = pfd.fd) :
    p.fillLoop heap (pfds.countP fun pfd => pfd.revents ≠ .zero : ℕ) pfds =
      .ok (pfds.filterMap (found p)) := by
  induction pfds with
  | nil => rfl
  | cons pfd pfds ih =>
      obtain ⟨hpfd, hpfds⟩ := List.forall_mem_cons.mp h
      by_cases hzero : pfd.revents = .zero
      · have hfound : found p pfd = none := if_pos hzero
        rw [List.countP_cons_of_neg (by simpa using hzero), List.filterMap_cons_none hfound,
          ← ih hpfds, fillLoop]
        split_ifs with hmore
        · rfl
        · rw [show (pfds.countP _ : ℤ) = 0 by omega, fillLoop_zero]
      · obtain ⟨a, hchannel, hfd⟩ := hpfd hzero
        have hfound : found p pfd = some (a, pfd.revents) := by
          rw [found, if_neg hzero, hchannel, Option.map_some]
        rw [List.countP_cons_of_pos (by simpa using hzero), List.filterMap_cons_some hfound,
          fillLoop, if_pos (by omega), if_neg hzero, hchannel]
        dsimp only
        rw [ensure_of _ hfd, ok_bind, Int.natCast_succ, Int.add_sub_cancel, ih hpfds]
        rfl

/-- After `poll(2)` exactly the channels whose entries have events are listed, once each. -/
def ListsActive (t : State PollPoller) (revents : ℕ → Revents) : Prop :=
  let p := t.poller.afterPoll revents
  ∃ active, p.fillActiveChannels t.heap p.numEvents = .ok active ∧
    (active.map Prod.fst).Nodup ∧
    ∀ a r, (a, r) ∈ active ↔ r ≠ .zero ∧ (∃ f, p.channels f = some a) ∧
      ∃ pfd, p.pollfds[(t.heap a).index.toNat]? = some pfd ∧ pfd.revents = r

/-- The entry at `i` that `poll(2)` has reported, and its channel. -/
theorem PollRegistered.reported (h : PollRegistered live fd st t) (hfd : Distinct live fd)
    {revents : ℕ → Revents} {i : ℕ} {pfd : PollFd}
    (hi : (t.state.poller.afterPoll revents).pollfds[i]? = some pfd)
    (hevents : pfd.revents ≠ .zero) :
    ∃ a, t.state.poller.channels pfd.fd = some a ∧ (t.state.heap a).fd = pfd.fd ∧
      (t.state.heap a).index = i := by
  rw [afterPoll, List.getElem?_mapIdx] at hi
  obtain ⟨old, hold, rfl⟩ := Option.map_eq_some_iff.mp hi
  have hnonneg : 0 ≤ old.fd := by
    by_contra hneg
    exact hevents (if_neg hneg)
  obtain ⟨a, ha, he, hdecode⟩ := h.polled.owner hfd hold
  obtain ⟨hself, hplace⟩ := h.polled.placed a ha
  rw [decode_nonneg hnonneg] at hdecode
  have hknown := he.known
  rw [hself, hplace, ← hdecode] at hknown
  exact ⟨a, hknown, hplace.trans hdecode.symm, he.index⟩

theorem PollRegistered.of_found (h : PollRegistered live fd st t) (hfd : Distinct live fd)
    {revents : ℕ → Revents} {i : ℕ} {pfd : PollFd} {a : ℕ} {r : Revents}
    (hi : (t.state.poller.afterPoll revents).pollfds[i]? = some pfd)
    (hfound : found (t.state.poller.afterPoll revents) pfd = some (a, r)) :
    r ≠ .zero ∧ pfd.revents = r ∧ t.state.poller.channels pfd.fd = some a ∧
      (t.state.heap a).index = i := by
  obtain ⟨hevents, hmap⟩ := Option.ite_none_left_eq_some.mp hfound
  obtain ⟨b, hchannel, hpair⟩ := Option.map_eq_some_iff.mp hmap
  obtain ⟨rfl, rfl⟩ := Prod.mk.inj hpair
  obtain ⟨c, hchannel', -, hindex⟩ := h.reported hfd hi hevents
  obtain rfl := Option.some.inj (hchannel.symm.trans hchannel')
  exact ⟨hevents, rfl, hchannel, hindex⟩

theorem PollRegistered.listsActive (h : PollRegistered live fd st t) (hfd : Distinct live fd)
    (revents : ℕ → Revents) : ListsActive t.state revents := by
  have hchannels : (t.state.poller.afterPoll revents).channels = t.state.poller.channels := rfl
  refine ⟨(t.state.poller.afterPoll revents).pollfds.filterMap
    (found (t.state.poller.afterPoll revents)), fillLoop_eq fun pfd hmem hevents => ?_, ?_,
    fun a r => ?_⟩
  · obtain ⟨i, hi⟩ := List.getElem?_of_mem hmem
    obtain ⟨a, hchannel, hplace, -⟩ := h.reported hfd hi hevents
    exact ⟨a, hchannel, hplace⟩
  · rw [List.Nodup, List.pairwise_map, List.pairwise_filterMap, List.pairwise_iff_getElem]
    intro i j hi hj hij x hx y hy hxy
    obtain ⟨-, -, -, hindex⟩ := h.of_found hfd (List.getElem?_eq_getElem hi) hx
    obtain ⟨-, -, -, hindex'⟩ := h.of_found hfd (List.getElem?_eq_getElem hj) hy
    rw [hxy] at hindex
    omega
  · rw [List.mem_filterMap]
    constructor
    · rintro ⟨pfd, hmem, hfound⟩
      obtain ⟨i, hi⟩ := List.getElem?_of_mem hmem
      obtain ⟨hr, hrevents, hchannel, hindex⟩ := h.of_found hfd hi hfound
      refine ⟨hr, ⟨_, hchannel⟩, pfd, ?_, hrevents⟩
      rw [hindex, Int.toNat_natCast, hi]
    · rintro ⟨hr, ⟨f, hf⟩, pfd, hpfd, rfl⟩
      obtain ⟨b, hchannel, -, hindex⟩ := h.reported hfd hpfd hr
      obtain ⟨-, -, i, hi, -⟩ := h.entered hf
      have hsame : (t.state.heap b).index = (t.state.heap a).index := by
        rw [hindex, hi, Int.toNat_natCast]
      obtain rfl : b = a := (h.inBijection hfd).bijOn.injOn ⟨_, hchannel⟩ ⟨_, hf⟩ hsame
      refine ⟨pfd, List.mem_of_getElem? hpfd, ?_⟩
      rw [found, if_neg hr, hchannels, hchannel, Option.map_some]

/-- Whatever channels are updated and removed, no assertion fails, the array and the map stay
in bijection and the active channels are found, exactly if no removed channel is updated. -/
theorem poll_bijection_iff (hfd : Distinct live fd) {ls : List Label}
    (hl : LegalRun (Session.exec poll) (Session.Eventful live) (.start .init fd) ls) :
    (∃ t, run (Session.exec poll) (.start .init fd) ls = .ok t ∧
      (∀ a, live a → (t.registered a = true ↔ t.state.poller.channels (fd a) = some a)) ∧
      InBijection t.state ∧ ∀ revents, ListsActive t.state revents) ↔ NoReuse ls := by
  have hstart := start_pollRegistered live fd
  have hiff := hstart.run_iff hfd hl
  constructor
  · rintro ⟨t, hrun, -⟩
    obtain ⟨st, hst⟩ := (run_outcome (PollRegistered.outcome hfd) ⟨_, hstart⟩ hl).of_eq_ok hrun
    exact (hiff.mp ⟨t, st, hrun, hst⟩).1
  · intro hreuse
    obtain ⟨t, st, hrun, h⟩ := hiff.mpr ⟨hreuse, fun a _ hremoved => by cases hremoved⟩
    exact ⟨t, hrun, h.registered_iff, h.inBijection hfd, h.listsActive hfd⟩

/-- Two channels; the first one is ignored twice, and its entry is taken by the other. -/
def ignoredTwice : List Label :=
  [.update .enableReading 1, .update .enableWriting 2, .update .disableAll 1,
    .update .disableReading 1, .remove 1, .update .disableWriting 2, .update .enableReading 2]

theorem poll_bijection_iff_ignoredTwice :
    LegalRun (Session.exec poll) (Session.Eventful (· < 8)) (.start .init fun a => (a : ℤ) + 5)
        ignoredTwice ∧
      ∃ t, run (Session.exec poll) (.start .init fun a => (a : ℤ) + 5) ignoredTwice = .ok t ∧
        InBijection t.state ∧ ∀ revents, ListsActive t.state revents := by
  have hlegal : LegalRun (Session.exec poll) (Session.Eventful (· < 8))
      (.start .init fun a => (a : ℤ) + 5) ignoredTwice := by
    decide +kernel
  have hreuse : NoReuse ignoredTwice := by
    simp [NoReuse, ignoredTwice]
  have hfd : Distinct (· < 8) (fun a => (a : ℤ) + 5) :=
    ⟨fun a b _ _ h => by omega, fun a _ => by omega⟩
  obtain ⟨t, hrun, -, hbijection, hactive⟩ := (poll_bijection_iff hfd hlegal).mpr hreuse
  exact ⟨hlegal, t, hrun, hbijection, hactive⟩

/-- A channel that was removed keeps its index, so that an assertion fails when it is to be
registered again. -/
theorem removed_channel_not_reused :
    LegalRun (Session.exec poll) (Session.Eventful (· < 8)) (.start .init fun a => (a : ℤ) + 5)
        [.update .enableReading 1, .update .disableAll 1, .remove 1, .update .enableReading 1] ∧
      Outcome (fun _ => False) (fun fault => fault = .poller .updateUnknown)
        (run (Session.exec poll) (.start .init fun a => (a : ℤ) + 5)
          [.update .enableReading 1, .update .disableAll 1, .remove 1,
            .update .enableReading 1]) := by
  decide +kernel

end

end Muduo.System.Polling
