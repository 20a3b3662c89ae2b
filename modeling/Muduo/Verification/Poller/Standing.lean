import Muduo.System.Polling
import Muduo.Verification.Poller.Tracking

/-! How a channel stands with its poller, in terms that both pollers share, and how each of
them keeps track of it. -/

namespace Muduo.System.Polling

open Library Net

/-- A channel that has not been updated, one whose descriptor the kernel watches, one that
is known and not watched, and one that has been removed. -/
inductive Standing where
  | fresh
  | watched
  | ignored
  | removed
  deriving DecidableEq, Repr

/-- An update to the mask `e`. -/
def Standing.after (e : Events) : Standing → Standing
  | .watched => if e = Channel.kNoneEvent then .ignored else .watched
  | _ => .watched

/-- An update, to the mask `e`, of a channel that is in the array of `poll(2)`. -/
def Standing.entered (e : Events) : Standing :=
  if e = Channel.kNoneEvent then .ignored else .watched

theorem Standing.entered_ne (e : Events) : Standing.entered e ≠ .removed := by
  unfold Standing.entered
  split_ifs <;> decide

theorem Standing.after_ne (e : Events) (st : Standing) :
    st.after e ≠ .fresh ∧ st.after e ≠ .removed := by
  cases st with
  | watched =>
      rw [Standing.after]
      split_ifs <;> decide
  | _ => exact ⟨Standing.noConfusion, Standing.noConfusion⟩

/-- The channel is in the poller, watched or not. -/
def Standing.isKnown (st : Standing) : Prop := st = .watched ∨ st = .ignored

theorem Standing.isKnown_of_ne {st : Standing} (hfresh : st ≠ .fresh) (hremoved : st ≠ .removed) :
    st.isKnown := by
  cases st with
  | fresh => exact absurd rfl hfresh
  | removed => exact absurd rfl hremoved
  | watched => exact .inl rfl
  | ignored => exact .inr rfl

theorem Standing.isKnown_entered (e : Events) : (Standing.entered e).isKnown := by
  unfold Standing.entered
  split_ifs
  · exact .inr rfl
  · exact .inl rfl

section Registered

variable {live : ℕ → Prop} {st : ℕ → Standing} {registered : ℕ → Bool}

/-- The registered channels are those in the poller, also after an update. -/
theorem registered_update (h : ∀ a, live a → (registered a = true ↔ (st a).isKnown)) {a : ℕ}
    {x : Standing} (hx : x.isKnown) (u : Update) (b : ℕ) (hb : live b) :
    Session.registeredAfter registered (.update u a) b = true ↔
      (Function.update st a x b).isKnown := by
  by_cases hne : b = a
  · subst hne
    simp only [Session.registeredAfter, Function.update_self, true_iff]
    exact hx
  · simp only [Session.registeredAfter, Function.update_of_ne hne]
    exact h b hb

theorem registered_remove (h : ∀ a, live a → (registered a = true ↔ (st a).isKnown)) {a : ℕ}
    (b : ℕ) (hb : live b) :
    Session.registeredAfter registered (.remove a) b = true ↔
      (Function.update st a .removed b).isKnown := by
  by_cases hne : b = a
  · subst hne
    simp [Session.registeredAfter, Standing.isKnown]
  · simp only [Session.registeredAfter, Function.update_of_ne hne]
    exact h b hb

end Registered

/-- The descriptors of the live channels. -/
structure Distinct (live : ℕ → Prop) (fd : ℕ → ℤ) : Prop where
  inj : ∀ a b, live a → live b → fd a = fd b → a = b
  nonneg : ∀ a, live a → 0 ≤ fd a

/-- The channel at every address, with its descriptor. -/
def Placed (live : ℕ → Prop) (fd : ℕ → ℤ) (heap : ℕ → Channel) : Prop :=
  ∀ a, live a → (heap a).self = a ∧ (heap a).fd = fd a

theorem Placed.set {live : ℕ → Prop} {fd : ℕ → ℤ} {heap : ℕ → Channel} (h : Placed live fd heap)
    {a : ℕ} {c : Channel} (hself : c.self = (heap a).self) (hfd : c.fd = (heap a).fd) :
    Placed live fd (Function.update heap a c) := by
  intro b hb
  by_cases hne : b = a
  · subst hne
    rw [Function.update_self, hself, hfd]
    exact h b hb
  · rw [Function.update_of_ne hne]
    exact h b hb

theorem update_events {heap : ℕ → Channel} {a : ℕ} {c : Channel}
    (h : c.events = (heap a).events) (b : ℕ) :
    (Function.update heap a c b).events = (heap b).events := by
  rw [Function.update_apply]
  split
  next heq => rw [heq, h]
  next => rfl

/-! ### The epoll poller -/

section Epoll

open EPollPoller

/-- What the index, the map and the kernel say. -/
def Kept (c : Channel) (p : EPollPoller) : Standing → Prop
  | .watched => c.index = kAdded ∧ p.channels c.fd = some c.self ∧
      p.interest c.fd = some c.events
  | .ignored => c.index = kDeleted ∧ p.channels c.fd = some c.self ∧ p.interest c.fd = none ∧
      c.events = Channel.kNoneEvent
  | _ => c.index = kNew ∧ p.channels c.fd = none ∧ p.interest c.fd = none

theorem Kept.tracked {c : Channel} {p : EPollPoller} {st : Standing} (h : Kept c p st) :
    Tracked c p := by
  cases st with
  | fresh => exact .new h.1 h.2.1 h.2.2
  | watched => exact .added h.1 h.2.1 h.2.2
  | ignored => exact .deleted h.1 h.2.1 h.2.2.1
  | removed => exact .new h.1 h.2.1 h.2.2

theorem Kept.frame {c : Channel} {p p' : EPollPoller} {st : Standing} (h : Kept c p st)
    (hmap : p'.channels c.fd = p.channels c.fd) (hkernel : p'.interest c.fd = p.interest c.fd) :
    Kept c p' st := by
  cases st <;> simpa only [Kept, hmap, hkernel] using h

/-- The index tells watched channels from the others. -/
theorem Kept.index_eq_kAdded {c : Channel} {p : EPollPoller} {st : Standing} (h : Kept c p st) :
    c.index = kAdded ↔ st = .watched := by
  cases st <;> simp [h.1, kNew, kAdded, kDeleted]

theorem Kept.index_eq_kDeleted {c : Channel} {p : EPollPoller} {st : Standing}
    (h : Kept c p st) : c.index = kDeleted ↔ st = .ignored := by
  cases st <;> simp [h.1, kNew, kAdded, kDeleted]

theorem Kept.index_eq_kNew {c : Channel} {p : EPollPoller} {st : Standing} (h : Kept c p st) :
    c.index = kNew ↔ st = .fresh ∨ st = .removed := by
  cases st <;> simp [h.1, kNew, kAdded, kDeleted]

theorem Kept.watch {c : Channel} {p : EPollPoller} {st : Standing} (h : Kept c p st)
    (e : Events) : Kept (c.next e) (p.watch (c.next e)) (st.after e) := by
  have hmap : (p.watch (c.next e)).channels (c.next e).fd = some (c.next e).self :=
    Function.update_self ..
  have hkernel : (p.watch (c.next e)).interest (c.next e).fd =
      if (c.next e).index = kAdded then some (c.next e).events else none := Function.update_self ..
  by_cases hdel : c.index = kAdded ∧ e = Channel.kNoneEvent
  · have hindex : (c.next e).index = kDeleted := by rw [Channel.next_index, if_pos hdel]
    rw [h.index_eq_kAdded.mp hdel.1, Standing.after, if_pos hdel.2]
    refine ⟨hindex, hmap, ?_, hdel.2⟩
    rw [hkernel, hindex]
    rfl
  · have hindex : (c.next e).index = kAdded := by rw [Channel.next_index, if_neg hdel]
    have hafter : st.after e = .watched := by
      cases st with
      | watched => exact if_neg fun he => hdel ⟨h.1, he⟩
      | fresh => rfl
      | ignored => rfl
      | removed => rfl
    rw [hafter]
    exact ⟨hindex, hmap, by rw [hkernel, if_pos hindex]⟩

variable {live : ℕ → Prop} {fd : ℕ → ℤ} {st : ℕ → Standing} {s : State EPollPoller}

structure EPolled (live : ℕ → Prop) (fd : ℕ → ℤ) (st : ℕ → Standing) (s : State EPollPoller) :
    Prop where
  placed : Placed live fd s.heap
  kept : ∀ a, live a → Kept (s.heap a) s.poller (st a)
  strangers : ∀ f, (∀ a, live a → fd a ≠ f) → s.poller.interest f = none

theorem start_epolled (live : ℕ → Prop) (fd : ℕ → ℤ) :
    EPolled live fd (fun _ => .fresh) (start .init fd) :=
  ⟨fun _ _ => ⟨rfl, rfl⟩, fun _ _ => ⟨rfl, rfl, rfl⟩, fun _ _ => rfl⟩

/-- The kernel watches the channels that stand as watched. -/
theorem EPolled.interest_iff (h : EPolled live fd st s) {f : ℤ} {e : Events} :
    s.poller.interest f = some e ↔
      ∃ a, live a ∧ st a = .watched ∧ fd a = f ∧ (s.heap a).events = e := by
  have hwatched : ∀ a, live a → (s.poller.interest (fd a) = some e ↔
      st a = .watched ∧ (s.heap a).events = e) := by
    intro a ha
    have hkept := h.kept a ha
    rw [← (h.placed a ha).2]
    cases hst : st a <;> rw [hst] at hkept <;> simp only [Kept] at hkept <;> simp [hkept]
  constructor
  · intro hinterest
    obtain ⟨a, ha, rfl⟩ : ∃ a, live a ∧ fd a = f := by
      by_contra hno
      rw [h.strangers f fun a ha hf => hno ⟨a, ha, hf⟩] at hinterest
      cases hinterest
    obtain ⟨hst, he⟩ := (hwatched a ha).mp hinterest
    exact ⟨a, ha, hst, rfl, he⟩
  · rintro ⟨a, ha, hst, rfl, he⟩
    exact (hwatched a ha).mpr ⟨hst, he⟩

/-- An operation on the channel `a` changes the poller at its descriptor only. -/
theorem EPolled.set (h : EPolled live fd st s) (hfd : Distinct live fd) {a : ℕ}
    (ha : live a) {c : Channel} {p : EPollPoller} {stand : Standing} {s' : State EPollPoller}
    (hs : s'.heap = Function.update s.heap a c) (hp : s'.poller = p)
    (hself : c.self = (s.heap a).self) (hcfd : c.fd = (s.heap a).fd) (hkept : Kept c p stand)
    (hmap : ∀ f, f ≠ fd a → p.channels f = s.poller.channels f)
    (hkernel : ∀ f, f ≠ fd a → p.interest f = s.poller.interest f) :
    EPolled live fd (Function.update st a stand) s' := by
  subst hp
  refine ⟨hs ▸ h.placed.set hself hcfd, fun b hb => ?_, fun f hf => ?_⟩
  · by_cases hne : b = a
    · subst hne
      rw [hs, Function.update_self, Function.update_self]
      exact hkept
    · have hother : (s.heap b).fd ≠ fd a := by
        rw [(h.placed b hb).2]
        exact fun heq => hne (hfd.inj b a hb ha heq)
      rw [hs, Function.update_of_ne hne, Function.update_of_ne hne]
      exact (h.kept b hb).frame (hmap _ hother) (hkernel _ hother)
  · rw [hkernel f (hf a ha).symm]
    exact h.strangers f hf

theorem EPolled.update (h : EPolled live fd st s) (hfd : Distinct live fd) {a : ℕ}
    (ha : live a) (u : Update) :
    ∃ s', exec epoll s (.update u a) = .ok s' ∧
      EPolled live fd (Function.update st a ((st a).after (u.mask (s.heap a).events))) s' ∧
      s'.heap = Function.update s.heap a ((s.heap a).next (u.mask (s.heap a).events)) ∧
      s'.updated = Function.update s.updated a true ∧ s'.removed = s.removed := by
  have hkept := h.kept a ha
  have hupdate := hkept.tracked.updateChannel (u.mask (s.heap a).events)
  refine ⟨{ s with
    poller := s.poller.watch ((s.heap a).next (u.mask (s.heap a).events))
    heap := Function.update s.heap a ((s.heap a).next (u.mask (s.heap a).events))
    updated := Function.update s.updated a true }, ?_, ?_, rfl, rfl, rfl⟩
  · simp only [exec, epoll, Function.update_self, hupdate, ok_bind, pure, Except.pure,
      Except.mapError, Function.update_idem]
  · have hplace := (h.placed a ha).2
    refine h.set hfd ha rfl rfl rfl rfl (hkept.watch _) (fun f hf => ?_) fun f hf => ?_
    · exact Function.update_of_ne (hplace ▸ hf) _ _
    · exact Function.update_of_ne (hplace ▸ hf) _ _

theorem EPolled.remove (h : EPolled live fd st s) (hfd : Distinct live fd) {a : ℕ}
    (ha : live a) (hknown : (s.heap a).index ≠ kNew)
    (hnone : (s.heap a).events = Channel.kNoneEvent) :
    ∃ s', exec epoll s (.remove a) = .ok s' ∧
      EPolled live fd (Function.update st a .removed) s' ∧
      (∀ b, (s'.heap b).events = (s.heap b).events) ∧ s'.updated = s.updated ∧
      s'.removed = Function.update s.removed a true := by
  have hremove := (h.kept a ha).tracked.removeChannel hnone hknown false
  refine ⟨{ s with
    poller := s.poller.forget (s.heap a)
    heap := Function.update s.heap a { s.heap a with addedToLoop := false, index := kNew }
    removed := Function.update s.removed a true }, ?_, ?_, update_events rfl, rfl, rfl⟩
  · have hisNone : (s.heap a).isNoneEvent = true := by rw [isNoneEvent_eq, hnone]; rfl
    simp only [exec, epoll, ensure_of _ hisNone, Function.update_self, hremove, ok_bind, pure,
      Except.pure, Except.mapError, Function.update_idem]
  · have hplace := (h.placed a ha).2
    refine h.set hfd ha rfl rfl rfl rfl ⟨rfl, Function.update_self .., Function.update_self ..⟩
      (fun f hf => ?_) fun f hf => ?_
    · exact Function.update_of_ne (hplace ▸ hf) _ _
    · exact Function.update_of_ne (hplace ▸ hf) _ _

theorem EPolled.remove_again (h : EPolled live fd st s) {a : ℕ} (ha : live a)
    (hst : st a = .removed) (hnone : (s.heap a).isNoneEvent = true) :
    ∃ fault, exec epoll s (.remove a) = .error fault := by
  have hkept := h.kept a ha
  rw [hst] at hkept
  have hunknown : s.poller.channels (s.heap a).fd ≠ some (s.heap a).self := by simp [hkept.2.1]
  refine ⟨.poller .removeUnknown, ?_⟩
  simp only [exec, epoll, ensure_of _ hnone, ok_bind, Function.update_self,
    EPollPoller.removeChannel, ensure_of_not _ hunknown, error_bind, Except.mapError]

end Epoll

/-! ### The poller over `poll(2)` -/

section Poll

open PollPoller

/-- A known channel: its index, the map, and its entry with the descriptor `f`. -/
structure Entered (c : Channel) (p : PollPoller) (i : ℕ) (f : ℤ) : Prop where
  index : c.index = i
  known : p.channels c.fd = some c.self
  entry : p.pollfds[i]? = some ⟨f, c.events, .zero⟩

/-- What the index, the map and the array say. -/
def Listed (c : Channel) (p : PollPoller) : Standing → Prop
  | .fresh => c.index = -1 ∧ p.channels c.fd = none
  | .watched => ∃ i, Entered c p i c.fd
  | .ignored => c.events = Channel.kNoneEvent ∧ ∃ i, Entered c p i (PollPoller.ignored c.fd)
  | .removed => 0 ≤ c.index ∧ p.channels c.fd = none

/-- The descriptor of an entry, whether it is watched or not. -/
def decode (f : ℤ) : ℤ := if f < 0 then PollPoller.ignored f else f

theorem decode_ignored {f : ℤ} (h : 0 ≤ f) : decode (PollPoller.ignored f) = f := by
  unfold decode PollPoller.ignored
  split <;> omega

theorem decode_nonneg {f : ℤ} (h : 0 ≤ f) : decode f = f := if_neg (Int.not_lt.mpr h)

/-- A channel is known exactly when it has an entry. -/
theorem Listed.entered {c : Channel} {p : PollPoller} {st : Standing} (h : Listed c p st)
    (hfd : 0 ≤ c.fd) (hknown : p.channels c.fd = some c.self) :
    ∃ i f, Entered c p i f ∧ decode f = c.fd := by
  cases st with
  | fresh =>
      rw [h.2] at hknown
      cases hknown
  | removed =>
      rw [h.2] at hknown
      cases hknown
  | watched =>
      obtain ⟨i, hi⟩ := h
      exact ⟨i, _, hi, decode_nonneg hfd⟩
  | ignored =>
      obtain ⟨-, i, hi⟩ := h
      exact ⟨i, _, hi, decode_ignored hfd⟩

/-- The entry of the channel may have moved, together with its index. -/
theorem Listed.frame {c c' : Channel} {p p' : PollPoller} {st : Standing} (h : Listed c p st)
    (hc : c' = { c with index := c'.index }) (hmap : p'.channels c.fd = p.channels c.fd)
    (hnew : (∀ i f, ¬ Entered c p i f) → c'.index = c.index)
    (hentry : ∀ i f, Entered c p i f → ∃ j : ℕ, c'.index = j ∧ p'.pollfds[j]? = p.pollfds[i]?) :
    Listed c' p' st := by
  have hfd : c'.fd = c.fd := by rw [hc]
  have hself : c'.self = c.self := by rw [hc]
  have hevents : c'.events = c.events := by rw [hc]
  have hmove : ∀ i f, Entered c p i f → ∃ j, Entered c' p' j f := by
    intro i f he
    obtain ⟨j, hindex, hj⟩ := hentry i f he
    exact ⟨j, hindex, by rw [hfd, hself, hmap, he.known], by rw [hj, he.entry, hevents]⟩
  have hold : p.channels c.fd = none → c'.index = c.index := by
    intro hnone
    refine hnew fun i f he => ?_
    rw [he.known] at hnone
    cases hnone
  cases st with
  | fresh => exact ⟨(hold h.2).trans h.1, by rw [hfd, hmap, h.2]⟩
  | removed => exact ⟨(hold h.2).symm ▸ h.1, by rw [hfd, hmap, h.2]⟩
  | watched =>
      obtain ⟨i, hi⟩ := h
      rw [Listed, hfd]
      exact hmove i _ hi
  | ignored =>
      obtain ⟨hnone, i, hi⟩ := h
      rw [Listed, hfd]
      exact ⟨hevents.trans hnone, hmove i _ hi⟩

variable {live : ℕ → Prop} {fd : ℕ → ℤ} {st : ℕ → Standing} {t : State PollPoller}

structure Polled (live : ℕ → Prop) (fd : ℕ → ℤ) (st : ℕ → Standing) (t : State PollPoller) :
    Prop where
  placed : Placed live fd t.heap
  listed : ∀ a, live a → Listed (t.heap a) t.poller (st a)
  owned : ∀ (i : ℕ) pfd, t.poller.pollfds[i]? = some pfd →
    ∃ a, live a ∧ (t.heap a).index = i ∧ t.poller.channels (fd a) = some a

theorem start_polled (live : ℕ → Prop) (fd : ℕ → ℤ) :
    Polled live fd (fun _ => .fresh) (start .init fd) :=
  ⟨fun _ _ => ⟨rfl, rfl⟩, fun _ _ => ⟨rfl, rfl⟩, fun _ _ h => by cases h⟩

theorem Polled.entered (h : Polled live fd st t) (hfd : Distinct live fd) {a : ℕ} (ha : live a)
    (hknown : t.poller.channels (fd a) = some a) :
    ∃ i f, Entered (t.heap a) t.poller i f ∧ decode f = fd a := by
  obtain ⟨hself, hplace⟩ := h.placed a ha
  obtain ⟨i, f, he, hdecode⟩ := (h.listed a ha).entered (hplace ▸ hfd.nonneg a ha)
    (by rw [hplace, hself, hknown])
  exact ⟨i, f, he, hdecode.trans hplace⟩

/-- Every entry is the entry of a channel. -/
theorem Polled.owner (h : Polled live fd st t) (hfd : Distinct live fd) {i : ℕ} {pfd : PollFd}
    (hi : t.poller.pollfds[i]? = some pfd) :
    ∃ a, live a ∧ Entered (t.heap a) t.poller i pfd.fd ∧ decode pfd.fd = fd a := by
  obtain ⟨a, ha, hindex, hknown⟩ := h.owned i pfd hi
  obtain ⟨j, f, he, hdecode⟩ := h.entered hfd ha hknown
  obtain rfl : i = j := Int.ofNat.inj (hindex.symm.trans he.index)
  obtain rfl := Option.some.inj (hi.symm.trans he.entry)
  exact ⟨a, ha, he, hdecode⟩

/-- No entry belongs to two channels. -/
theorem Polled.entry_unique (h : Polled live fd st t) (hfd : Distinct live fd) {a b i : ℕ}
    {f g : ℤ} (ha : live a) (hb : live b) (hea : Entered (t.heap a) t.poller i f)
    (heb : Entered (t.heap b) t.poller i g) : a = b := by
  have hknown : ∀ c, live c → ∀ f, Entered (t.heap c) t.poller i f →
      t.poller.channels (fd c) = some c := by
    intro c hc f he
    have hk := he.known
    rwa [(h.placed c hc).1, (h.placed c hc).2] at hk
  obtain ⟨i', f', hea', hdecode⟩ := h.entered hfd ha (hknown a ha f hea)
  obtain ⟨j', g', heb', hdecode'⟩ := h.entered hfd hb (hknown b hb g heb)
  obtain rfl : i = i' := Int.ofNat.inj (hea.index.symm.trans hea'.index)
  obtain rfl : i = j' := Int.ofNat.inj (heb.index.symm.trans heb'.index)
  have hentry := Option.some.inj (hea'.entry.symm.trans heb'.entry)
  have hf : f' = g' := congrArg PollFd.fd hentry
  exact hfd.inj a b ha hb (by rw [← hdecode, hf, hdecode'])

/-- The entries with a descriptor of their own are those of the watched channels. -/
theorem Polled.pollfds_iff (h : Polled live fd st t) (hfd : Distinct live fd) {f : ℤ}
    {e : Events} :
    (∃ pfd ∈ t.poller.pollfds, 0 ≤ pfd.fd ∧ pfd.fd = f ∧ pfd.events = e) ↔
      ∃ a, live a ∧ st a = .watched ∧ fd a = f ∧ (t.heap a).events = e := by
  constructor
  · rintro ⟨pfd, hmem, hnonneg, rfl, rfl⟩
    obtain ⟨i, hi⟩ := List.getElem?_of_mem hmem
    obtain ⟨a, ha, he, hdecode⟩ := h.owner hfd hi
    have hevents := congrArg PollFd.events (Option.some.inj (he.entry.symm.trans hi))
    rw [decode_nonneg hnonneg] at hdecode
    refine ⟨a, ha, ?_, hdecode.symm, hevents⟩
    have hlisted := h.listed a ha
    cases hst : st a with
    | watched => rfl
    | fresh =>
        rw [hst] at hlisted
        cases he.known.symm.trans hlisted.2
    | removed =>
        rw [hst] at hlisted
        cases he.known.symm.trans hlisted.2
    | ignored =>
        -- an entry that is passed over has a negative descriptor
        rw [hst] at hlisted
        obtain ⟨-, j, hj⟩ := hlisted
        obtain rfl : i = j := Int.ofNat.inj (he.index.symm.trans hj.index)
        have hsame := congrArg PollFd.fd (Option.some.inj (he.entry.symm.trans hj.entry))
        simp only [(h.placed a ha).2, PollPoller.ignored] at hsame
        omega
  · rintro ⟨a, ha, hst, rfl, rfl⟩
    have hlisted := h.listed a ha
    rw [hst] at hlisted
    obtain ⟨i, hi⟩ := hlisted
    have hplace := (h.placed a ha).2
    exact ⟨_, List.mem_of_getElem? hi.entry, hplace ▸ hfd.nonneg a ha, hplace, rfl⟩

/-- The steps that leave every index but those of `a` and of the moved channel alone. -/
theorem Listed.keep {c : Channel} {p p' : PollPoller} {stand : Standing} (h : Listed c p stand)
    (hmap : p'.channels c.fd = p.channels c.fd)
    (hentry : ∀ i f, Entered c p i f → p'.pollfds[i]? = p.pollfds[i]?) : Listed c p' stand :=
  h.frame rfl hmap (fun _ => rfl) fun i f he => ⟨i, he.index, hentry i f he⟩

/-- A fresh channel gets the entry behind the last one. -/
theorem Polled.enter (h : Polled live fd st t) (hfd : Distinct live fd) {a : ℕ} (ha : live a)
    (hst : st a = .fresh) {c : Channel} (hself : c.self = a) (hcfd : c.fd = fd a)
    (hindex : c.index = t.poller.pollfds.length) {t' : State PollPoller}
    (hheap : t'.heap = Function.update t.heap a c)
    (hpoller : t'.poller = ⟨Function.update t.poller.channels (fd a) (some a),
      t.poller.pollfds ++ [⟨fd a, c.events, .zero⟩]⟩) :
    Polled live fd (Function.update st a .watched) t' := by
  have hunknown : t.poller.channels (fd a) = none := by
    have hlisted := h.listed a ha
    rw [hst] at hlisted
    exact (h.placed a ha).2 ▸ hlisted.2
  have hother : ∀ b, live b → b ≠ a → fd b ≠ fd a := fun b hb hne heq =>
    hne (hfd.inj b a hb ha heq)
  refine ⟨hheap ▸ h.placed.set (hself.trans (h.placed a ha).1.symm)
    (hcfd.trans (h.placed a ha).2.symm), fun b hb => ?_, fun i pfd hi => ?_⟩
  · by_cases hne : b = a
    · subst hne
      rw [hheap, hpoller, Function.update_self, Function.update_self]
      refine ⟨t.poller.pollfds.length, hindex, ?_, ?_⟩
      · rw [hcfd, hself]
        exact Function.update_self ..
      · rw [List.getElem?_concat_length, hcfd]
    · rw [hheap, hpoller, Function.update_of_ne hne, Function.update_of_ne hne]
      refine (h.listed b hb).keep ?_ fun i f he => ?_
      · rw [(h.placed b hb).2]
        exact Function.update_of_ne (hother b hb hne) _ _
      · exact List.getElem?_append_left (List.getElem?_eq_some_iff.mp he.entry).1
  · rw [hpoller] at hi
    by_cases hlt : i < t.poller.pollfds.length
    · rw [List.getElem?_append_left hlt] at hi
      obtain ⟨b, hb, hbi, hknown⟩ := h.owned i pfd hi
      have hne : b ≠ a := by
        rintro rfl
        rw [hunknown] at hknown
        cases hknown
      refine ⟨b, hb, ?_, ?_⟩
      · rw [hheap, Function.update_of_ne hne, hbi]
      · rw [hpoller]
        exact (Function.update_of_ne (hother b hb hne) _ _).trans hknown
    · have hlast : i = t.poller.pollfds.length := by
        have hlen := (List.getElem?_eq_some_iff.mp hi).1
        rw [List.length_append, List.length_singleton] at hlen
        omega
      refine ⟨a, ha, ?_, ?_⟩
      · rw [hheap, Function.update_self, hindex, hlast]
      · rw [hpoller]
        exact Function.update_self ..

/-- The entry of a known channel is overwritten. -/
theorem Polled.overwrite (h : Polled live fd st t) (hfd : Distinct live fd) {a i : ℕ}
    (ha : live a) {f : ℤ} (he : Entered (t.heap a) t.poller i f) {c : Channel}
    (hc : c.self = (t.heap a).self ∧ c.fd = (t.heap a).fd ∧ c.index = (t.heap a).index)
    {pfd : PollFd} {stand : Standing} {t' : State PollPoller}
    (hheap : t'.heap = Function.update t.heap a c)
    (hpoller : t'.poller = { t.poller with pollfds := t.poller.pollfds.set i pfd })
    (hlisted : t'.poller.pollfds[i]? = some pfd → Listed c t'.poller stand) :
    Polled live fd (Function.update st a stand) t' := by
  obtain ⟨hself, hcfd, hindex⟩ := hc
  have hlen : i < t.poller.pollfds.length := (List.getElem?_eq_some_iff.mp he.entry).1
  refine ⟨hheap ▸ h.placed.set hself hcfd, fun b hb => ?_, fun j pfd' hj => ?_⟩
  · by_cases hne : b = a
    · subst hne
      rw [hheap, Function.update_self, Function.update_self]
      refine hlisted ?_
      rw [hpoller]
      exact List.getElem?_set_self hlen
    · rw [hheap, Function.update_of_ne hne, Function.update_of_ne hne, hpoller]
      refine (h.listed b hb).keep rfl fun j g hej => ?_
      refine List.getElem?_set_ne ?_
      rintro rfl
      exact hne (h.entry_unique hfd hb ha hej he)
  · have hold : ∃ old, t.poller.pollfds[j]? = some old := by
      have hjlen := (List.getElem?_eq_some_iff.mp hj).1
      rw [hpoller, List.length_set] at hjlen
      exact ⟨_, List.getElem?_eq_getElem hjlen⟩
    obtain ⟨old, hold⟩ := hold
    obtain ⟨b, hb, hbj, hknown⟩ := h.owned j old hold
    refine ⟨b, hb, ?_, by rw [hpoller]; exact hknown⟩
    by_cases hne : b = a
    · subst hne
      rw [hheap, Function.update_self, hindex, hbj]
    · rw [hheap, Function.update_of_ne hne, hbj]

/-- The entry of a known channel after an update. -/
theorem listed_pollfdOf {c : Channel} {p : PollPoller} {i : ℕ} (hindex : c.index = i)
    (hknown : p.channels c.fd = some c.self) (hentry : p.pollfds[i]? = some (pollfdOf c)) :
    Listed c p (.entered c.events) := by
  unfold Standing.entered
  by_cases hnone : c.events = Channel.kNoneEvent
  · rw [if_pos hnone]
    refine ⟨hnone, i, hindex, hknown, ?_⟩
    rw [hentry, pollfdOf, if_pos (by rw [isNoneEvent_eq, hnone]; rfl)]
  · rw [if_neg hnone]
    refine ⟨i, hindex, hknown, ?_⟩
    rw [hentry, pollfdOf, if_neg (by simpa [isNoneEvent_eq] using hnone)]

/-- The channel as `update` hands it to the poller. -/
def revised (c : Channel) (e : Events) : Channel := { c with events := e, addedToLoop := true }

theorem updateChannel_fresh {c : Channel} {p : PollPoller} (h : Listed c p .fresh) (e : Events) :
    p.updateChannel (revised c e) =
      .ok (⟨Function.update p.channels c.fd (some c.self), p.pollfds ++ [⟨c.fd, e, .zero⟩]⟩,
        { revised c e with index := p.pollfds.length }) := by
  have hindex : (revised c e).index < 0 := by
    rw [show (revised c e).index = -1 from h.1]
    decide
  have hunknown : p.channels (revised c e).fd = none := h.2
  rw [PollPoller.updateChannel, if_pos hindex, ensure_of _ hunknown]
  rfl

theorem updateChannel_entered {c : Channel} {p : PollPoller} {i : ℕ} {f : ℤ}
    (h : Entered c p i f) (hf : f = c.fd ∨ f = PollPoller.ignored c.fd) (e : Events) :
    p.updateChannel (revised c e) =
      .ok (⟨p.channels, p.pollfds.set i (pollfdOf (revised c e))⟩, revised c e) := by
  have hindex : (revised c e).index = i := h.index
  have hentry : p.pollfds[(revised c e).index.toNat]? = some ⟨f, c.events, .zero⟩ := by
    rw [hindex, Int.toNat_natCast, h.entry]
  have hknown : p.channels (revised c e).fd = some (revised c e).self := h.known
  have hassert : f = (revised c e).fd ∨ f = PollPoller.ignored (revised c e).fd := hf
  rw [PollPoller.updateChannel, if_neg (by omega), ensure_of _ hknown, ok_bind, hentry]
  simp only [ensure_of _ hassert, ok_bind, hindex, Int.toNat_natCast]
  rfl

theorem exec_update {a : ℕ} {u : Update} {p : PollPoller} {c : Channel}
    (h : t.poller.updateChannel (revised (t.heap a) (u.mask (t.heap a).events)) = .ok (p, c)) :
    exec poll t (.update u a) = .ok { t with
      poller := p
      heap := Function.update t.heap a c
      updated := Function.update t.updated a true } := by
  rw [revised] at h
  simp only [exec, poll, Function.update_self, h, ok_bind, pure, Except.pure, Except.mapError,
    Function.update_idem]

theorem events_update {heap : ℕ → Channel} {a : ℕ} {c : Channel} {e : Events}
    (hc : c.events = e) (b : ℕ) :
    (Function.update heap a c b).events = if b = a then e else (heap b).events := by
  rw [Function.update_apply]
  split
  · exact hc
  · rfl

/-- An update of a channel that the poller does not know yet. -/
theorem Polled.update_fresh (h : Polled live fd st t) (hfd : Distinct live fd) {a : ℕ}
    (ha : live a) (u : Update) (hst : st a = .fresh) :
    ∃ t', exec poll t (.update u a) = .ok t' ∧ Polled live fd (Function.update st a .watched) t' ∧
      ∀ b, (t'.heap b).events = if b = a then u.mask (t.heap a).events else (t.heap b).events := by
  obtain ⟨hself, hplace⟩ := h.placed a ha
  have hlisted := h.listed a ha
  rw [hst] at hlisted
  refine ⟨_, exec_update (updateChannel_fresh hlisted _), ?_, events_update rfl⟩
  exact h.enter hfd ha hst (c := { revised (t.heap a) (u.mask (t.heap a).events) with
    index := t.poller.pollfds.length }) hself hplace rfl rfl (by rw [hplace, hself]; rfl)

/-- An update of a known channel overwrites its entry. -/
theorem Polled.update_known (h : Polled live fd st t) (hfd : Distinct live fd) {a : ℕ}
    (ha : live a) (u : Update) (hst : st a = .watched ∨ st a = .ignored) :
    ∃ t', exec poll t (.update u a) = .ok t' ∧
      Polled live fd (Function.update st a (.entered (u.mask (t.heap a).events))) t' ∧
      ∀ b, (t'.heap b).events = if b = a then u.mask (t.heap a).events else (t.heap b).events := by
  have hlisted := h.listed a ha
  obtain ⟨i, f, he, hf⟩ : ∃ i f, Entered (t.heap a) t.poller i f ∧
      (f = (t.heap a).fd ∨ f = PollPoller.ignored (t.heap a).fd) := by
    rcases hst with hst | hst
    · rw [hst] at hlisted
      obtain ⟨i, hi⟩ := hlisted
      exact ⟨i, _, hi, .inl rfl⟩
    · rw [hst] at hlisted
      obtain ⟨-, i, hi⟩ := hlisted
      exact ⟨i, _, hi, .inr rfl⟩
  refine ⟨_, exec_update (updateChannel_entered he hf _), ?_, events_update rfl⟩
  refine h.overwrite hfd ha he (c := revised (t.heap a) (u.mask (t.heap a).events))
    ⟨rfl, rfl, rfl⟩ rfl rfl fun hentry => ?_
  exact listed_pollfdOf (c := revised (t.heap a) (u.mask (t.heap a).events)) he.index he.known
    hentry

theorem Polled.update (h : Polled live fd st t) (hfd : Distinct live fd) {a : ℕ} (ha : live a)
    (u : Update) (hremoved : st a ≠ .removed)
    (hignored : st a = .ignored → u.mask (t.heap a).events ≠ Channel.kNoneEvent) :
    ∃ t', exec poll t (.update u a) = .ok t' ∧
      Polled live fd (Function.update st a ((st a).after (u.mask (t.heap a).events))) t' ∧
      ∀ b, (t'.heap b).events = if b = a then u.mask (t.heap a).events else (t.heap b).events := by
  cases hst : st a with
  | removed => exact absurd hst hremoved
  | fresh => exact h.update_fresh hfd ha u hst
  | watched => exact h.update_known hfd ha u (.inl hst)
  | ignored =>
      have hentered : Standing.entered (u.mask (t.heap a).events) = .watched :=
        if_neg (hignored hst)
      have hknown := h.update_known hfd ha u (.inr hst)
      rw [hentered] at hknown
      exact hknown

/-- A removed channel keeps its index, and the poller takes it for a known one. -/
theorem Polled.update_again (h : Polled live fd st t) {a : ℕ} (ha : live a)
    (hst : st a = .removed) (u : Update) :
    exec poll t (.update u a) = .error (.poller .updateUnknown) := by
  have hlisted := h.listed a ha
  rw [hst] at hlisted
  have hunknown : t.poller.channels (t.heap a).fd ≠ some (t.heap a).self := by simp [hlisted.2]
  simp only [exec, poll, Function.update_self, PollPoller.updateChannel,
    if_neg (Int.not_lt.mpr hlisted.1), ensure_of_not _ hunknown, error_bind, Except.mapError]

/-- The entry of `a` is the last one. -/
theorem Polled.pop (h : Polled live fd st t) (hfd : Distinct live fd) {a i : ℕ} (ha : live a)
    {f : ℤ} (he : Entered (t.heap a) t.poller i f) (hlast : i = t.poller.pollfds.length - 1)
    {c : Channel}
    (hc : c.self = (t.heap a).self ∧ c.fd = (t.heap a).fd ∧ c.index = (t.heap a).index)
    {t' : State PollPoller} (hheap : t'.heap = Function.update t.heap a c)
    (hpoller : t'.poller =
      ⟨Function.update t.poller.channels (fd a) none, t.poller.pollfds.dropLast⟩) :
    Polled live fd (Function.update st a .removed) t' := by
  obtain ⟨hself, hcfd, hindex⟩ := hc
  refine ⟨hheap ▸ h.placed.set hself hcfd, fun b hb => ?_, fun j pfd hj => ?_⟩
  · by_cases hne : b = a
    · subst hne
      rw [hheap, hpoller, Function.update_self, Function.update_self]
      refine ⟨?_, ?_⟩
      · rw [hindex, he.index]
        exact Int.natCast_nonneg i
      · rw [hcfd, (h.placed b hb).2]
        exact Function.update_self ..
    · rw [hheap, hpoller, Function.update_of_ne hne, Function.update_of_ne hne]
      refine (h.listed b hb).keep ?_ fun j g hej => ?_
      · rw [(h.placed b hb).2]
        exact Function.update_of_ne (fun heq => hne (hfd.inj b a hb ha heq)) _ _
      · have hji : j ≠ i := by
          rintro rfl
          exact hne (h.entry_unique hfd hb ha hej he)
        have hjlen := (List.getElem?_eq_some_iff.mp hej.entry).1
        rw [List.getElem?_dropLast, if_pos (by omega)]
  · rw [hpoller, List.getElem?_dropLast] at hj
    split at hj
    next hlt =>
      obtain ⟨b, hb, hbj, hknown⟩ := h.owned j pfd hj
      have hne : b ≠ a := by
        rintro rfl
        rw [he.index] at hbj
        omega
      refine ⟨b, hb, by rw [hheap, Function.update_of_ne hne, hbj], ?_⟩
      rw [hpoller]
      exact (Function.update_of_ne (fun heq => hne (hfd.inj b a hb ha heq)) _ _).trans hknown
    next => cases hj

/-- The last entry, of the channel `z`, has taken the place `i` of the one of `a`. -/
structure Swapped (live : ℕ → Prop) (fd : ℕ → ℤ) (t t' : State PollPoller) (a z i : ℕ) :
    Prop where
  placed : ∀ b, (t'.heap b).self = (t.heap b).self ∧ (t'.heap b).fd = (t.heap b).fd
  removed : (t'.heap a).index = (t.heap a).index
  moved : t'.heap z = { t.heap z with index := i }
  other : ∀ b, b ≠ a → b ≠ z → t'.heap b = t.heap b
  unknown : t'.poller.channels (fd a) = none
  map : ∀ b, live b → b ≠ a → t'.poller.channels (fd b) = t.poller.channels (fd b)
  entry : ∀ j, j ≠ i → j < t.poller.pollfds.length - 1 →
    t'.poller.pollfds[j]? = t.poller.pollfds[j]?
  last : t'.poller.pollfds[i]? = t.poller.pollfds[t.poller.pollfds.length - 1]?
  length : t'.poller.pollfds.length = t.poller.pollfds.length - 1

section Swap

variable {t' : State PollPoller} {a z i : ℕ} {f : ℤ} {back : PollFd}

theorem swapped (hfd : Distinct live fd) (ha : live a) (hza : z ≠ a)
    (hback : t.poller.pollfds[t.poller.pollfds.length - 1]? = some back)
    (hi : i < t.poller.pollfds.length - 1) {c : Channel}
    (hc : c.self = (t.heap a).self ∧ c.fd = (t.heap a).fd ∧ c.index = (t.heap a).index)
    (hheap : t'.heap = Function.update (Function.update t.heap a c) z
      { t.heap z with index := i })
    (hpoller : t'.poller =
      ⟨Function.update t.poller.channels (fd a) none, (t.poller.pollfds.set i back).dropLast⟩) :
    Swapped live fd t t' a z i := by
  obtain ⟨hself, hcfd, hindex⟩ := hc
  have hat : t'.heap a = c := by
    rw [hheap, Function.update_of_ne hza.symm, Function.update_self]
  have hzt : t'.heap z = { t.heap z with index := i } := by rw [hheap, Function.update_self]
  have hother : ∀ b, b ≠ a → b ≠ z → t'.heap b = t.heap b := by
    intro b hba hbz
    rw [hheap, Function.update_of_ne hbz, Function.update_of_ne hba]
  refine ⟨fun b => ?_, by rw [hat, hindex], hzt, hother, ?_, fun b hb hne => ?_,
    fun j hji hj => ?_, ?_, ?_⟩
  · by_cases hba : b = a
    · rw [hba, hat]
      exact ⟨hself, hcfd⟩
    · by_cases hbz : b = z
      · rw [hbz, hzt]
        exact ⟨rfl, rfl⟩
      · rw [hother b hba hbz]
        exact ⟨rfl, rfl⟩
  · rw [hpoller]
    exact Function.update_self ..
  · rw [hpoller]
    exact Function.update_of_ne (fun heq => hne (hfd.inj b a hb ha heq)) _ _
  · rw [hpoller, List.getElem?_dropLast, List.length_set, if_pos hj,
      List.getElem?_set_ne hji.symm]
  · rw [hpoller, List.getElem?_dropLast, List.length_set, if_pos hi,
      List.getElem?_set_self (by omega), hback]
  · rw [hpoller, List.length_dropLast, List.length_set]

theorem Swapped.listed (hs : Swapped live fd t t' a z i) (h : Polled live fd st t)
    (hfd : Distinct live fd) (ha : live a) (hz : live z)
    (he : Entered (t.heap a) t.poller i f)
    (hez : Entered (t.heap z) t.poller (t.poller.pollfds.length - 1) back.fd) {b : ℕ}
    (hb : live b) :
    Listed (t'.heap b) t'.poller (Function.update st a .removed b) := by
  have hplace := (h.placed b hb).2
  by_cases hba : b = a
  · subst hba
    rw [Function.update_self]
    refine ⟨?_, ?_⟩
    · rw [hs.removed, he.index]
      exact Int.natCast_nonneg i
    · rw [(hs.placed b).2, hplace, hs.unknown]
  · rw [Function.update_of_ne hba]
    by_cases hbz : b = z
    · subst hbz
      rw [hs.moved]
      refine (h.listed b hb).frame rfl (hplace ▸ hs.map b hb hba) (fun hno => ?_) fun j g hej => ?_
      · exact absurd hez (hno _ _)
      · obtain rfl : j = t.poller.pollfds.length - 1 :=
          Int.ofNat.inj (hej.index.symm.trans hez.index)
        exact ⟨i, rfl, hs.last⟩
    · rw [hs.other b hba hbz]
      refine (h.listed b hb).keep (hplace ▸ hs.map b hb hba) fun j g hej => hs.entry j ?_ ?_
      · rintro rfl
        exact hba (h.entry_unique hfd hb ha hej he)
      · have hjlen := (List.getElem?_eq_some_iff.mp hej.entry).1
        have hne : j ≠ t.poller.pollfds.length - 1 := by
          rintro rfl
          exact hbz (h.entry_unique hfd hb hz hej hez)
        omega

theorem Swapped.owned (hs : Swapped live fd t t' a z i) (h : Polled live fd st t) (hz : live z)
    (hza : z ≠ a) (he : Entered (t.heap a) t.poller i f)
    (hez : Entered (t.heap z) t.poller (t.poller.pollfds.length - 1) back.fd) {j : ℕ}
    {pfd : PollFd} (hj : t'.poller.pollfds[j]? = some pfd) :
    ∃ b, live b ∧ (t'.heap b).index = j ∧ t'.poller.channels (fd b) = some b := by
  have hjlt : j < t.poller.pollfds.length - 1 := by
    have hlen := (List.getElem?_eq_some_iff.mp hj).1
    rwa [hs.length] at hlen
  by_cases hji : j = i
  · subst hji
    refine ⟨z, hz, by rw [hs.moved], ?_⟩
    have hknown := hez.known
    rw [(h.placed z hz).1, (h.placed z hz).2] at hknown
    rw [hs.map z hz hza, hknown]
  · rw [hs.entry j hji hjlt] at hj
    obtain ⟨b, hb, hbj, hknown⟩ := h.owned j pfd hj
    have hba : b ≠ a := by
      rintro rfl
      rw [he.index] at hbj
      omega
    have hbz : b ≠ z := by
      rintro rfl
      rw [hez.index] at hbj
      omega
    exact ⟨b, hb, by rw [hs.other b hba hbz, hbj], by rw [hs.map b hb hba, hknown]⟩

theorem Polled.swap (h : Polled live fd st t) (hs : Swapped live fd t t' a z i)
    (hfd : Distinct live fd) (ha : live a) (hz : live z) (hza : z ≠ a)
    (he : Entered (t.heap a) t.poller i f)
    (hez : Entered (t.heap z) t.poller (t.poller.pollfds.length - 1) back.fd) :
    Polled live fd (Function.update st a .removed) t' := by
  refine ⟨fun b hb => ?_, fun b hb => hs.listed h hfd ha hz he hez hb, fun j pfd hj => ?_⟩
  · obtain ⟨hself, hplace⟩ := hs.placed b
    rw [hself, hplace]
    exact h.placed b hb
  · exact hs.owned h hz hza he hez hj

end Swap

/-- The channel as `remove` hands it to the poller. -/
def retired (c : Channel) : Channel := { c with addedToLoop := false }

theorem exec_remove {a : ℕ} {p : PollPoller} {heap : ℕ → Channel}
    (hnone : (t.heap a).isNoneEvent = true)
    (h : t.poller.removeChannel (Function.update t.heap a (retired (t.heap a)))
      (retired (t.heap a)) = .ok (p, heap)) :
    exec poll t (.remove a) = .ok { t with
      poller := p
      heap := heap
      removed := Function.update t.removed a true } := by
  rw [retired] at h
  simp only [exec, poll, ensure_of _ hnone, Function.update_self, h, ok_bind, pure, Except.pure,
    Except.mapError]

/-- The assertions of `removeChannel` on a channel that is known and not watched. -/
theorem removeChannel_entered {c : Channel} {p : PollPoller} {i : ℕ} {back : PollFd}
    (h : Entered c p i (PollPoller.ignored c.fd)) (hnone : c.events = Channel.kNoneEvent)
    (hback : p.pollfds[p.pollfds.length - 1]? = some back) (heap : ℕ → Channel) :
    p.removeChannel heap (retired c) =
      if i = p.pollfds.length - 1 then
        .ok (⟨Function.update p.channels c.fd none, p.pollfds.dropLast⟩, heap)
      else
        match Function.update p.channels c.fd none (decode back.fd) with
        | none => .error .nullChannel
        | some z => .ok (⟨Function.update p.channels c.fd none, (p.pollfds.set i back).dropLast⟩,
            Function.update heap z { heap z with index := i }) := by
  have hindex : (retired c).index = i := h.index
  have hknown : p.channels (retired c).fd = some (retired c).self := h.known
  have hevents : (retired c).isNoneEvent = true := by
    rw [isNoneEvent_eq]
    exact decide_eq_true hnone
  have hassert : PollPoller.ignored c.fd = PollPoller.ignored (retired c).fd ∧
      c.events = (retired c).events := ⟨rfl, rfl⟩
  rw [← List.getLast?_eq_getElem?] at hback
  rw [PollPoller.removeChannel, ensure_of _ hknown, ok_bind, ensure_of _ hevents, ok_bind,
    ensure_of _ (by omega), ok_bind]
  simp only [hindex, Int.toNat_natCast, h.entry, hback, ensure_of _ hassert, ok_bind]
  rfl

theorem Polled.remove (h : Polled live fd st t) (hfd : Distinct live fd) {a : ℕ} (ha : live a)
    (hst : st a = .ignored) :
    ∃ t', exec poll t (.remove a) = .ok t' ∧
      Polled live fd (Function.update st a .removed) t' ∧
      ∀ b, (t'.heap b).events = (t.heap b).events := by
  obtain ⟨hself, hplace⟩ := h.placed a ha
  have hlisted := h.listed a ha
  rw [hst] at hlisted
  obtain ⟨hnone, i, he⟩ := hlisted
  have hisNone : (t.heap a).isNoneEvent = true := by
    rw [isNoneEvent_eq]
    exact decide_eq_true hnone
  have hilen : i < t.poller.pollfds.length := (List.getElem?_eq_some_iff.mp he.entry).1
  obtain ⟨back, hback⟩ : ∃ back, t.poller.pollfds[t.poller.pollfds.length - 1]? = some back :=
    ⟨_, List.getElem?_eq_getElem (by omega)⟩
  have hremove := removeChannel_entered he hnone hback
    (Function.update t.heap a (retired (t.heap a)))
  by_cases hlast : i = t.poller.pollfds.length - 1
  · rw [if_pos hlast] at hremove
    refine ⟨_, exec_remove hisNone hremove, ?_, update_events rfl⟩
    exact h.pop hfd ha he hlast (c := retired (t.heap a)) ⟨rfl, rfl, rfl⟩ rfl (by rw [hplace])
  · obtain ⟨z, hz, hez, hdecode⟩ := h.owner hfd hback
    have hza : z ≠ a := by
      rintro rfl
      exact hlast (Int.ofNat.inj (he.index.symm.trans hez.index))
    have hknown : Function.update t.poller.channels (t.heap a).fd none (decode back.fd) =
        some z := by
      have hk := hez.known
      rw [(h.placed z hz).1, (h.placed z hz).2] at hk
      rw [hdecode, hplace, Function.update_of_ne (fun heq => hza (hfd.inj z a hz ha heq)), hk]
    rw [if_neg hlast, hknown] at hremove
    dsimp only at hremove
    refine ⟨_, exec_remove hisNone hremove, ?_, fun b => ?_⟩
    · refine h.swap (swapped hfd ha hza hback (by omega) (c := retired (t.heap a))
        ⟨rfl, rfl, rfl⟩ ?_ (by rw [hplace])) hfd ha hz hza he hez
      rw [Function.update_of_ne hza]
    · refine (update_events ?_ b).trans (update_events ?_ b)
      · rfl
      · rfl

theorem Polled.remove_again (h : Polled live fd st t) {a : ℕ} (ha : live a)
    (hst : st a = .removed) (hnone : (t.heap a).isNoneEvent = true) :
    ∃ fault, exec poll t (.remove a) = .error fault := by
  have hlisted := h.listed a ha
  rw [hst] at hlisted
  have hunknown : t.poller.channels (t.heap a).fd ≠ some (t.heap a).self := by simp [hlisted.2]
  refine ⟨.poller .removeUnknown, ?_⟩
  simp only [exec, poll, ensure_of _ hnone, ok_bind, Function.update_self,
    PollPoller.removeChannel, ensure_of_not _ hunknown, error_bind, Except.mapError]

end Poll

end Muduo.System.Polling
