import Muduo.System.Queueing

/-! The bounded queue keeps its bound and its order, and its two condition variables lose no
wake-up, whatever the threads do, for every container that does what is assumed of
`boost::circular_buffer`. -/

namespace Muduo.System.Queueing

open Library Base BoundedBlockingQueue

variable {β α : Type} {C : CircularBuffer β α} {capacity : β → ℕ} {items : β → List α}

/-! ### What the bodies do -/

/-- The two bodies, behind their loops. -/
inductive Effect (capacity : β → ℕ) (items : β → List α) (s : Shared β α) :
    Call α → Monitor.Done (Shared β α) Condition (Option α) → Prop
  | put {x : α} {queue : BoundedBlockingQueue β}
      (hfree : (items s.queue.queue).length ≠ capacity s.queue.queue)
      (hitems : items queue.queue = items s.queue.queue ++ [x])
      (hcapacity : capacity queue.queue = capacity s.queue.queue) :
      Effect capacity items s (.put x)
        ⟨{ s with queue := queue, put := s.put ++ [x] }, .notify .notEmpty, none⟩
  | take {front : α} {queue : BoundedBlockingQueue β}
      (hitems : items s.queue.queue = front :: items queue.queue)
      (hcapacity : capacity queue.queue = capacity s.queue.queue) :
      Effect capacity items s .take
        ⟨{ s with queue := queue, taken := s.taken ++ [front] }, .notify .notFull, some front⟩

theorem body_effect (hC : C.Lawful capacity items) {s : Shared β α} {m : Call α}
    (h : (methods C).blocked m s = false) :
    ∃ done, (methods C).body m s = .ok done ∧ Effect capacity items s m done := by
  cases m with
  | put x =>
      have hfull : C.full s.queue.queue = false := h
      have hfree : (items s.queue.queue).length ≠ capacity s.queue.queue := fun heq =>
        Bool.eq_false_iff.mp hfull ((hC.full _).mpr heq)
      obtain ⟨hcapacity, hitems⟩ := hC.pushBack s.queue.queue x hfull
      have hput : s.queue.put C x = .ok ⟨C.pushBack s.queue.queue x⟩ := by
        rw [BoundedBlockingQueue.put, ensure_of _ hfull]
        rfl
      refine ⟨_, ?_, .put hfree hitems hcapacity⟩
      simp only [methods, hput, ok_bind]
      rfl
  | take =>
      have hsome : C.empty s.queue.queue = false := h
      obtain ⟨hcapacity, htail⟩ := hC.popFront s.queue.queue hsome
      have hitems : items s.queue.queue =
          C.front s.queue.queue hsome :: items (C.popFront s.queue.queue) := by
        rw [htail]
        exact List.eq_cons_of_mem_head? (hC.front _ hsome)
      refine ⟨_, ?_, .take hitems hcapacity⟩
      simp only [methods, BoundedBlockingQueue.take, dif_pos hsome, ok_bind]
      rfl

theorem effect_of_body (hC : C.Lawful capacity items) {s : Shared β α} {m : Call α}
    {done : Monitor.Done (Shared β α) Condition (Option α)}
    (h : (methods C).blocked m s = false) (hbody : (methods C).body m s = .ok done) :
    Effect capacity items s m done := by
  obtain ⟨done', hbody', heffect⟩ := body_effect hC h
  rw [hbody'] at hbody
  exact Except.ok.inj hbody ▸ heffect

/-! ### The bound -/

/-- The capacity is the size asked for, and there are not more items than that. -/
structure Within (capacity : β → ℕ) (items : β → List α) (maxSize : ℕ) (s : Shared β α) : Prop where
  capacity_eq : capacity s.queue.queue = maxSize
  bounded : (items s.queue.queue).length ≤ maxSize

/-- An item comes behind the others only when the loop of `put` has found a free slot. -/
theorem Effect.within {maxSize : ℕ} {s : Shared β α} {m : Call α}
    {done : Monitor.Done (Shared β α) Condition (Option α)} (h : Effect capacity items s m done)
    (hs : Within capacity items maxSize s) : Within capacity items maxSize done.shared := by
  obtain ⟨hcapacity, hbounded⟩ := hs
  cases h with
  | put hfree hitems hsame =>
      refine ⟨hsame.trans hcapacity, ?_⟩
      rw [hcapacity] at hfree
      rw [hitems, List.length_append, List.length_singleton]
      exact Nat.lt_of_le_of_ne hbounded hfree
  | take hitems hsame =>
      refine ⟨hsame.trans hcapacity, ?_⟩
      rw [hitems, List.length_cons] at hbounded
      exact Nat.le_of_succ_le hbounded

/-! ### The two conditions -/

/-- How many items there are. -/
def size (items : β → List α) (s : Shared β α) : ℕ := (items s.queue.queue).length

/-- How many slots are free. -/
def freeSlots (items : β → List α) (maxSize : ℕ) (s : Shared β α) : ℕ :=
  maxSize - (items s.queue.queue).length

theorem serves_notEmpty (hC : C.Lawful capacity items) (maxSize : ℕ) :
    (methods C).Serves (Within capacity items maxSize) .notEmpty (size items) where
  waits m s _ hm hblocked := by
    cases m with
    | put x => cases hm
    | take =>
        rw [size, (hC.empty _).mp hblocked]
        rfl
  uses m s done _ hm hfree hbody := by
    cases effect_of_body hC hfree hbody with
    | put _ _ _ => cases hm
    | take hitems _ => simp [size, hitems]
  signals m s done _ hm hfree hbody := by
    cases effect_of_body hC hfree hbody with
    | put _ hitems _ => exact .inr ⟨by simp [size, hitems], rfl⟩
    | take _ _ => exact absurd rfl hm

theorem serves_notFull (hC : C.Lawful capacity items) (maxSize : ℕ) :
    (methods C).Serves (Within capacity items maxSize) .notFull (freeSlots items maxSize) where
  waits m s hs hm hblocked := by
    cases m with
    | put x => rw [freeSlots, (hC.full _).mp hblocked, hs.capacity_eq, Nat.sub_self]
    | take => cases hm
  uses m s done hs hm hfree hbody := by
    have hafter := ((effect_of_body hC hfree hbody).within hs).bounded
    cases effect_of_body hC hfree hbody with
    | put _ hitems _ =>
        simp only [freeSlots, hitems, List.length_append, List.length_singleton] at hafter ⊢
        omega
    | take _ _ => cases hm
  signals m s done _ hm hfree hbody := by
    cases effect_of_body hC hfree hbody with
    | put _ _ _ => exact absurd rfl hm
    | take hitems _ =>
        refine .inr ⟨?_, rfl⟩
        simp only [freeSlots, hitems, List.length_cons]
        omega

/-! ### Runs -/

structure Inv (C : CircularBuffer β α) (capacity : β → ℕ) (items : β → List α) (maxSize : ℕ)
    (s : State β α) : Prop where
  exclusive : Monitor.Methods.Exclusive s
  within : Within capacity items maxSize s.shared
  fifo : s.shared.put = s.shared.taken ++ items s.shared.queue.queue
  notEmpty : (methods C).NoneLost .notEmpty (size items) s
  notFull : (methods C).NoneLost .notFull (freeSlots items maxSize) s

theorem inv_start (hC : C.Lawful capacity items) (maxSize threads : ℕ) :
    Inv C capacity items maxSize (start C maxSize threads) := by
  obtain ⟨hcapacity, hitems⟩ := hC.ctor maxSize
  have hnone : items (start C maxSize threads).shared.queue.queue = [] := hitems
  refine ⟨Monitor.Methods.exclusive_start _ _, ⟨hcapacity, ?_⟩, ?_, fun h => ?_, fun h => ?_⟩
  · rw [hnone]
    exact Nat.zero_le _
  · rw [hnone]
    rfl
  · simp [start, Monitor.start, List.countP_replicate, Monitor.Methods.sleepsOn] at h
  · simp [start, Monitor.start, List.countP_replicate, Monitor.Methods.sleepsOn] at h

theorem Effect.fifo {s : Shared β α} {m : Call α}
    {done : Monitor.Done (Shared β α) Condition (Option α)} (h : Effect capacity items s m done)
    (hs : s.put = s.taken ++ items s.queue.queue) :
    done.shared.put = done.shared.taken ++ items done.shared.queue.queue := by
  cases h with
  | put _ hitems _ => simp [hs, hitems]
  | take hitems _ => simp [hs, hitems]

/-- Only the bodies touch the queue and its history. -/
theorem Inv.step (hC : C.Lawful capacity items) {maxSize : ℕ} {s s' : State β α}
    {l : Monitor.Label (Call α)} (h : Inv C capacity items maxSize s)
    (hstep : (methods C).Step s l s') : Inv C capacity items maxSize s' := by
  have hkept : Within capacity items maxSize s'.shared ∧
      s'.shared.put = s'.shared.taken ++ items s'.shared.queue.queue := by
    cases hstep with
    | finish _ hfree hbody _ =>
        have heffect := effect_of_body hC hfree hbody
        exact ⟨heffect.within h.within, heffect.fifo h.fifo⟩
    | _ => exact ⟨h.within, h.fifo⟩
  exact ⟨hstep.exclusive h.exclusive, hkept.1, hkept.2,
    hstep.noneLost (serves_notEmpty hC maxSize) h.within h.notEmpty,
    hstep.noneLost (serves_notFull hC maxSize) h.within h.notFull⟩

theorem exec_inv (hC : C.Lawful capacity items) {maxSize : ℕ} (s : State β α)
    (l : Monitor.Label (Call α)) (h : Inv C capacity items maxSize s) (hl : Enabled C s l) :
    ∃ s', exec C s l = .ok s' ∧ Inv C capacity items maxSize s' := by
  have hbody : ∀ m, (methods C).blocked m s.shared = false →
      ∃ done, (methods C).body m s.shared = .ok done := by
    intro m hm
    obtain ⟨done, hdone, -⟩ := body_effect hC hm
    exact ⟨done, hdone⟩
  obtain ⟨s', hs', hstep⟩ := Monitor.Methods.exec_step hl hbody
  exact ⟨s', hs', h.step hC hstep⟩

/-- A thread that holds the mutex after a wake-up, but has not tested its condition, counts as
woken; while the mutex is free there is none. -/
structure Sound (C : CircularBuffer β α) (items : β → List α) (maxSize : ℕ) (s : State β α) :
    Prop where
  bounded : (items s.shared.queue.queue).length ≤ maxSize
  fifo : s.shared.taken <+: s.shared.put
  consumers : 0 < s.sleepingConsumers C →
    (items s.shared.queue.queue).length ≤ s.wokenConsumers C
  producers : 0 < s.sleepingProducers C →
    maxSize - (items s.shared.queue.queue).length ≤ s.wokenProducers C
  unheld : s.owner = none → ∀ p ∈ s.places, p.holds = false

theorem Inv.sound {maxSize : ℕ} {s : State β α} (h : Inv C capacity items maxSize s) :
    Sound C items maxSize s where
  bounded := h.within.bounded
  fifo := ⟨items s.shared.queue.queue, h.fifo.symm⟩
  consumers := h.notEmpty
  producers := h.notFull
  unheld hfree p hp := by
    obtain ⟨t, ht⟩ := List.mem_iff_getElem?.mp hp
    have hiff := h.exclusive t
    rw [hfree, ht] at hiff
    exact Bool.eq_false_iff.mpr fun hholds => Option.some_ne_none t (hiff.mpr hholds).symm

/-- Any number of producers and consumers in any interleaving, over any container that does what is
assumed of it: the bound is kept, the items come out in the order in which they went in, and no
wake-up is lost. -/
theorem bounded_queue_sound (C : CircularBuffer β α) (capacity : β → ℕ) (items : β → List α)
    (hC : C.Lawful capacity items) (maxSize threads : ℕ) (ls : List (Monitor.Label (Call α)))
    (hl : LegalRun (exec C) (Enabled C) (start C maxSize threads) ls) :
    ∃ s, run (exec C) (start C maxSize threads) ls = .ok s ∧ Sound C items maxSize s := by
  obtain ⟨s, hs, hinv⟩ := run_invariant (exec_inv hC) (inv_start hC maxSize threads) hl
  exact ⟨s, hs, hinv.sound⟩

/-- A container that is a list beside its capacity. -/
def listBuffer (α : Type) : CircularBuffer (ℕ × List α) α where
  ctor n := (n, [])
  full b := b.2.length = b.1
  empty b := b.2.isEmpty
  pushBack b x := (b.1, b.2 ++ [x])
  front b h := b.2.head (List.isEmpty_eq_false_iff.mp h)
  popFront b := (b.1, b.2.tail)

theorem listBuffer_lawful (α : Type) : (listBuffer α).Lawful Prod.fst Prod.snd where
  ctor _ := ⟨rfl, rfl⟩
  full _ := decide_eq_true_iff
  empty _ := List.isEmpty_iff
  pushBack _ _ _ := ⟨rfl, rfl⟩
  front _ h := List.head?_eq_some_head (List.isEmpty_eq_false_iff.mp h)
  popFront _ _ := ⟨rfl, rfl⟩

/-- Two consumers fall asleep, an item wakes one of them, and a newcomer takes it. -/
def stolen : List (Monitor.Label (Call ℕ)) :=
  [.call 0 .take, .lock 0, .proceed 0 none, .call 1 .take, .lock 1, .proceed 1 none,
    .call 2 (.put 7), .lock 2, .proceed 2 (some 0), .unlock 2,
    .call 3 .take, .lock 3, .proceed 3 none, .unlock 3, .lock 0, .proceed 0 none, .spurious 1]

theorem bounded_queue_sound_stolen :
    (listBuffer ℕ).Lawful Prod.fst Prod.snd ∧
      LegalRun (exec (listBuffer ℕ)) (Enabled (listBuffer ℕ)) (start (listBuffer ℕ) 1 4) stolen ∧
      ∃ s, run (exec (listBuffer ℕ)) (start (listBuffer ℕ) 1 4) stolen = .ok s ∧
        Sound (listBuffer ℕ) Prod.snd 1 s :=
  have hlegal : LegalRun (exec (listBuffer ℕ)) (Enabled (listBuffer ℕ))
      (start (listBuffer ℕ) 1 4) stolen := by
    decide
  ⟨listBuffer_lawful ℕ, hlegal,
    bounded_queue_sound (listBuffer ℕ) Prod.fst Prod.snd (listBuffer_lawful ℕ) 1 4 stolen hlegal⟩

end Muduo.System.Queueing
