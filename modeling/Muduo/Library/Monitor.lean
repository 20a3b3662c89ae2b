import Muduo.Library.Run
import Mathlib.Data.Bool.Basic
import Mathlib.Data.List.Forall2

/-! Monitors with condition variables that follow the discipline of Mesa: a notified thread
competes for the mutex and tests its condition again. Every method waits in a loop, then
executes its body and signals. -/

namespace Muduo.Library.Monitor

/-- What a body does to the condition variables. -/
inductive Signal (κ : Type) where
  | none
  | notify (c : κ)
  | notifyAll (c : κ)
  deriving DecidableEq, Repr

structure Done (σ κ ρ : Type) where
  shared : σ
  signal : Signal κ
  result : ρ

/-- The methods `μ` over the shared state `σ`: while `blocked` holds, a thread waits for
`condition`; the body comes after the loop. -/
structure Methods (μ σ κ ρ ε : Type) where
  condition : μ → κ
  blocked : μ → σ → Bool
  body : μ → σ → Except ε (Done σ κ ρ)

/-- Where a thread stands: not in a method, in front of the mutex, at the test of the loop
(after a wait or not), behind the body, asleep, or woken and in front of the mutex. -/
inductive Place (μ ρ : Type) where
  | outside
  | entering (m : μ)
  | testing (m : μ) (resumed : Bool)
  | leaving (m : μ) (result : ρ)
  | sleeping (m : μ)
  | woken (m : μ)
  deriving DecidableEq, Repr

namespace Place

variable {μ ρ : Type}

/-- The thread has the mutex. -/
def holds : Place μ ρ → Bool
  | testing _ _ => true
  | leaving _ _ => true
  | _ => false

/-- The thread is in front of the mutex. -/
def wants : Place μ ρ → Bool
  | entering _ => true
  | woken _ => true
  | _ => false

def isOutside : Place μ ρ → Bool
  | outside => true
  | _ => false

def isTesting : Place μ ρ → Bool
  | testing _ _ => true
  | _ => false

def isLeaving : Place μ ρ → Bool
  | leaving _ _ => true
  | _ => false

def isSleeping : Place μ ρ → Bool
  | sleeping _ => true
  | _ => false

/-- The method the thread is in. -/
def method : Place μ ρ → Option μ
  | outside => none
  | entering m => some m
  | testing m _ => some m
  | leaving m _ => some m
  | sleeping m => some m
  | woken m => some m

/-- What a notification does to a thread. -/
def wake : Place μ ρ → Place μ ρ
  | sleeping m => woken m
  | p => p

end Place

structure State (μ σ ρ : Type) where
  shared : σ
  owner : Option ℕ
  places : List (Place μ ρ)
  deriving DecidableEq, Repr

/-- `proceed` goes from the test of the loop to the wait, or through the body; `w` is the
thread that its notification wakes. -/
inductive Label (μ : Type) where
  | call (t : ℕ) (m : μ)
  | lock (t : ℕ)
  | proceed (t : ℕ) (w : Option ℕ)
  | unlock (t : ℕ)
  | spurious (t : ℕ)
  deriving DecidableEq, Repr

/-- The thread that makes the step. -/
def Label.thread {μ : Type} : Label μ → ℕ
  | call t _ => t
  | lock t => t
  | proceed t _ => t
  | unlock t => t
  | spurious t => t

/-- The method the thread `t` is in. -/
def State.methodOf {μ σ ρ : Type} (s : State μ σ ρ) (t : ℕ) : Option μ :=
  (s.places[t]?).bind Place.method

def start {μ σ ρ : Type} (shared : σ) (threads : ℕ) : State μ σ ρ where
  shared := shared
  owner := none
  places := List.replicate threads .outside

variable {μ σ κ ρ ε : Type} [DecidableEq κ]

namespace Methods

variable (M : Methods μ σ κ ρ ε)

/-- Asleep and not notified. -/
def sleepsOn (c : κ) : Place μ ρ → Bool
  | .sleeping m => M.condition m = c
  | _ => false

/-- Woken, and the condition has not been tested again. -/
def wokenOn (c : κ) : Place μ ρ → Bool
  | .woken m => M.condition m = c
  | .testing m true => M.condition m = c
  | _ => false

def wakeOn (c : κ) (p : Place μ ρ) : Place μ ρ := if M.sleepsOn c p then p.wake else p

/-- The threads after a signal. -/
def notified (places : List (Place μ ρ)) : Signal κ → Option ℕ → List (Place μ ρ)
  | .none, _ => places
  | .notify _, none => places
  | .notify _, some w => places.modify w .wake
  | .notifyAll c, _ => places.map (M.wakeOn c)

/-- A notification wakes one of the threads that sleep, if there are any. -/
def Chosen (places : List (Place μ ρ)) : Signal κ → Option ℕ → Prop
  | .notify c, none => places.countP (M.sleepsOn c) = 0
  | .notify c, some w => (places[w]?).any (M.sleepsOn c) = true
  | _, _ => True

instance (places : List (Place μ ρ)) :
    ∀ (signal : Signal κ) (w : Option ℕ), Decidable (M.Chosen places signal w)
  | .none, _ => .isTrue trivial
  | .notify c, none => inferInstanceAs (Decidable (places.countP (M.sleepsOn c) = 0))
  | .notify c, some w => inferInstanceAs (Decidable ((places[w]?).any (M.sleepsOn c) = true))
  | .notifyAll _, _ => .isTrue trivial

/-- From the test of the loop. -/
def proceed (s : State μ σ ρ) (t : ℕ) (m : μ) (w : Option ℕ) : Except ε (State μ σ ρ) :=
  if M.blocked m s.shared then
    .ok { s with owner := none, places := s.places.set t (.sleeping m) }
  else do
    let done ← M.body m s.shared
    return { s with
      shared := done.shared
      places := (M.notified s.places done.signal w).set t (.leaving m done.result) }

def exec (s : State μ σ ρ) : Label μ → Except ε (State μ σ ρ)
  | .call t m => .ok { s with places := s.places.set t (.entering m) }
  | .lock t =>
      match s.places[t]? with
      | some (.entering m) =>
          .ok { s with owner := some t, places := s.places.set t (.testing m false) }
      | some (.woken m) =>
          .ok { s with owner := some t, places := s.places.set t (.testing m true) }
      | _ => .ok s
  | .proceed t w =>
      match s.places[t]? with
      | some (.testing m _) => M.proceed s t m w
      | _ => .ok s
  | .unlock t => .ok { s with owner := none, places := s.places.set t .outside }
  | .spurious t =>
      match s.places[t]? with
      | some (.sleeping m) => .ok { s with places := s.places.set t (.woken m) }
      | _ => .ok s

/-- The signal that `proceed` sends. -/
def signalOf (s : State μ σ ρ) (t : ℕ) : Signal κ :=
  match s.places[t]? with
  | some (.testing m _) =>
      if M.blocked m s.shared then .none
      else
        match M.body m s.shared with
        | .ok done => done.signal
        | .error _ => .none
  | _ => .none

/-- When a step can come. -/
def Enabled (s : State μ σ ρ) : Label μ → Prop
  | .call t _ => (s.places[t]?).any Place.isOutside = true
  | .lock t => s.owner = none ∧ (s.places[t]?).any Place.wants = true
  | .proceed t w =>
      (s.places[t]?).any Place.isTesting = true ∧ M.Chosen s.places (M.signalOf s t) w
  | .unlock t => (s.places[t]?).any Place.isLeaving = true
  | .spurious t => (s.places[t]?).any Place.isSleeping = true

instance (s : State μ σ ρ) : ∀ l : Label μ, Decidable (M.Enabled s l)
  | .call _ _ => inferInstanceAs (Decidable (_ = _))
  | .lock _ => inferInstanceAs (Decidable (_ ∧ _))
  | .proceed _ _ => inferInstanceAs (Decidable (_ ∧ _))
  | .unlock _ => inferInstanceAs (Decidable (_ = _))
  | .spurious _ => inferInstanceAs (Decidable (_ = _))

/-! ### The rules of one step -/

inductive Step (s : State μ σ ρ) : Label μ → State μ σ ρ → Prop
  | call {t : ℕ} {m : μ} (h : s.places[t]? = some .outside) :
      Step s (.call t m) { s with places := s.places.set t (.entering m) }
  | enter {t : ℕ} {m : μ} (hfree : s.owner = none) (h : s.places[t]? = some (.entering m)) :
      Step s (.lock t) { s with owner := some t, places := s.places.set t (.testing m false) }
  | resume {t : ℕ} {m : μ} (hfree : s.owner = none) (h : s.places[t]? = some (.woken m)) :
      Step s (.lock t) { s with owner := some t, places := s.places.set t (.testing m true) }
  | wait {t : ℕ} {m : μ} {b : Bool} {w : Option ℕ} (h : s.places[t]? = some (.testing m b))
      (hblocked : M.blocked m s.shared = true) :
      Step s (.proceed t w) { s with owner := none, places := s.places.set t (.sleeping m) }
  | finish {t : ℕ} {m : μ} {b : Bool} {w : Option ℕ} {done : Done σ κ ρ}
      (h : s.places[t]? = some (.testing m b)) (hfree : M.blocked m s.shared = false)
      (hbody : M.body m s.shared = .ok done) (hchosen : M.Chosen s.places done.signal w) :
      Step s (.proceed t w) { s with
        shared := done.shared
        places := (M.notified s.places done.signal w).set t (.leaving m done.result) }
  | unlock {t : ℕ} {m : μ} {r : ρ} (h : s.places[t]? = some (.leaving m r)) :
      Step s (.unlock t) { s with owner := none, places := s.places.set t .outside }
  | spurious {t : ℕ} {m : μ} (h : s.places[t]? = some (.sleeping m)) :
      Step s (.spurious t) { s with places := s.places.set t (.woken m) }

variable {M}

/-- If no body fails behind its loop, every step that can come is one of these. -/
theorem exec_step {s : State μ σ ρ} {l : Label μ} (h : M.Enabled s l)
    (hbody : ∀ m, M.blocked m s.shared = false → ∃ done, M.body m s.shared = .ok done) :
    ∃ s', M.exec s l = .ok s' ∧ M.Step s l s' := by
  cases l with
  | call t m =>
      obtain ⟨p, hp, hout⟩ := (Option.any_eq_true _ _).mp h
      cases p with
      | outside => exact ⟨_, rfl, .call hp⟩
      | _ => cases hout
  | lock t =>
      obtain ⟨hfree, h⟩ := h
      obtain ⟨p, hp, hwants⟩ := (Option.any_eq_true _ _).mp h
      cases p with
      | entering m => exact ⟨_, by rw [exec, hp], .enter hfree hp⟩
      | woken m => exact ⟨_, by rw [exec, hp], .resume hfree hp⟩
      | _ => cases hwants
  | proceed t w =>
      obtain ⟨h, hchosen⟩ := h
      obtain ⟨p, hp, htesting⟩ := (Option.any_eq_true _ _).mp h
      cases p with
      | testing m b =>
          rw [signalOf, hp] at hchosen
          cases hblocked : M.blocked m s.shared with
          | true =>
              refine ⟨_, ?_, .wait hp hblocked⟩
              rw [exec, hp]
              exact if_pos hblocked
          | false =>
              obtain ⟨done, hdone⟩ := hbody m hblocked
              simp only [hblocked, hdone, Bool.false_eq_true, if_false] at hchosen
              refine ⟨_, ?_, .finish hp hblocked hdone hchosen⟩
              simp only [exec, hp, proceed, hblocked, hdone, Bool.false_eq_true, if_false]
              rfl
      | _ => cases htesting
  | unlock t =>
      obtain ⟨p, hp, hleaving⟩ := (Option.any_eq_true _ _).mp h
      cases p with
      | leaving m r => exact ⟨_, rfl, .unlock hp⟩
      | _ => cases hleaving
  | spurious t =>
      obtain ⟨p, hp, hsleeping⟩ := (Option.any_eq_true _ _).mp h
      cases p with
      | sleeping m => exact ⟨_, by rw [exec, hp], .spurious hp⟩
      | _ => cases hsleeping

/-! ### Mutual exclusion -/

/-- The owner of the mutex is the one thread between `lock` and `unlock`. -/
def Exclusive (s : State μ σ ρ) : Prop :=
  ∀ t, s.owner = some t ↔ (s.places[t]?).any Place.holds = true

theorem exclusive_start (shared : σ) (threads : ℕ) :
    Exclusive (start shared threads : State μ σ ρ) := by
  intro t
  simp [start, List.getElem?_replicate, Option.any_eq_true, Place.holds]

theorem any_holds_set {places : List (Place μ ρ)} {t : ℕ} {p : Place μ ρ}
    (h : places[t]? = some p) (q : Place μ ρ) (u : ℕ) :
    ((places.set t q)[u]?).any Place.holds =
      if t = u then q.holds else (places[u]?).any Place.holds := by
  have hlt : t < places.length := (List.getElem?_eq_some_iff.mp h).1
  rw [List.getElem?_set, if_pos hlt]
  split <;> rfl

/-- A signal leaves a place as it is, or wakes its thread. -/
theorem getElem?_notified (places : List (Place μ ρ)) (signal : Signal κ) (w : Option ℕ) (t : ℕ) :
    (M.notified places signal w)[t]? = places[t]? ∨
      (M.notified places signal w)[t]? = places[t]?.map Place.wake := by
  cases signal with
  | none => exact .inl rfl
  | notify c =>
      cases w with
      | none => exact .inl rfl
      | some w =>
          by_cases hw : w = t
          · subst hw
            exact .inr (List.getElem?_modify_eq _ _ _)
          · exact .inl (List.getElem?_modify_ne _ _ hw)
  | notifyAll c =>
      rw [notified, List.getElem?_map]
      cases hp : places[t]? with
      | none => exact .inl rfl
      | some p =>
          rw [Option.map_some, wakeOn]
          split
          · exact .inr rfl
          · exact .inl rfl

theorem any_holds_notified (places : List (Place μ ρ)) (signal : Signal κ) (w : Option ℕ) (t : ℕ) :
    ((M.notified places signal w)[t]?).any Place.holds = (places[t]?).any Place.holds := by
  rcases getElem?_notified places signal w t with h | h
  · rw [h]
  · rw [h]
    cases places[t]? with
    | none => rfl
    | some p => cases p <;> rfl

/-- The place of a thread at its test is not touched by the signals of other threads. -/
theorem getElem?_notified_of_holds {places : List (Place μ ρ)} {t : ℕ} {p : Place μ ρ}
    (h : places[t]? = some p) (hp : p.holds = true) (signal : Signal κ) (w : Option ℕ) :
    (M.notified places signal w)[t]? = some p := by
  have hwake : p.wake = p := by
    cases p with
    | sleeping m => cases hp
    | _ => rfl
  rcases getElem?_notified places signal w t with ht | ht
  · rw [ht, h]
  · rw [ht, h, Option.map_some, hwake]

namespace Exclusive

variable {s : State μ σ ρ} {t : ℕ} {p : Place μ ρ}

/-- A thread goes on, with the mutex or without it. -/
theorem keep (hs : Exclusive s) (h : s.places[t]? = some p) {q : Place μ ρ}
    (hq : q.holds = p.holds) : Exclusive { s with places := s.places.set t q } := by
  intro u
  rw [any_holds_set h]
  split
  · next heq =>
      subst heq
      rw [hs t, h, hq]
      rfl
  · exact hs u

theorem acquire (hs : Exclusive s) (h : s.places[t]? = some p) (hfree : s.owner = none)
    {q : Place μ ρ} (hq : q.holds = true) :
    Exclusive { s with owner := some t, places := s.places.set t q } := by
  intro u
  rw [any_holds_set h]
  split
  · next heq => simp [heq, hq]
  · next hne => simp [← hs u, hfree, hne]

theorem release (hs : Exclusive s) (h : s.places[t]? = some p) (hp : p.holds = true)
    {q : Place μ ρ} (hq : q.holds = false) :
    Exclusive { s with owner := none, places := s.places.set t q } := by
  have howner : s.owner = some t := (hs t).mpr (by rw [h]; exact hp)
  intro u
  rw [any_holds_set h]
  split
  · simp [hq]
  · next hne => simp [← hs u, howner, hne]

end Exclusive

theorem Step.exclusive {s s' : State μ σ ρ} {l : Label μ} (hstep : M.Step s l s')
    (hs : Exclusive s) : Exclusive s' := by
  cases hstep with
  | call h => exact hs.keep h rfl
  | enter hfree h => exact hs.acquire h hfree rfl
  | resume hfree h => exact hs.acquire h hfree rfl
  | wait h _ => exact hs.release h rfl rfl
  | @finish t m b w done h _ _ _ =>
      intro u
      have hmid : ((M.notified s.places done.signal w)[t]?).any Place.holds = true := by
        rw [any_holds_notified, h]
        rfl
      obtain ⟨q, hq, -⟩ := (Option.any_eq_true _ _).mp hmid
      change s.owner = some u ↔ _
      rw [any_holds_set hq, any_holds_notified, hs u]
      split
      · next heq =>
          subst heq
          simp [h, Place.holds]
      · exact Iff.rfl
  | unlock h => exact hs.release h rfl rfl
  | spurious h => exact hs.keep h rfl

/-- A thread outside stays there until it calls a method. -/
theorem Step.outside {s s' : State μ σ ρ} {l : Label μ} (hstep : M.Step s l s') {i : ℕ}
    (hi : s.places[i]? = some .outside) (hl : ∀ m, l ≠ .call i m) :
    s'.places[i]? = some .outside := by
  have hset : ∀ {places : List (Place μ ρ)} {t : ℕ} {p : Place μ ρ} (q : Place μ ρ),
      places[t]? = some p → p ≠ .outside → places[i]? = some .outside →
        (places.set t q)[i]? = some .outside := by
    intro places t p q ht hp hout
    have hne : t ≠ i := by
      rintro rfl
      exact hp (Option.some.inj (ht.symm.trans hout))
    rw [List.getElem?_set_ne hne, hout]
  cases hstep with
  | @call t m _ =>
      have hne : t ≠ i := by
        rintro rfl
        exact hl m rfl
      exact (List.getElem?_set_ne hne).trans hi
  | enter _ h => exact hset _ h (by simp) hi
  | resume _ h => exact hset _ h (by simp) hi
  | wait h _ => exact hset _ h (by simp) hi
  | @finish t m b w done h _ _ _ =>
      have hout : (M.notified s.places done.signal w)[i]? = some .outside := by
        rcases getElem?_notified s.places done.signal w i with h' | h' <;> rw [h', hi]
        rfl
      exact hset _ (getElem?_notified_of_holds h rfl done.signal w) (by simp) hout
  | @unlock t m r h =>
      by_cases ht : t = i
      · subst ht
        exact List.getElem?_set_self (List.getElem?_eq_some_iff.mp h).1
      · exact (List.getElem?_set_ne ht).trans hi
  | spurious h => exact hset _ h (by simp) hi

/-- The other threads stay where they are, or are woken. -/
theorem Step.others {s s' : State μ σ ρ} {l : Label μ} (hstep : M.Step s l s') {u : ℕ}
    (hu : l.thread ≠ u) :
    s'.places[u]? = s.places[u]? ∨ s'.places[u]? = s.places[u]?.map Place.wake := by
  cases hstep with
  | @finish t m b w done _ _ _ _ =>
      have hother := List.getElem?_set_ne (l := M.notified s.places done.signal w) hu
        (a := .leaving m done.result)
      exact hother ▸ getElem?_notified s.places done.signal w u
  | _ => exact .inl (List.getElem?_set_ne hu)

/-- A thread is in the method that it has called, until it unlocks the mutex behind it. -/
theorem Step.methodOf {s s' : State μ σ ρ} {l : Label μ} (hstep : M.Step s l s') (u : ℕ) :
    s'.methodOf u = s.methodOf u ∨ (∃ m, l = .call u m ∧ s'.methodOf u = some m) ∨
      l = .unlock u ∧ s'.methodOf u = none := by
  have hwake : ∀ p : Place μ ρ, p.wake.method = p.method := fun p => by cases p <;> rfl
  by_cases hu : l.thread = u
  · have hset : ∀ {places : List (Place μ ρ)} {p : Place μ ρ} (q : Place μ ρ),
        places[u]? = some p → ((places.set u q)[u]?).bind Place.method = q.method := by
      intro places p q hp
      rw [List.getElem?_set_self (List.getElem?_eq_some_iff.mp hp).1]
      rfl
    unfold State.methodOf
    subst hu
    cases hstep with
    | call h => exact .inr (.inl ⟨_, rfl, hset _ h⟩)
    | unlock h => exact .inr (.inr ⟨rfl, hset _ h⟩)
    | enter _ h => exact .inl ((hset _ h).trans (h ▸ rfl))
    | resume _ h => exact .inl ((hset _ h).trans (h ▸ rfl))
    | wait h _ => exact .inl ((hset _ h).trans (h ▸ rfl))
    | finish h _ _ _ =>
        exact .inl ((hset _ (getElem?_notified_of_holds h rfl _ _)).trans (h ▸ rfl))
    | spurious h => exact .inl ((hset _ h).trans (h ▸ rfl))
  · left
    unfold State.methodOf
    rcases hstep.others hu with h | h
    · rw [h]
    · rw [h]
      cases s.places[u]? with
      | none => rfl
      | some p => exact hwake p

/-! ### Lost wake-ups -/

/-- While a thread sleeps on `c`, there are at least as many woken threads as the shared state
has use for. -/
def NoneLost (M : Methods μ σ κ ρ ε) (c : κ) (need : σ → ℕ) (s : State μ σ ρ) : Prop :=
  0 < s.places.countP (M.sleepsOn c) → need s.shared ≤ s.places.countP (M.wokenOn c)

/-- Where `I` holds of the shared state, the methods signal `c` as `need` asks for it: no thread
waits for it while there is need, those that wait for it take from the need, and the others add at
most one with a `notify`. -/
structure Serves (M : Methods μ σ κ ρ ε) (I : σ → Prop) (c : κ) (need : σ → ℕ) : Prop where
  waits : ∀ m s, I s → M.condition m = c → M.blocked m s = true → need s = 0
  uses : ∀ m s done, I s → M.condition m = c → M.blocked m s = false → M.body m s = .ok done →
    need done.shared < need s
  signals : ∀ m s done, I s → M.condition m ≠ c → M.blocked m s = false → M.body m s = .ok done →
    need done.shared ≤ need s ∨ need done.shared ≤ need s + 1 ∧ done.signal = .notify c

theorem countP_set_add {α : Type} {l : List α} {t : ℕ} {p : α} (h : l[t]? = some p) (f : α → Bool)
    (q : α) : (l.set t q).countP f + (f p).toNat = l.countP f + (f q).toNat := by
  obtain ⟨hlt, rfl⟩ := List.getElem?_eq_some_iff.mp h
  have hle := List.boole_getElem_le_countP (p := f) hlt
  rw [List.countP_set hlt]
  cases hp : f l[t] <;> cases f q <;> simp only [hp, Bool.toNat_true, Bool.toNat_false, if_true,
    if_false, Bool.false_eq_true] at hle ⊢ <;> omega

/-- A notification of a thread. -/
theorem modify_wake {places : List (Place μ ρ)} {w : ℕ} {p : Place μ ρ}
    (h : places[w]? = some p) : places.modify w .wake = places.set w p.wake := by
  obtain ⟨hlt, rfl⟩ := List.getElem?_eq_some_iff.mp h
  apply List.ext_getElem
  · simp
  · intro i _ _
    rw [List.getElem_modify, List.getElem_set]
    split <;> simp [*]

theorem countP_le_of_forall₂ {α : Type} {R : α → α → Prop} {f g : α → Bool} {xs ys : List α}
    (h : List.Forall₂ R xs ys) (hfg : ∀ x y, R x y → f x = true → g y = true) :
    xs.countP f ≤ ys.countP g := by
  induction h with
  | nil => exact Nat.le_refl _
  | @cons x y xs ys hxy _ ih =>
      have himp := hfg x y hxy
      rw [List.countP_cons, List.countP_cons]
      split
      · next hx =>
          rw [if_pos (himp hx)]
          exact Nat.succ_le_succ ih
      · exact Nat.le_add_right_of_le ih

theorem forall₂_notified (places : List (Place μ ρ)) (signal : Signal κ) (w : Option ℕ) :
    List.Forall₂ (fun p q => q = p ∨ q = p.wake) places (M.notified places signal w) := by
  have hlength : places.length = (M.notified places signal w).length := by
    cases signal with
    | none => rfl
    | notify c => cases w <;> simp [notified]
    | notifyAll c => simp [notified]
  refine List.forall₂_iff_get.mpr ⟨hlength, fun t h₁ h₂ => ?_⟩
  simp only [List.get_eq_getElem]
  rcases getElem?_notified places signal w t with h | h
  · left
    rwa [List.getElem?_eq_getElem h₂, List.getElem?_eq_getElem h₁, Option.some.injEq] at h
  · right
    rwa [List.getElem?_eq_getElem h₂, List.getElem?_eq_getElem h₁, Option.map_some,
      Option.some.injEq] at h

/-- A property of places that waking keeps holds of no fewer threads after a signal. -/
theorem countP_le_notified (places : List (Place μ ρ)) (signal : Signal κ) (w : Option ℕ)
    {f : Place μ ρ → Bool} (hf : ∀ p, f p = true → f p.wake = true) :
    places.countP f ≤ (M.notified places signal w).countP f := by
  refine countP_le_of_forall₂ (forall₂_notified places signal w) fun p q hpq hp => ?_
  rcases hpq with rfl | rfl
  · exact hp
  · exact hf p hp

/-- A property that waking cannot bring about holds of no more threads after a signal. -/
theorem countP_notified_le (places : List (Place μ ρ)) (signal : Signal κ) (w : Option ℕ)
    {f : Place μ ρ → Bool} (hf : ∀ p : Place μ ρ, f p.wake = true → f p = true) :
    (M.notified places signal w).countP f ≤ places.countP f := by
  refine countP_le_of_forall₂ (forall₂_notified places signal w).flip fun q p hpq hq => ?_
  rcases hpq with rfl | rfl
  · exact hq
  · exact hf p hq

theorem countP_sleepsOn_notified_le (places : List (Place μ ρ)) (signal : Signal κ) (w : Option ℕ)
    (c : κ) : (M.notified places signal w).countP (M.sleepsOn c) ≤ places.countP (M.sleepsOn c) :=
  countP_notified_le _ _ _ fun p hp => by
    cases p with
    | sleeping m => cases hp
    | _ => exact hp

theorem countP_wokenOn_notify {places : List (Place μ ρ)} {c : κ} {w : Option ℕ}
    (hchosen : M.Chosen places (.notify c) w) (hsleeps : 0 < places.countP (M.sleepsOn c)) :
    (M.notified places (.notify c) w).countP (M.wokenOn c) =
      places.countP (M.wokenOn c) + 1 := by
  cases w with
  | none => exact absurd hchosen (Nat.ne_of_gt hsleeps)
  | some w =>
      obtain ⟨p, hp, hsleep⟩ := (Option.any_eq_true _ _).mp hchosen
      cases p with
      | sleeping m =>
          have hcount := countP_set_add hp (M.wokenOn c) (.woken m)
          have hm : M.wokenOn c (.woken m : Place μ ρ) = true := hsleep
          rw [hm] at hcount
          rw [notified, modify_wake hp]
          exact hcount
      | _ => cases hsleep

/-- Only a wait makes more threads sleep. -/
theorem Step.sleepsOn_le {s s' : State μ σ ρ} {l : Label μ} (hstep : M.Step s l s') (c : κ) :
    s'.places.countP (M.sleepsOn c) ≤ s.places.countP (M.sleepsOn c) ∨
      ∃ t m b w, l = .proceed t w ∧ s.places[t]? = some (.testing m b) ∧
        M.blocked m s.shared = true ∧ M.condition m = c := by
  have hset : ∀ {places : List (Place μ ρ)} {t : ℕ} {p q : Place μ ρ}, places[t]? = some p →
      M.sleepsOn c q = false →
        (places.set t q).countP (M.sleepsOn c) ≤ places.countP (M.sleepsOn c) := by
    intro places t p q h hq
    have hcount := countP_set_add h (M.sleepsOn c) q
    rw [hq] at hcount
    exact Nat.le_of_add_right_le (Nat.le_of_eq hcount)
  cases hstep with
  | call h => exact .inl (hset h rfl)
  | enter _ h => exact .inl (hset h rfl)
  | resume _ h => exact .inl (hset h rfl)
  | @wait t m b w h hblocked =>
      by_cases hm : M.condition m = c
      · exact .inr ⟨t, m, b, w, rfl, h, hblocked, hm⟩
      · exact .inl (hset h (by simp [sleepsOn, hm]))
  | @finish t m b w done h _ _ _ =>
      have ht := getElem?_notified_of_holds (M := M) h rfl done.signal w
      exact .inl (Nat.le_trans (hset ht rfl) (countP_sleepsOn_notified_le _ _ _ _))
  | unlock h => exact .inl (hset h rfl)
  | spurious h => exact .inl (hset h rfl)

/-- A thread goes on while the shared state stays. -/
theorem NoneLost.move {s : State μ σ ρ} {c : κ} {need : σ → ℕ} {t : ℕ} {p q : Place μ ρ}
    (hs : M.NoneLost c need s) (h : s.places[t]? = some p)
    (hsleeps : M.sleepsOn c q = true → M.sleepsOn c p = true)
    (hwoken : M.wokenOn c p = true → M.wokenOn c q = true) (owner : Option ℕ) :
    M.NoneLost c need { s with owner := owner, places := s.places.set t q } := by
  intro hpos
  change 0 < (s.places.set t q).countP (M.sleepsOn c) at hpos
  have hsleep := countP_set_add h (M.sleepsOn c) q
  have hwake := countP_set_add h (M.wokenOn c) q
  have hsleep_le := Bool.toNat_le_toNat (Bool.le_iff_imp.mpr hsleeps)
  have hwake_le := Bool.toNat_le_toNat (Bool.le_iff_imp.mpr hwoken)
  have hneed : need s.shared ≤ s.places.countP (M.wokenOn c) := hs (by omega)
  change need s.shared ≤ (s.places.set t q).countP (M.wokenOn c)
  omega

/-- No wake-up is lost in a step. -/
theorem Step.noneLost {s s' : State μ σ ρ} {l : Label μ} (hstep : M.Step s l s') {c : κ}
    {I : σ → Prop} {need : σ → ℕ} (hserves : M.Serves I c need) (hI : I s.shared)
    (hs : M.NoneLost c need s) : M.NoneLost c need s' := by
  cases hstep with
  | call h => exact hs.move h (by simp [sleepsOn]) (by simp [wokenOn]) _
  | enter _ h => exact hs.move h (by simp [sleepsOn]) (by simp [wokenOn]) _
  | resume _ h => exact hs.move h (by simp [sleepsOn]) (by simp [wokenOn]) _
  | unlock h => exact hs.move h (by simp [sleepsOn]) (by simp [wokenOn]) _
  | spurious h => exact hs.move h (by simp [sleepsOn]) (by simp [wokenOn]) _
  | @wait t m b w h hblocked =>
      by_cases hm : M.condition m = c
      · intro _
        rw [hserves.waits m s.shared hI hm hblocked]
        exact Nat.zero_le _
      · have hwoken : M.wokenOn c (.testing m b : Place μ ρ) = false := by
          cases b <;> simp [wokenOn, hm]
        exact hs.move h (by simp [sleepsOn, hm]) (by simp [hwoken]) _
  | @finish t m b w done h hfree hbody hchosen =>
      intro hpos
      have ht := getElem?_notified_of_holds (M := M) h rfl done.signal w
      have hsleep := countP_set_add ht (M.sleepsOn c) (.leaving m done.result)
      have hwake := countP_set_add ht (M.wokenOn c) (.leaving m done.result)
      have hfewer := countP_sleepsOn_notified_le (M := M) s.places done.signal w c
      have hmore : s.places.countP (M.wokenOn c) ≤
          (M.notified s.places done.signal w).countP (M.wokenOn c) :=
        countP_le_notified _ _ _ fun p hp => by cases p <;> simp_all [wokenOn, Place.wake]
      have hout : M.sleepsOn c (.testing m b : Place μ ρ) = false := rfl
      have hleft : M.sleepsOn c (.leaving m done.result : Place μ ρ) = false := rfl
      have hgone : M.wokenOn c (.leaving m done.result : Place μ ρ) = false := rfl
      rw [hout, hleft] at hsleep
      rw [hgone] at hwake
      change 0 < ((M.notified s.places done.signal w).set t _).countP _ at hpos
      change need done.shared ≤ ((M.notified s.places done.signal w).set t _).countP _
      have hneed : need s.shared ≤ s.places.countP (M.wokenOn c) := hs (by omega)
      by_cases hm : M.condition m = c
      · -- The thread itself may have been one of the woken ones.
        have huses := hserves.uses m s.shared done hI hm hfree hbody
        have hle := Bool.toNat_le (M.wokenOn c (.testing m b : Place μ ρ))
        omega
      · have hother : M.wokenOn c (.testing m b : Place μ ρ) = false := by
          cases b <;> simp [wokenOn, hm]
        rw [hother] at hwake
        rcases hserves.signals m s.shared done hI hm hfree hbody with hle | ⟨hle, hsignal⟩
        · omega
        · have hone := countP_wokenOn_notify (hsignal ▸ hchosen) (by omega)
          rw [← hsignal] at hone
          omega

end Methods

end Muduo.Library.Monitor
