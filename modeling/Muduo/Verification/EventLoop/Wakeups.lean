import Muduo.System.Looping
import Muduo.Library.Run

/-! Functors that are queued in a loop are run in the order of the queue, and the loop does
not go to sleep over them. -/

namespace Muduo.System.Looping

open Library Net

variable {φ τ : Type}

/-- The functors of the running batch that are left. -/
def Phase.left : Phase φ → List φ
  | .batch rest => rest
  | _ => []

/-- The part of `doPendingFunctors` under `callingPendingFunctors_`. -/
def Phase.isCalling : Phase φ → Bool
  | .calling => true
  | .batch _ => true
  | _ => false

/-- From the swap until `poll` returns, a push has to be followed by a wake-up. -/
def Phase.needsWakeup : Phase φ → Bool
  | .events _ => false
  | .calling => false
  | _ => true

/-- Where no code of the user runs and no functor is left. -/
def Phase.quiet : Phase φ → Bool
  | .outside => true
  | .test => true
  | .poll => true
  | _ => false

theorem Phase.quiet_left {phase : Phase φ} (h : phase.quiet = true) : phase.left = [] := by
  cases phase <;> first | rfl | cases h

theorem Phase.quiet_calling {phase : Phase φ} (h : phase.quiet = true) :
    phase.isCalling = false := by
  cases phase <;> first | rfl | cases h

theorem Phase.quiet_inUser {phase : Phase φ} (h : phase.quiet = true) :
    phase.inUser = false := by
  cases phase <;> first | rfl | cases h

theorem Phase.quiet_needsWakeup {phase : Phase φ} (h : phase.quiet = true) :
    phase.needsWakeup = true := by
  cases phase <;> first | rfl | cases h

/-- Somebody is about to wake the loop, or has done so. -/
def Awake (s : State φ τ) : Prop := 0 < s.loop.wakeupFd.counter ∨ ∃ t, s.pc t = .pushed

structure Inv (s : State φ τ) : Prop where
  looping : s.phase = .outside → s.loop.looping = false
  calling : s.loop.callingPendingFunctors = s.phase.isCalling
  loopThread : s.phase.inUser = false → s.pc none = .idle
  seen : s.seen = s.executed ++ s.phase.left
  pushes : s.pushes = s.seen ++ s.loop.pendingFunctors
  awake : s.phase.needsWakeup = true → s.loop.pendingFunctors ≠ [] → Awake s

theorem start_inv (wakeupChannel : ℕ) : Inv (start wakeupChannel : State φ τ) where
  looping _ := rfl
  calling := rfl
  loopThread _ := rfl
  seen := rfl
  pushes := rfl
  awake _ hne := absurd rfl hne

theorem Looper.handleEvent_kept (l : Looper φ) (channel : ℕ) :
    (l.handleEvent channel).callingPendingFunctors = l.callingPendingFunctors ∧
      (l.handleEvent channel).pendingFunctors = l.pendingFunctors := by
  unfold Looper.handleEvent
  split <;> exact ⟨rfl, rfl⟩

section Loop

variable {s : State φ τ} {l : Looper φ}

/-- The loop goes from `poll` to its channels and from one to the next. -/
theorem Inv.events (h : Inv s) (hphase : s.phase = .poll ∨ ∃ rest, s.phase = .events rest)
    (hcalling : l.callingPendingFunctors = s.loop.callingPendingFunctors)
    (hpending : l.pendingFunctors = s.loop.pendingFunctors) (rest : List ℕ) :
    Inv { s with loop := l, phase := .events rest } where
  looping hout := by cases hout
  calling := by
    rw [hcalling, h.calling]
    rcases hphase with hp | ⟨_, hp⟩ <;> rw [hp] <;> rfl
  loopThread huser := by cases huser
  seen := by
    rw [h.seen]
    rcases hphase with hp | ⟨_, hp⟩ <;> rw [hp] <;> rfl
  pushes := h.pushes.trans (congrArg _ hpending.symm)
  awake hneeds := by cases hneeds

/-- The loop goes from the test of `quit_` to `poll` or out of `loop()`, and in again. -/
theorem Inv.quiet (h : Inv s) {phase : Phase φ} (hs : s.phase.quiet = true)
    (hquiet : phase.quiet = true) (hlooping : phase = .outside → l.looping = false)
    (hcalling : l.callingPendingFunctors = s.loop.callingPendingFunctors)
    (hpending : l.pendingFunctors = s.loop.pendingFunctors) (hfd : l.wakeupFd = s.loop.wakeupFd) :
    Inv { s with loop := l, phase := phase } where
  looping := hlooping
  calling := by
    rw [hcalling, h.calling, Phase.quiet_calling hs]
    exact (Phase.quiet_calling hquiet).symm
  loopThread _ := h.loopThread (Phase.quiet_inUser hs)
  seen := by
    rw [h.seen, Phase.quiet_left hs]
    exact congrArg _ (Phase.quiet_left hquiet).symm
  pushes := h.pushes.trans (congrArg _ hpending.symm)
  awake _ hne := by
    have hawake := h.awake (Phase.quiet_needsWakeup hs) (hpending ▸ hne)
    rwa [Awake, ← hfd] at hawake

theorem Inv.doPendingFunctors (h : Inv s) (hphase : s.phase = .events [])
    (hidle : s.pc none = .idle) :
    Inv { s with loop := s.loop.doPendingFunctors, phase := .calling } where
  looping hout := by cases hout
  calling := rfl
  loopThread _ := hidle
  seen := h.seen.trans (by rw [hphase]; rfl)
  pushes := h.pushes
  awake hneeds := by cases hneeds

theorem Inv.swap (h : Inv s) (hphase : s.phase = .calling) :
    Inv { s with
      loop := s.loop.swap
      phase := .batch s.loop.pendingFunctors
      seen := s.pushes } where
  looping hout := by cases hout
  calling := h.calling.trans (by rw [hphase]; rfl)
  loopThread huser := by cases huser
  seen := by
    have hseen : s.seen = s.executed := by simpa [hphase, Phase.left] using h.seen
    exact hseen ▸ h.pushes
  pushes := (List.append_nil _).symm
  awake _ hne := absurd rfl hne

theorem Inv.runFunctor (h : Inv s) {functor : φ} {rest : List φ}
    (hphase : s.phase = .batch (functor :: rest)) :
    Inv { s with phase := .batch rest, executed := s.executed ++ [functor] } where
  looping hout := by cases hout
  calling := h.calling.trans (by rw [hphase]; rfl)
  loopThread huser := by cases huser
  seen := by simpa [hphase, Phase.left] using h.seen
  pushes := h.pushes
  awake _ hne := h.awake (by rw [hphase]; rfl) hne

theorem Inv.endBatch (h : Inv s) (hphase : s.phase = .batch []) (hidle : s.pc none = .idle) :
    Inv { s with loop := { s.loop with callingPendingFunctors := false }, phase := .test } where
  looping hout := by cases hout
  calling := rfl
  loopThread _ := hidle
  seen := h.seen.trans (by rw [hphase]; rfl)
  pushes := h.pushes
  awake _ hne := h.awake (by rw [hphase]; rfl) hne

end Loop

section Threads

variable [DecidableEq τ] {s : State φ τ}

theorem Eventfd.write_pos (fd : Eventfd) : 0 < fd.write.counter := by
  unfold Eventfd.write
  split
  · exact Nat.succ_pos _
  · omega

theorem awake_wakeup (t : Option τ) (pc : Pc) :
    Awake (State.setPc { s with loop := s.loop.wakeup } t pc) := .inl (Eventfd.write_pos _)

/-- A thread other than the loop's changes its program counter. -/
theorem Inv.update_loopThread (h : Inv s) {t : Option τ} {pc : Pc}
    (ht : t = none → s.phase.inUser = true ∨ pc = .idle) (huser : s.phase.inUser = false) :
    Function.update s.pc t pc none = .idle := by
  by_cases hnone : t = none
  · subst hnone
    rcases ht rfl with hin | rfl
    · simp [huser] at hin
    · exact Function.update_self ..
  · exact (Function.update_of_ne (Ne.symm hnone) _ _).trans (h.loopThread huser)

theorem Inv.push (h : Inv s) (t : Option τ) (functor : φ)
    (ht : t = none → s.phase.inUser = true) :
    Inv (State.setPc { s with loop := s.loop.push functor, pushes := s.pushes ++ [functor] } t
      .pushed) where
  looping := h.looping
  calling := h.calling
  loopThread := h.update_loopThread fun hnone => .inl (ht hnone)
  seen := h.seen
  pushes := by
    change s.pushes ++ [functor] = s.seen ++ (s.loop.pendingFunctors ++ [functor])
    rw [h.pushes, List.append_assoc]
  awake _ _ := .inr ⟨t, Function.update_self ..⟩

theorem Inv.quit (h : Inv s) (t : Option τ) (hidle : s.pc t = .idle) :
    Inv (State.setPc { s with loop := { s.loop with quitting := true } } t
      (if t.isNone then .idle else .quitting)) where
  looping := h.looping
  calling := h.calling
  loopThread := h.update_loopThread fun hnone => .inr (by simp [hnone])
  seen := h.seen
  pushes := h.pushes
  awake hphase hne := by
    refine (h.awake hphase hne).imp_right ?_
    rintro ⟨u, hu⟩
    refine ⟨u, (Function.update_of_ne ?_ _ _).trans hu⟩
    rintro rfl
    rw [hidle] at hu
    cases hu

/-- A wake-up that is left out is one of the loop thread while it handles events. -/
theorem Inv.wakeup (h : Inv s) (t : Option τ) (hpc : s.pc t ≠ .idle) :
    Inv (State.setPc { s with loop := s.loop.wakeupUnless t.isNone } t .idle) := by
  unfold Looper.wakeupUnless
  split
  case isTrue =>
    exact ⟨h.looping, h.calling, h.update_loopThread fun _ => .inr rfl, h.seen, h.pushes,
      fun _ _ => awake_wakeup t .idle⟩
  case isFalse hno =>
    refine ⟨h.looping, h.calling, h.update_loopThread fun _ => .inr rfl, h.seen, h.pushes,
      fun hphase _ => ?_⟩
    obtain ⟨hnone, hcalling⟩ : t = none ∧ s.loop.callingPendingFunctors = false := by
      simpa using hno
    subst hnone
    rw [h.calling] at hcalling
    have huser : s.phase.inUser = true := by
      by_contra hout
      exact hpc (h.loopThread (by simpa using hout))
    change s.phase.needsWakeup = true at hphase
    cases hp : s.phase <;> simp [hp, Phase.inUser, Phase.isCalling, Phase.needsWakeup] at *

theorem Inv.quitWakeup (h : Inv s) (t : Option τ) :
    Inv (State.setPc { s with loop := s.loop.wakeup } t .idle) where
  looping := h.looping
  calling := h.calling
  loopThread := h.update_loopThread fun _ => .inr rfl
  seen := h.seen
  pushes := h.pushes
  awake _ _ := awake_wakeup t .idle

end Threads

theorem exec_inv [DecidableEq τ] (s : State φ τ) (l : Label φ τ) (h : Inv s)
    (hl : enabled s l = true) : ∃ s', exec s l = .ok s' ∧ Inv s' := by
  cases l with
  | push t functor => exact ⟨_, rfl, h.push t functor (of_decide_eq_true hl).2⟩
  | quit t => exact ⟨_, rfl, h.quit t (of_decide_eq_true hl).1⟩
  | wakeup t =>
      have hpc : s.pc t ≠ .idle := by simpa [enabled] using hl
      cases ht : s.pc t with
      | idle => exact absurd ht hpc
      | pushed => exact ⟨_, by simp only [exec, ht], h.wakeup t hpc⟩
      | quitting => exact ⟨_, by simp only [exec, ht], h.quitWakeup t⟩
  | loop =>
      cases hp : s.phase with
      | outside =>
          have hloop : s.loop.loop = .ok { s.loop with looping := true, quitting := false } := by
            simp [Looper.loop, h.looping hp]
          refine ⟨_, by rw [exec, hloop]; rfl, ?_⟩
          exact h.quiet (hp ▸ rfl) rfl (fun hout => by cases hout) rfl rfl rfl
      | _ => simp [enabled, hp] at hl
  | test =>
      cases hp : s.phase with
      | test =>
          refine ⟨_, rfl, ?_⟩
          split
          · exact h.quiet (hp ▸ rfl) rfl (fun _ => rfl) rfl rfl rfl
          · exact h.quiet (hp ▸ rfl) rfl (fun hout => by cases hout) rfl rfl rfl
      | _ => simp [enabled, hp] at hl
  | poll active =>
      cases hp : s.phase with
      | poll => exact ⟨_, rfl, h.events (l := s.loop.polled active) (.inl hp) rfl rfl active⟩
      | _ => simp [enabled, hp] at hl
  | nextChannel =>
      cases hp : s.phase with
      | events channels =>
          cases channels with
          | nil => simp [enabled, hp] at hl
          | cons channel rest =>
              have hkept := s.loop.handleEvent_kept channel
              exact ⟨_, by simp only [exec, hp], h.events (.inr ⟨_, hp⟩) hkept.1 hkept.2 rest⟩
      | _ => simp [enabled, hp] at hl
  | doPendingFunctors =>
      cases hp : s.phase with
      | events channels =>
          cases channels with
          | nil => exact ⟨_, rfl, h.doPendingFunctors hp (by simpa [enabled, hp] using hl)⟩
          | cons channel rest => simp [enabled, hp] at hl
      | _ => simp [enabled, hp] at hl
  | swap =>
      cases hp : s.phase with
      | calling => exact ⟨_, rfl, h.swap hp⟩
      | _ => simp [enabled, hp] at hl
  | runFunctor =>
      cases hp : s.phase with
      | batch functors =>
          cases functors with
          | nil => simp [enabled, hp] at hl
          | cons functor rest => exact ⟨_, by simp only [exec, hp], h.runFunctor hp⟩
      | _ => simp [enabled, hp] at hl
  | endBatch =>
      cases hp : s.phase with
      | batch functors =>
          cases functors with
          | nil => exact ⟨_, rfl, h.endBatch hp (by simpa [enabled, hp] using hl)⟩
          | cons functor rest => simp [enabled, hp] at hl
      | _ => simp [enabled, hp] at hl

/-- Every push is accounted for: it has been started, is left of the running batch, or is still
queued. The functors that have been started are the first pushes, each started once for each
time it was pushed and all pushed before the last swap. A loop at the test or in `poll`
with functors in its queue has been woken, or will be by a thread that has just pushed. -/
structure Served [DecidableEq φ] (s : State φ τ) : Prop where
  accounted : s.pushes = s.executed ++ s.phase.left ++ s.loop.pendingFunctors
  inOrder : s.executed <+: s.pushes
  once : ∀ functor, s.executed.count functor ≤ s.pushes.count functor
  beforeSwap : s.executed <+: s.seen ∧ s.seen <+: s.pushes
  awake : s.phase = .test ∨ s.phase = .poll → s.loop.pendingFunctors ≠ [] →
    0 < s.loop.wakeupFd.counter ∨ ∃ t : τ, s.pc (some t) = .pushed

theorem Inv.served [DecidableEq φ] {s : State φ τ} (h : Inv s) : Served s := by
  have hseen : s.executed <+: s.seen := ⟨_, h.seen.symm⟩
  have hpushes : s.seen <+: s.pushes := ⟨_, h.pushes.symm⟩
  have horder := hseen.trans hpushes
  refine ⟨h.seen ▸ h.pushes, horder, fun f => horder.sublist.count_le f, ⟨hseen, hpushes⟩,
    fun hphase hne => ?_⟩
  have hquiet : s.phase.quiet = true := by
    rcases hphase with hp | hp <;> rw [hp] <;> rfl
  rcases h.awake (Phase.quiet_needsWakeup hquiet) hne with hpos | ⟨t, ht⟩
  · exact .inl hpos
  · cases t with
    | none =>
        rw [h.loopThread (Phase.quiet_inUser hquiet)] at ht
        cases ht
    | some t => exact .inr ⟨t, ht⟩

/-- Whatever the threads do, functors are started in the order in which they were pushed,
and no push leaves the loop asleep. -/
theorem functors_served [DecidableEq φ] [DecidableEq τ] (wakeupChannel : ℕ)
    (ls : List (Label φ τ))
    (hl : LegalRun exec (fun s l => enabled s l = true) (start wakeupChannel) ls) :
    ∃ s, run exec (start wakeupChannel) ls = .ok s ∧ Served s := by
  obtain ⟨s, hrun, hinv⟩ := run_invariant exec_inv (start_inv wakeupChannel) hl
  exact ⟨s, hrun, hinv.served⟩

/-- The eventfd is drained between the push and the write of another thread, whose functor
is run at once and pushes another one. -/
def drainedBetween : List (Label ℕ Bool) :=
  [.push (some true) 1, .wakeup (some true), .loop, .test, .push (some false) 2, .poll [7, 3],
    .nextChannel, .nextChannel, .push none 5, .wakeup none, .doPendingFunctors, .swap,
    .wakeup (some false), .runFunctor, .push none 8, .wakeup none, .runFunctor, .runFunctor,
    .endBatch, .test]

theorem functors_served_drained :
    LegalRun exec (fun s l => enabled s l = true) (start 7) drainedBetween ∧
      ∃ s, run exec (start 7) drainedBetween = .ok s ∧ Served s :=
  have hlegal : LegalRun exec (fun s l => enabled s l = true) (start 7) drainedBetween := by
    decide +kernel
  ⟨hlegal, functors_served 7 drainedBetween hlegal⟩

end Muduo.System.Looping
