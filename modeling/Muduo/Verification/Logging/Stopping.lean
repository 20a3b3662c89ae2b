import Muduo.Verification.Logging.Circulation

/-! Which lines have been put out when the logger has stopped. -/

namespace Muduo.System.Logging

open Library Base AsyncLogging

/-- Between the test of `running_` and the swap. -/
def Pc.beforeSwap : Pc → Bool
  | .lock => true
  | .waiting => true
  | _ => false

/-- The logger was told to stop, and the lines `early` have been handed over to the back end
or will be by a swap that is certain to come. -/
structure Closing (early : List (List UInt8)) (s : State) : Prop where
  inv : Inv s
  started : s.pc ≠ .idle
  stopped : s.logger.running = false
  appended : early <+: s.appended
  handed : early <+: (s.batches.map Batch.lines).flatten ∨ s.pc.beforeSwap = true

theorem swap_lines (s : State) :
    (s.swap.batches.map Batch.lines).flatten =
      (s.batches.map Batch.lines).flatten ++ s.pending := by
  simp [State.swap, State.batches]

theorem append_frame {a a' : AsyncLogging} {line : List UInt8} (h : a.append line = .ok a') :
    a'.running = a.running := by
  unfold AsyncLogging.append at h
  split at h
  · cases h
  · split at h <;> cases h <;> rfl

/-- Where the back end goes once it has been told to stop, and what it has then handed
over. -/
theorem advance_cases {s s' : State} {now : String} (hstopped : s.logger.running = false)
    (h : s.advance now = .ok s') :
    s'.logger.running = false ∧ s'.appended = s.appended ∧ (s.pc ≠ .idle → s'.pc ≠ .idle) ∧
      (s' = s.swap ∨ (s'.batches.map Batch.lines).flatten = (s.batches.map Batch.lines).flatten ∧
        (s.pc.beforeSwap = true → s'.pc.beforeSwap = true)) := by
  unfold State.advance at h
  split at h
  next =>
    cases h
    exact ⟨hstopped, rfl, id, .inr ⟨rfl, id⟩⟩
  next =>
    obtain ⟨hrunning, -⟩ := of_ensure_bind h
    rw [hstopped] at hrunning
    cases hrunning
  next hpc =>
    rw [hstopped] at h
    cases h
    exact ⟨hstopped, rfl, nofun, .inr ⟨rfl, by rw [hpc]; nofun⟩⟩
  next =>
    split at h
    · cases h
      exact ⟨hstopped, rfl, nofun, .inr ⟨rfl, fun _ => rfl⟩⟩
    · cases h
      exact ⟨hstopped, rfl, nofun, .inl rfl⟩
  next =>
    cases h
    exact ⟨hstopped, rfl, nofun, .inl rfl⟩
  next hpc =>
    obtain ⟨t, -, h⟩ := of_bind h
    cases h
    exact ⟨hstopped, rfl, nofun, .inr ⟨goOn_lines, by rw [hpc]; nofun⟩⟩
  next hpc =>
    split at h
    · obtain ⟨t, -, h⟩ := of_bind h
      cases h
      exact ⟨hstopped, rfl, nofun, .inr ⟨goOn_lines, by rw [hpc]; nofun⟩⟩
    · cases h
      exact ⟨hstopped, rfl, nofun, .inr ⟨rfl, by rw [hpc]; nofun⟩⟩
  next hpc =>
    obtain ⟨t, -, h⟩ := of_bind h
    cases h
    exact ⟨hstopped, rfl, nofun, .inr ⟨goOn_lines, by rw [hpc]; nofun⟩⟩
  next =>
    cases h
    exact ⟨hstopped, rfl, id, .inr ⟨rfl, id⟩⟩

section Closing

variable {early : List (List UInt8)} {s : State}

theorem Closing.advance (h : Closing early s) (now : String) :
    ∃ s', s.advance now = .ok s' ∧ Closing early s' := by
  obtain ⟨s', hs', hinv⟩ := h.inv.advance now
  obtain ⟨hstopped, happended, hstarted, hcases⟩ := advance_cases h.stopped hs'
  refine ⟨s', hs', hinv, hstarted h.started, hstopped, happended ▸ h.appended, ?_⟩
  rcases hcases with rfl | ⟨hlines, hbefore⟩
  · refine .inl ?_
    rw [swap_lines, ← h.inv.appended]
    exact h.appended
  · rw [hlines]
    exact h.handed.imp_right hbefore

theorem Closing.append (h : Closing early s) {line : List UInt8}
    (hline : line.length < kLargeBuffer) :
    ∃ s', exec s (.append line) = .ok s' ∧ Closing early s' := by
  obtain ⟨s', hs', hinv⟩ := h.inv.append hline
  have hexec := hs'
  rw [exec] at hexec
  obtain ⟨a, happend, hexec⟩ := of_bind hexec
  cases hexec
  refine ⟨_, hs', hinv, h.started, ?_, h.appended.trans (List.prefix_append _ _), h.handed⟩
  rw [append_frame happend]
  exact h.stopped

theorem exec_closing (s : State) (l : Label) (h : Closing early s) (hl : Legal s l) :
    ∃ s', exec s l = .ok s' ∧ Closing early s' := by
  cases l with
  | append line => exact h.append hl
  | start => exact absurd hl h.started
  | stop =>
      have hrunning := hl.2.2
      rw [h.stopped] at hrunning
      cases hrunning
  | thread now => exact h.advance now

/-- The call of `stop` when the next swap is certain to come, or nothing waits for one. -/
theorem closing_of_stop (h : Inv s) (hl : Legal s .stop)
    (hswap : s.pc.beforeSwap = true ∨ s.pending = []) :
    ∃ s', exec s .stop = .ok s' ∧ Closing s.appended s' := by
  refine ⟨_, rfl, h.setRunning fun hpc => absurd hpc hl.2.1, hl.1, rfl, List.prefix_rfl, ?_⟩
  rcases hswap with hbefore | hpending
  · exact .inr hbefore
  · have happended := h.appended
    rw [hpending, List.append_nil] at happended
    exact .inl (happended ▸ List.prefix_rfl)

/-- When the back end has left its loop, all of its batches have been put out. -/
theorem Inv.batches_output (h : Inv s) (hdone : s.pc = .done) :
    ∀ b ∈ s.batches, b.size ≤ 25 → b.output = b.lines.flatten := by
  intro b hb
  rcases List.mem_append.mp hb with hb | hb
  · exact h.finished b hb
  · rw [List.mem_singleton.mp hb]
    exact h.batch_output (by rw [hdone]; rfl)

end Closing

/-- The lines that were appended before `stop` have been put out when it returns, apart from
batches that were too large, if the back end is between its test of `running_` and its
swap when it is told to stop, or if no line has been appended since its last swap. -/
theorem stop_flushes (pre post : List Label) (s t : State)
    (h : LegalRun exec Legal start (pre ++ .stop :: post)) (hs : run exec start pre = .ok s)
    (ht : run exec start (pre ++ .stop :: post) = .ok t) (hdone : t.pc = .done)
    (hswap : s.pc.beforeSwap = true ∨ s.pending = []) :
    s.appended <+: (t.batches.map Batch.lines).flatten ∧
      t.backend.output = (t.batches.map Batch.output).flatten ∧
      ∀ b ∈ t.batches, b.size ≤ 25 → b.output = b.lines.flatten := by
  obtain ⟨hpre, hrest⟩ := h.of_append
  obtain ⟨hstop, hpost⟩ := hrest s hs
  obtain ⟨s₀, hs₀, hinv⟩ := run_invariant exec_inv start_inv hpre
  cases hs₀.symm.trans hs
  obtain ⟨s₁, hs₁, hclosing⟩ := closing_of_stop hinv hstop hswap
  obtain ⟨t', ht', hclosed⟩ := run_invariant exec_closing hclosing (hpost s₁ hs₁)
  rw [run_append_of_ok hs, run_cons_of_ok hs₁] at ht
  cases ht'.symm.trans ht
  refine ⟨hclosed.handed.resolve_right ?_, hclosed.inv.output, hclosed.inv.batches_output hdone⟩
  rw [hdone]
  exact Bool.false_ne_true

/-- The back end waits, and a line comes. -/
def lineInWait : List Label := [.start, .thread "", .thread "", .thread "", .append [97]]

/-- The back end wakes up, and a line comes before it has written anything. -/
def lineAfterSwap : List Label :=
  [.start, .thread "", .thread "", .thread "", .thread "", .append [97]]

/-- From the swap to the end of `threadFunc`. -/
def lastRound : List Label := [.thread "", .thread "", .thread "", .thread "", .thread ""]

theorem stop_flushes_waiting :
    ∃ s t, run exec start lineInWait = .ok s ∧
      run exec start (lineInWait ++ .stop :: .thread "" :: lastRound) = .ok t ∧ t.pc = .done ∧
      s.appended = [[97]] ∧ s.appended <+: (t.batches.map Batch.lines).flatten ∧
      t.backend.output = (t.batches.map Batch.output).flatten ∧
      ∀ b ∈ t.batches, b.size ≤ 25 → b.output = b.lines.flatten := by
  have hruns : ∃ s, run exec start lineInWait = .ok s ∧ (s.pc = .waiting ∧ s.appended = [[97]]) ∧
      ∃ t, run exec start (lineInWait ++ .stop :: .thread "" :: lastRound) = .ok t ∧
        t.pc = .done := by
    decide +kernel
  obtain ⟨s, hs, ⟨hpc, happended⟩, t, ht, hdone⟩ := hruns
  exact ⟨s, t, hs, ht, hdone, happended, stop_flushes lineInWait (.thread "" :: lastRound) s t
    (by decide +kernel) hs ht hdone (.inl (by rw [hpc]; rfl))⟩

/-- A line that comes after the last swap is not put out. -/
theorem stop_loses_line :
    LegalRun exec Legal start (lineAfterSwap ++ .stop :: lastRound) ∧
      ∃ s, run exec start lineAfterSwap = .ok s ∧ s.appended = [[97]] ∧
        ∃ t, run exec start (lineAfterSwap ++ .stop :: lastRound) = .ok t ∧ t.pc = .done ∧
          (∀ b ∈ t.batches, b.size ≤ 25) ∧ t.backend.output = [] := by
  decide +kernel

end Muduo.System.Logging
