import Muduo.System.Pooling

/-! When `stop` leaves callers of `run` asleep. The workers leave their loops without draining
the queue, so a caller that waits for room when the pool is stopped may sleep for ever. -/

namespace Muduo.System.Pooling

open Library Base ThreadPool
open Monitor (Place)

/-! ### What the bodies do -/

inductive Effect (p : ThreadPool) : Call → Monitor.Done ThreadPool Condition Task → Prop
  | run (task : Task) (hfree : p.isFull = false) :
      Effect p (.run task) ⟨{ p with queue := p.queue ++ [task] }, .notify .notEmpty, none⟩
  | take {task : Task} {queue : List Task} (hq : p.queue = task :: queue) :
      Effect p .take ⟨{ p with queue := queue },
        if decide (0 < p.maxQueueSize) then .notify .notFull else .none, task⟩
  | nothing : Effect p .take ⟨p, .none, none⟩
  | stop : Effect p .stop ⟨p.stop, .notifyAll .notEmpty, none⟩

theorem body_effect {p : ThreadPool} {m : Call} (h : methods.blocked m p = false) :
    ∃ done, methods.body m p = .ok done ∧ Effect p m done := by
  cases m with
  | run task =>
      have hfree : p.isFull = false := h
      refine ⟨_, ?_, .run task hfree⟩
      simp only [methods, ThreadPool.run, ensure_of _ hfree, ok_bind]
      rfl
  | take =>
      cases hq : p.queue with
      | nil =>
          refine ⟨_, ?_, .nothing⟩
          simp only [methods, ThreadPool.take, hq]
          rfl
      | cons task queue =>
          refine ⟨_, ?_, .take hq⟩
          simp only [methods, ThreadPool.take, hq]
  | stop => exact ⟨_, rfl, .stop⟩

theorem effect_of_body {p : ThreadPool} {m : Call}
    {done : Monitor.Done ThreadPool Condition Task} (h : methods.blocked m p = false)
    (hbody : methods.body m p = .ok done) : Effect p m done := by
  obtain ⟨done', hbody', heffect⟩ := body_effect h
  rw [hbody'] at hbody
  exact Except.ok.inj hbody ▸ heffect

/-- Every monitor step that can come is one of the rules. -/
theorem inMonitor_step {s : State} {l : Monitor.Label Call} (h : methods.Enabled s.monitor l) :
    ∃ monitor, s.inMonitor l = .ok { s with monitor := monitor } ∧
      methods.Step s.monitor l monitor := by
  have hbody : ∀ m, methods.blocked m s.monitor.shared = false →
      ∃ done, methods.body m s.monitor.shared = .ok done := by
    intro m hm
    obtain ⟨done, hdone, -⟩ := body_effect hm
    exact ⟨done, hdone⟩
  obtain ⟨monitor, hexec, hstep⟩ := Monitor.Methods.exec_step h hbody
  refine ⟨monitor, ?_, hstep⟩
  rw [State.inMonitor, hexec]
  rfl

/-! ### The threads and their places in the monitor -/

/-- A thread of the pool is in the monitor only while it is in a method. -/
structure Linked (n : ℕ) (s : State) : Prop where
  length : s.workers.length = n
  worker : ∀ (i : ℕ) (pc : Worker), s.workers[i]? = some pc → pc.inMethod = false →
    s.monitor.places[i]? = some .outside
  stopper : s.stopper ≠ .stopping → s.monitor.places[n]? = some .outside

theorem linked_start (n maxQueueSize callers : ℕ) : Linked n (start n maxQueueSize callers) where
  length := List.length_replicate
  worker i pc hi _ := by
    have hlt := (List.getElem?_eq_some_iff.mp hi).1
    rw [start, List.length_replicate] at hlt
    rw [start, Monitor.start, List.getElem?_replicate, if_pos (by omega)]
  stopper _ := by
    rw [start, Monitor.start, List.getElem?_replicate, if_pos (by omega)]

/-- A worker outside the monitor goes on. -/
theorem Linked.setWorker {n : ℕ} {s : State} (h : Linked n s) {i : ℕ} {pc : Worker}
    (hi : s.workers[i]? = some pc) (hpc : pc.inMethod = false) (pc' : Worker) :
    Linked n (s.setWorker i pc') where
  length := (List.length_set ..).trans h.length
  worker j q hj hq := by
    by_cases hij : i = j
    · subst hij
      exact h.worker i pc hi hpc
    · exact h.worker j q ((List.getElem?_set_ne hij).symm.trans hj) hq
  stopper := h.stopper

/-- The threads after a step of the monitor: who calls a method is not outside. -/
theorem Linked.inside {n : ℕ} {s : State} {l : Monitor.Label Call}
    {monitor : Monitor.State Call ThreadPool Task} (h : Linked n s)
    (hstep : methods.Step s.monitor l monitor)
    (hworker : ∀ (i : ℕ) (m : Call) (pc : Worker), l = .call i m → s.workers[i]? = some pc →
      pc.inMethod = true)
    (hstopper : ∀ m, l = .call n m → s.stopper = .stopping) :
    Linked n { s with monitor := monitor } where
  length := h.length
  worker i pc hi hpc := by
    refine hstep.outside (h.worker i pc hi hpc) fun m hm => ?_
    exact absurd (hworker i m pc hm hi) (by simp [hpc])
  stopper hne := hstep.outside (h.stopper hne) fun m hm => hne (hstopper m hm)

/-- What a step does to the monitor and to `stop`: nothing inside the monitor, a step of another
thread or of `stop` inside it, the call of `stop`, or its way out to the loop. -/
inductive Turn (n : ℕ) (s : State) (l : Label) (s' : State) : Prop
  | outside (hmonitor : s'.monitor = s.monitor)
      (hstopper : s'.stopper = s.stopper ∨ s'.stopper ≠ .idle ∧ s'.stopper ≠ .stopping)
  | inside {ml : Monitor.Label Call} (hstep : methods.Step s.monitor ml s'.monitor)
      (hstopper : s'.stopper = s.stopper) (hcall : ∀ m, ml ≠ .call n m)
      (hstop : ∀ t, ml ≠ .call t .stop) (hunlock : ml ≠ .unlock n)
      (hproceed : ∀ t w, ml = .proceed t w → l = .proceed t w)
  | call (hstep : methods.Step s.monitor (.call n .stop) s'.monitor) (hidle : s.stopper = .idle)
      (hstopper : s'.stopper = .stopping)
  | unlock (hstep : methods.Step s.monitor (.unlock n) s'.monitor)
      (hstopper : s'.stopper = .joining 0)

/-- A worker leaves its loop only when `running_` is false. -/
structure Moved (n : ℕ) (s : State) (l : Label) (s' : State) : Prop where
  turn : Turn n s l s'
  exits : .exited ∈ s'.workers → .exited ∈ s.workers ∨ s.monitor.shared.running = false

theorem Moved.of_workers_eq {n : ℕ} {s s' : State} {l : Label} (h : Turn n s l s')
    (hworkers : s'.workers = s.workers) : Moved n s l s' :=
  ⟨h, fun hmem => .inl (hworkers ▸ hmem)⟩

/-- A worker goes on and does not leave its loop. -/
theorem Moved.of_worker {n : ℕ} {s s' : State} {l : Label} (h : Turn n s l s') {i : ℕ}
    {pc : Worker} (hpc : pc ≠ .exited) (hworkers : s'.workers = s.workers.set i pc) :
    Moved n s l s' := by
  refine ⟨h, fun hmem => .inl ?_⟩
  rw [hworkers] at hmem
  rcases List.mem_or_eq_of_mem_set hmem with hmem | heq
  · exact hmem
  · exact absurd heq.symm hpc

/-- The call of a thread that does not stop the pool. -/
theorem call_ne {n i : ℕ} (h : i ≠ n) (m m' : Call) :
    (.call i m : Monitor.Label Call) ≠ .call n m' :=
  fun hm => h (Monitor.Label.call.inj hm).1

/-- A worker calls a method of the pool. -/
theorem call_moved {n : ℕ} {s : State} (h : Linked n s) {l : Label} {i : ℕ} {pc pc' : Worker}
    {m : Call} (hi : s.workers[i]? = some pc) (hpc : pc.inMethod = false)
    (hpc' : pc'.inMethod = true) (hm : m ≠ .stop) :
    ∃ s', (s.setWorker i pc').inMonitor (.call i m) = .ok s' ∧ Linked n s' ∧ Moved n s l s' := by
  have hlt : i < s.workers.length := (List.getElem?_eq_some_iff.mp hi).1
  have hother : ∀ m', (.call i m : Monitor.Label Call) ≠ .call n m' :=
    call_ne (Nat.ne_of_lt (h.length ▸ hlt)) m
  have hin : methods.Enabled (s.setWorker i pc').monitor (.call i m) := by
    change (s.monitor.places[i]?).any Place.isOutside = true
    rw [h.worker i pc hi hpc]
    rfl
  obtain ⟨monitor, hexec, hstep⟩ := inMonitor_step hin
  refine ⟨_, hexec, (h.setWorker hi hpc pc').inside hstep ?_ fun m' hm' => absurd hm' (hother m'),
    ?_⟩
  · intro j m' q hm' hq
    obtain ⟨rfl, -⟩ := Monitor.Label.call.inj hm'
    have hq' : some q = some pc' := hq.symm.trans (List.getElem?_set_self hlt)
    exact Option.some.inj hq' ▸ hpc'
  · have hne : pc' ≠ .exited := by
      rintro rfl
      cases hpc'
    refine .of_worker (.inside hstep rfl hother (fun t ht => ?_) (by simp) (by simp)) hne rfl
    exact hm (Monitor.Label.call.inj ht).2

theorem stepWorker_moved {n : ℕ} {s : State} (h : Linked n s) {i : ℕ}
    (hl : Enabled s (.worker i)) :
    ∃ s', exec s (.worker i) = .ok s' ∧ Linked n s' ∧ Moved n s (.worker i) s' := by
  obtain ⟨pc, hpc, hne⟩ := (Option.any_eq_true _ _).mp hl
  have hmoved : Moved n s (.worker i) (s.setWorker i .looping) :=
    .of_worker (.outside rfl (.inl rfl)) (by decide) rfl
  cases pc with
  | starting =>
      refine ⟨s.setWorker i .looping, ?_, h.setWorker hpc rfl _, hmoved⟩
      simp only [exec, State.stepWorker, hpc]
  | working =>
      refine ⟨s.setWorker i .looping, ?_, h.setWorker hpc rfl _, hmoved⟩
      simp only [exec, State.stepWorker, hpc]
  | taking => cases hne
  | submitting => cases hne
  | exited => cases hne
  | looping =>
      cases hrunning : s.monitor.shared.running with
      | false =>
          refine ⟨s.setWorker i .exited, ?_, h.setWorker hpc rfl _, .outside rfl (.inl rfl),
            fun _ => .inr hrunning⟩
          simp [exec, State.stepWorker, hpc, hrunning]
      | true =>
          have htaking : Worker.taking.inMethod = true := rfl
          have htake : Call.take ≠ .stop := by decide
          obtain ⟨s', hexec, hmoves⟩ := call_moved h (l := .worker i) hpc rfl htaking htake
          refine ⟨s', ?_, hmoves⟩
          simp [exec, State.stepWorker, hpc, hrunning, hexec]

theorem stop_moved {n : ℕ} {s : State} (h : Linked n s) (hl : Enabled s .stop) :
    ∃ s', exec s .stop = .ok s' ∧ Linked n s' ∧ Moved n s .stop s' := by
  have hidle : s.stopper = .idle := hl
  have hout : s.monitor.places[n]? = some .outside := h.stopper (by simp [hidle])
  have hin : methods.Enabled ({ s with stopper := .stopping } : State).monitor
      (.call s.stopping .stop) := by
    change (s.monitor.places[s.workers.length]?).any Place.isOutside = true
    rw [h.length, hout]
    rfl
  have hlinked : Linked n { s with stopper := .stopping } :=
    ⟨h.length, h.worker, fun hne => absurd rfl hne⟩
  obtain ⟨monitor, hexec, hstep⟩ := inMonitor_step hin
  refine ⟨_, hexec, hlinked.inside hstep ?_ fun _ _ => rfl, .of_workers_eq ?_ rfl⟩
  · intro i m pc hm hi
    have hlt : i < s.workers.length := (List.getElem?_eq_some_iff.mp hi).1
    have heq : s.workers.length = i := (Monitor.Label.call.inj hm).1
    omega
  · exact .call (h.length ▸ hstep) hidle rfl

/-- A step of the monitor that is no call. -/
theorem inside_moved {n : ℕ} {s : State} (h : Linked n s) {l : Label} {ml : Monitor.Label Call}
    (hin : methods.Enabled s.monitor ml) (hcall : ∀ i m, ml ≠ .call i m) (hunlock : ml ≠ .unlock n)
    (hproceed : ∀ t w, ml = .proceed t w → l = .proceed t w) :
    ∃ s', s.inMonitor ml = .ok s' ∧ Linked n s' ∧ Moved n s l s' := by
  obtain ⟨monitor, hexec, hstep⟩ := inMonitor_step hin
  have hlinked := h.inside hstep (fun i m _ hm => absurd hm (hcall i m))
    fun m hm => absurd hm (hcall n m)
  refine ⟨_, hexec, hlinked, .of_workers_eq (.inside hstep rfl (hcall n) ?_ hunlock hproceed) rfl⟩
  exact fun t => hcall t .stop

/-- Who leaves the mutex is outside. -/
theorem Linked.afterUnlock {n : ℕ} {s : State} (h : Linked n s) {t : ℕ}
    (ht : s.monitor.places[t]? = some .outside) (result : Task) :
    Linked n (s.afterUnlock t result) := by
  have hset : ∀ pc, Linked n (s.setWorker t pc) := by
    refine fun pc => ⟨(List.length_set ..).trans h.length, fun i q hi hq => ?_, h.stopper⟩
    by_cases hti : t = i
    · exact hti ▸ ht
    · exact h.worker i q ((List.getElem?_set_ne hti).symm.trans hi) hq
  unfold State.afterUnlock
  split
  · exact hset _
  · exact hset _
  · split
    · next heq =>
        have htn : t = n := heq.trans h.length
        exact ⟨h.length, h.worker, fun _ => htn ▸ ht⟩
    · exact h

theorem unlock_moved {n : ℕ} {s : State} (h : Linked n s) {t : ℕ} (hl : Enabled s (.unlock t)) :
    ∃ s', exec s (.unlock t) = .ok s' ∧ Linked n s' ∧ Moved n s (.unlock t) s' := by
  have hin : methods.Enabled s.monitor (.unlock t) := hl
  obtain ⟨monitor, hexec, hstep⟩ := inMonitor_step hin
  have hlinked : Linked n { s with monitor := monitor } :=
    h.inside hstep (fun i m _ hm => by cases hm) fun m hm => by cases hm
  have hthread : monitor.places[t]? = some .outside := by
    cases hstep with
    | unlock ht => exact List.getElem?_set_self (List.getElem?_eq_some_iff.mp ht).1
  refine ⟨({ s with monitor := monitor } : State).afterUnlock t (s.resultAt t), ?_,
    hlinked.afterUnlock hthread _, ?_⟩
  · rw [exec, hexec]
    rfl
  · by_cases htn : t = n
    · -- `stop` goes on to its loop; there is no worker of this number.
      subst htn
      have hnone : s.workers[t]? = none := List.getElem?_eq_none_iff.mpr (Nat.le_of_eq h.length)
      have hafter : ({ s with monitor := monitor } : State).afterUnlock t (s.resultAt t) =
          { s with monitor := monitor, stopper := .joining 0 } := by
        simp only [State.afterUnlock, hnone]
        exact if_pos h.length.symm
      rw [hafter]
      exact .of_workers_eq (.unlock hstep rfl) rfl
    · have hturn : ∀ {s' : State}, s'.monitor = monitor → s'.stopper = s.stopper →
          Turn n s (.unlock t) s' := by
        intro s' hmonitor hstopper
        have hstep' : methods.Step s.monitor (.unlock t) s'.monitor := hmonitor ▸ hstep
        refine .inside hstep' hstopper (by simp) (by simp) ?_ (by simp)
        exact fun heq => htn (Monitor.Label.unlock.inj heq)
      unfold State.afterUnlock
      split
      · refine .of_worker (hturn rfl rfl) ?_ rfl
        split <;> decide
      · exact .of_worker (hturn rfl rfl) (by decide) rfl
      · rw [if_neg (fun heq => htn (heq.trans h.length))]
        exact .of_workers_eq (hturn rfl rfl) rfl

theorem join_moved {n : ℕ} {s : State} (h : Linked n s) (hl : Enabled s .join) :
    Linked n s.stepJoin ∧ Moved n s .join s.stepJoin := by
  unfold State.stepJoin
  cases hs : s.stopper with
  | joining i =>
      have hout := h.stopper (by simp [hs])
      dsimp only
      split
      · exact ⟨⟨h.length, h.worker, fun _ => hout⟩, .of_workers_eq (.outside rfl (by simp)) rfl⟩
      · exact ⟨⟨h.length, h.worker, fun _ => hout⟩, .of_workers_eq (.outside rfl (by simp)) rfl⟩
  | _ => simp [Enabled, hs, Stopper.thread] at hl

theorem run_moved {n : ℕ} {s : State} (hn : 1 ≤ n) (h : Linked n s) {t : ℕ} {task : Task}
    (hl : Enabled s (.run t task)) :
    ∃ s', exec s (.run t task) = .ok s' ∧ Linked n s' ∧ Moved n s (.run t task) s' := by
  obtain ⟨hthread, hin⟩ := hl
  have hne : s.workers ≠ [] := List.ne_nil_of_length_pos (h.length ▸ hn)
  rw [exec, if_neg hne, State.submit]
  rcases hthread with hlt | hworking
  · have hlt' : s.workers.length < t := hlt
    rw [if_neg (by omega)]
    obtain ⟨monitor, hexec, hstep⟩ := inMonitor_step hin
    have hother : ∀ m, (.call t (.run task) : Monitor.Label Call) ≠ .call n m :=
      call_ne (Nat.ne_of_gt (h.length ▸ hlt')) (.run task)
    refine ⟨_, hexec, h.inside hstep (fun i m pc hm hi => ?_) fun m hm => absurd hm (hother m),
      .of_workers_eq (.inside hstep rfl hother (by simp) (by simp) (by simp)) rfl⟩
    have hi' := (List.getElem?_eq_some_iff.mp hi).1
    have heq := (Monitor.Label.call.inj hm).1
    omega
  · rw [if_pos (List.getElem?_eq_some_iff.mp hworking).1]
    exact call_moved h hworking rfl rfl (by simp)

/-- Every step that can come succeeds, and moves the monitor by one of its rules or not at
all. -/
theorem exec_moved {n : ℕ} {s : State} (hn : 1 ≤ n) (h : Linked n s) {l : Label}
    (hl : Enabled s l) : ∃ s', exec s l = .ok s' ∧ Linked n s' ∧ Moved n s l s' := by
  cases l with
  | run t task => exact run_moved hn h hl
  | stop => exact stop_moved h hl
  | worker i => exact stepWorker_moved h hl
  | join => exact ⟨_, rfl, join_moved h hl⟩
  | lock t => exact inside_moved h hl (by simp) (by simp) (by simp)
  | proceed t w =>
      refine inside_moved h hl (by simp) (by simp) fun t w hl => ?_
      obtain ⟨rfl, rfl⟩ := Monitor.Label.proceed.inj hl
      rfl
  | unlock t => exact unlock_moved h hl
  | spurious t => exact inside_moved h hl (by simp) (by simp) (by simp)

/-! ### How far `stop` has come -/

/-- In `stop`, `running_` is set when the mutex is left. -/
inductive AtStop : Bool → Place Call Task → Prop
  | entering : AtStop true (.entering .stop)
  | testing {b : Bool} : AtStop true (.testing .stop b)
  | leaving {r : Task} : AtStop false (.leaving .stop r)

structure Phased (n : ℕ) (s : State) : Prop where
  linked : Linked n s
  stops : ∀ t, s.monitor.methodOf t = some .stop → t = n
  idle : s.stopper = .idle → s.monitor.shared.running = true
  stopping : s.stopper = .stopping →
    ∃ p, s.monitor.places[n]? = some p ∧ AtStop s.monitor.shared.running p
  exited : .exited ∈ s.workers → s.monitor.shared.running = false

theorem phased_start (n maxQueueSize callers : ℕ) : Phased n (start n maxQueueSize callers) where
  linked := linked_start n maxQueueSize callers
  stops t ht := by
    simp only [start, Monitor.start, Monitor.State.methodOf, List.getElem?_replicate] at ht
    split at ht <;> cases ht
  idle _ := rfl
  stopping h := by cases h
  exited h := by cases List.eq_of_mem_replicate h

/-- Only the body of `stop` touches `running_`. -/
theorem running_step {s : Monitor.State Call ThreadPool Task} {ml : Monitor.Label Call}
    {s' : Monitor.State Call ThreadPool Task} (hstep : methods.Step s ml s') :
    s'.shared.running = s.shared.running ∨ s'.shared.running = false ∧
      ∃ t w, ml = .proceed t w ∧ s.methodOf t = some .stop := by
  cases hstep with
  | @finish t _ _ w _ h hfree hbody _ =>
      cases effect_of_body hfree hbody with
      | stop =>
          refine .inr ⟨rfl, t, w, rfl, ?_⟩
          rw [Monitor.State.methodOf, h]
          rfl
      | _ => exact .inl rfl
  | _ => exact .inl rfl

theorem running_false_step {s s' : Monitor.State Call ThreadPool Task} {ml : Monitor.Label Call}
    (hstep : methods.Step s ml s') (h : s.shared.running = false) : s'.shared.running = false := by
  rcases running_step hstep with heq | ⟨hfalse, -⟩
  · rw [heq, h]
  · exact hfalse

/-- If only thread `n` is in `stop` and no other calls it, none but `n` is in it afterwards. -/
theorem stops_step {n : ℕ} {s s' : Monitor.State Call ThreadPool Task} {ml : Monitor.Label Call}
    (hstep : methods.Step s ml s') (hcall : ∀ t, ml = .call t .stop → t = n)
    (hstops : ∀ t, s.methodOf t = some .stop → t = n) :
    ∀ t, s'.methodOf t = some .stop → t = n := by
  intro t ht
  rcases hstep.methodOf t with heq | ⟨m, hml, heq⟩ | ⟨-, heq⟩
  · exact hstops t (heq ▸ ht)
  · obtain rfl := Option.some.inj (heq.symm.trans ht)
    exact hcall t hml
  · rw [heq] at ht
    cases ht

/-- A step inside the monitor, of the thread that stops the pool or of another one. -/
theorem atStop_step {n : ℕ} {s s' : Monitor.State Call ThreadPool Task}
    {ml : Monitor.Label Call} (hstep : methods.Step s ml s')
    (hstops : ∀ t, s.methodOf t = some .stop → t = n) (hunlock : ml ≠ .unlock n)
    {p : Place Call Task} (hp : s.places[n]? = some p) (hat : AtStop s.shared.running p) :
    ∃ p', s'.places[n]? = some p' ∧ AtStop s'.shared.running p' := by
  generalize hrunning : s.shared.running = running at hat
  by_cases hn : ml.thread = n
  · have hlt : n < s.places.length := (List.getElem?_eq_some_iff.mp hp).1
    subst hn
    cases hstep with
    | call h =>
        obtain rfl := Option.some.inj (hp.symm.trans h)
        cases hat
    | enter _ h =>
        obtain rfl := Option.some.inj (hp.symm.trans h)
        cases hat
        exact ⟨_, List.getElem?_set_self hlt, hrunning ▸ .testing⟩
    | resume _ h =>
        obtain rfl := Option.some.inj (hp.symm.trans h)
        cases hat
    | wait h hblocked =>
        obtain rfl := Option.some.inj (hp.symm.trans h)
        cases hat
        cases hblocked
    | finish h hfree hbody _ =>
        obtain rfl := Option.some.inj (hp.symm.trans h)
        have hplace := Monitor.Methods.getElem?_notified_of_holds (M := methods) h rfl
        cases hat
        cases effect_of_body hfree hbody with
        | stop =>
            refine ⟨_, List.getElem?_set_self ?_, .leaving⟩
            exact (List.getElem?_eq_some_iff.mp (hplace _ _)).1
    | unlock h => exact absurd rfl hunlock
    | spurious h =>
        obtain rfl := Option.some.inj (hp.symm.trans h)
        cases hat
  · have hrunning' : s'.shared.running = running := by
      rcases running_step hstep with heq | ⟨-, t, w, rfl, hmethod⟩
      · exact heq.trans hrunning
      · exact absurd (hstops t hmethod) hn
    have hwake : p.wake = p := by
      cases hat <;> rfl
    refine ⟨p, ?_, hrunning' ▸ hat⟩
    rcases hstep.others hn with heq | heq
    · rw [heq, hp]
    · rw [heq, hp, Option.map_some, hwake]

theorem Moved.phased {n : ℕ} {s s' : State} {l : Label} (h : Moved n s l s') (hs : Phased n s)
    (hlinked : Linked n s') : Phased n s' := by
  have hexited : (s.monitor.shared.running = false → s'.monitor.shared.running = false) →
      .exited ∈ s'.workers → s'.monitor.shared.running = false := by
    intro hkeep hmem
    rcases h.exits hmem with hmem | hrunning
    · exact hkeep (hs.exited hmem)
    · exact hkeep hrunning
  cases h.turn with
  | outside hmonitor hstopper =>
      refine ⟨hlinked, hmonitor ▸ hs.stops, fun hidle => ?_, fun hstopping => ?_,
        hexited (by rw [hmonitor]; exact id)⟩
      · rcases hstopper with heq | ⟨hne, -⟩
        · exact hmonitor ▸ hs.idle (heq ▸ hidle)
        · exact absurd hidle hne
      · rcases hstopper with heq | ⟨-, hne⟩
        · exact hmonitor ▸ hs.stopping (heq ▸ hstopping)
        · exact absurd hstopping hne
  | inside hstep hstopper hcall hstop hunlock _ =>
      have hstops := stops_step hstep (fun t hml => absurd hml (hstop t)) hs.stops
      refine ⟨hlinked, hstops, fun hidle => ?_, fun hstopping => ?_,
        hexited (running_false_step hstep)⟩
      · -- Before `stop` is called, its thread is outside.
        have hidle' : s.stopper = .idle := hstopper ▸ hidle
        have hout := hs.linked.stopper (by simp [hidle'])
        rcases running_step hstep with heq | ⟨-, t, w, -, hmethod⟩
        · rw [heq]
          exact hs.idle hidle'
        · have hthread := hs.stops t hmethod
          rw [hthread, Monitor.State.methodOf, hout] at hmethod
          cases hmethod
      · obtain ⟨p, hp, hat⟩ := hs.stopping (hstopper ▸ hstopping)
        exact atStop_step hstep hs.stops hunlock hp hat
  | call hstep hidle hstopper =>
      have hrunning := hs.idle hidle
      have hout := hs.linked.stopper (by simp [hidle])
      refine ⟨hlinked, stops_step hstep (fun t hml => (Monitor.Label.call.inj hml).1.symm) hs.stops,
        by simp [hstopper], fun _ => ?_, hexited (running_false_step hstep)⟩
      generalize hmonitor : s'.monitor = monitor at hstep
      cases hstep with
      | call h =>
          refine ⟨_, List.getElem?_set_self (List.getElem?_eq_some_iff.mp hout).1, ?_⟩
          change AtStop s.monitor.shared.running _
          exact hrunning ▸ .entering
  | unlock hstep hstopper =>
      exact ⟨hlinked, stops_step hstep (fun t hml => by cases hml) hs.stops, by simp [hstopper],
        by simp [hstopper], hexited (running_false_step hstep)⟩

theorem exec_phased {n : ℕ} (hn : 1 ≤ n) {s : State} {l : Label} (h : Phased n s)
    (hl : Enabled s l) : ∃ s', exec s l = .ok s' ∧ Phased n s' ∧ Moved n s l s' := by
  obtain ⟨s', hexec, hlinked, hmoved⟩ := exec_moved hn h.linked hl
  exact ⟨s', hexec, hmoved.phased h hlinked, hmoved⟩

theorem exec_keeps_phased {n : ℕ} (hn : 1 ≤ n) (s : State) (l : Label) (h : Phased n s)
    (hl : Enabled s l) : ∃ s', exec s l = .ok s' ∧ Phased n s' := by
  obtain ⟨s', hexec, hphased, -⟩ := exec_phased hn h hl
  exact ⟨s', hexec, hphased⟩

/-! ### Enough for the callers -/

/-- The thread `t` is in `run`, at the test of the loop, and finds the queue full. -/
def findsFull (s : State) (t : ℕ) : Bool :=
  match s.monitor.places[t]? with
  | some (.testing (.run _) _) => s.monitor.shared.isFull
  | _ => false

/-- Callers that sleep on `notFull_` and have not been notified. -/
def sleepingCallers (s : State) : ℕ := s.monitor.places.countP (methods.sleepsOn .notFull)

/-- How the pool may be used: no caller sleeps on `notFull_` when `stop` sets `running_`, and none
finds the queue full once it is set. -/
def Settled (s : State) : Label → Prop
  | .proceed t _ =>
      (s.monitor.methodOf t = some .stop → sleepingCallers s = 0) ∧
        (s.monitor.shared.running = false → findsFull s t = false)
  | _ => True

instance (s : State) : ∀ l : Label, Decidable (Settled s l)
  | .proceed _ _ => inferInstanceAs (Decidable ((_ → _) ∧ (_ → _)))
  | .worker _ => .isTrue trivial
  | .run _ _ => .isTrue trivial
  | .stop => .isTrue trivial
  | .join => .isTrue trivial
  | .lock _ => .isTrue trivial
  | .unlock _ => .isTrue trivial
  | .spurious _ => .isTrue trivial

/-- Nobody sleeps once `running_` is false. -/
def NoneAsleep (s : State) : Prop := s.monitor.shared.running = false → sleepingCallers s = 0

/-- A step of the monitor puts a caller to sleep only if it finds the queue full. -/
theorem sleeping_le {s s' : State} {ml : Monitor.Label Call}
    (hstep : methods.Step s.monitor ml s'.monitor)
    (hfull : ∀ t w, ml = .proceed t w → findsFull s t = false) :
    sleepingCallers s' ≤ sleepingCallers s := by
  rcases hstep.sleepsOn_le .notFull with hle | ⟨t, m, b, w, hml, ht, hblocked, hm⟩
  · exact hle
  · have hfull := hfull t w hml
    cases m with
    | run task =>
        rw [findsFull, ht] at hfull
        exact absurd hblocked (by rw [Bool.not_eq_true]; exact hfull)
    | take => cases hm
    | stop => cases hm

/-- Who is in `stop` does not find the queue full. -/
theorem findsFull_of_stop {s : State} {t : ℕ} (h : s.monitor.methodOf t = some .stop) :
    findsFull s t = false := by
  unfold findsFull
  split
  · next hp =>
      rw [Monitor.State.methodOf, hp] at h
      cases h
  · rfl

theorem noneAsleep_step {s s' : State} {ml : Monitor.Label Call}
    (hstep : methods.Step s.monitor ml s'.monitor) (hs : NoneAsleep s)
    (hsettled : ∀ t w, ml = .proceed t w → Settled s (.proceed t w)) : NoneAsleep s' := by
  intro hstopped
  rcases running_step hstep with heq | ⟨-, t, w, rfl, hmethod⟩
  · -- It was false before the step, too.
    have hrunning := heq.symm.trans hstopped
    refine Nat.le_zero.mp (hs hrunning ▸ sleeping_le hstep fun t w hml => ?_)
    exact (hsettled t w hml).2 hrunning
  · refine Nat.le_zero.mp ((hsettled t w rfl).1 hmethod ▸ sleeping_le hstep fun t' w' hml => ?_)
    obtain ⟨rfl, -⟩ := Monitor.Label.proceed.inj hml
    exact findsFull_of_stop hmethod

theorem Moved.noneAsleep {n : ℕ} {s s' : State} {l : Label} (h : Moved n s l s')
    (hs : NoneAsleep s) (hsettled : Settled s l) : NoneAsleep s' := by
  cases h.turn with
  | outside hmonitor _ =>
      intro hrunning
      rw [hmonitor] at hrunning
      rw [sleepingCallers, hmonitor]
      exact hs hrunning
  | inside hstep _ _ _ _ hproceed =>
      refine noneAsleep_step hstep hs fun t w hml => ?_
      obtain rfl := hproceed t w hml
      exact hsettled
  | call hstep _ _ => exact noneAsleep_step hstep hs (by simp)
  | unlock hstep _ => exact noneAsleep_step hstep hs (by simp)

theorem exec_noneAsleep {n : ℕ} (hn : 1 ≤ n) (s : State) (l : Label)
    (h : Phased n s ∧ NoneAsleep s) (hl : Enabled s l ∧ Settled s l) :
    ∃ s', exec s l = .ok s' ∧ Phased n s' ∧ NoneAsleep s' := by
  obtain ⟨s', hexec, hphased, hmoved⟩ := exec_phased hn h.1 hl.1
  exact ⟨s', hexec, hphased, hmoved.noneAsleep h.2 hl.2⟩

/-! ### How callers are stranded -/

/-- There are steps after which `stop` has returned and a caller sleeps. -/
def MayStrand (s : State) : Prop := ∃ ls s', Path exec Enabled s ls s' ∧ Stranded s'

theorem MayStrand.of_step {s s' : State} {l : Label} (hl : Enabled s l) (hs : exec s l = .ok s')
    (h : MayStrand s') : MayStrand s := by
  obtain ⟨ls, t, hpath, hstranded⟩ := h
  exact ⟨l :: ls, t, .cons hl hs hpath, hstranded⟩

/-- All workers have left, and somebody sleeps. -/
structure Behind (s : State) : Prop where
  exited : ∀ pc ∈ s.workers, pc = .exited
  sleeps : 0 < sleepingCallers s

theorem Behind.join_enabled {s : State} (h : Behind s) {i : ℕ} (hs : s.stopper = .joining i) :
    Enabled s .join := by
  simp only [Enabled, hs, Stopper.thread, Option.any_some]
  cases hi : s.workers[i]? with
  | none => rfl
  | some pc =>
      have hpc := h.exited pc (List.mem_iff_getElem?.mpr ⟨i, hi⟩)
      simp [hpc]

/-- Nothing keeps the loop of `stop` from its end. -/
theorem Behind.joins {s : State} (h : Behind s) {i : ℕ} (hs : s.stopper = .joining i) :
    MayStrand s := by
  generalize hk : s.workers.length - i = k
  induction k generalizing s i with
  | zero =>
      have hjoin : exec s .join = .ok { s with stopper := .returned } := by
        simp only [exec, State.stepJoin, hs]
        rw [if_neg (by omega)]
      exact .of_step (h.join_enabled hs) hjoin ⟨[], _, .nil _, rfl, h.exited, h.sleeps⟩
  | succ k ih =>
      have hjoin : exec s .join = .ok { s with stopper := .joining (i + 1) } := by
        simp only [exec, State.stepJoin, hs]
        rw [if_pos (by omega)]
      have hnext : Behind { s with stopper := .joining (i + 1) } := ⟨h.exited, h.sleeps⟩
      exact .of_step (h.join_enabled hs) hjoin (ih hnext rfl (by simp only; omega))

/-- `stop` has set `running_`, and leaves the mutex. -/
theorem Behind.leaves {n : ℕ} {s : State} (h : Behind s) (hlinked : Linked n s) {r : Task}
    (hn : s.monitor.places[n]? = some (.leaving .stop r)) : MayStrand s := by
  have henabled : Enabled s (.unlock n) := by
    change (s.monitor.places[n]?).any Place.isLeaving = true
    rw [hn]
    rfl
  have hnone : s.workers[n]? = none :=
    List.getElem?_eq_none_iff.mpr (Nat.le_of_eq hlinked.length)
  have hunlock : exec s (.unlock n) = .ok { s with
      monitor := { s.monitor with owner := none, places := s.monitor.places.set n .outside }
      stopper := .joining 0 } := by
    simp only [exec, State.inMonitor, Monitor.Methods.exec, ok_bind, pure_bind, State.afterUnlock,
      hnone]
    exact congrArg Except.ok (if_pos hlinked.length.symm)
  have hcount := Monitor.Methods.countP_set_add hn (methods.sleepsOn .notFull) .outside
  have hnext : Behind { s with
      monitor := { s.monitor with owner := none, places := s.monitor.places.set n .outside }
      stopper := .joining 0 } := by
    refine ⟨h.exited, ?_⟩
    change 0 < (s.monitor.places.set n .outside).countP (methods.sleepsOn .notFull)
    exact Nat.lt_of_lt_of_eq h.sleeps hcount.symm
  exact .of_step henabled hunlock (hnext.joins rfl)

theorem Behind.mayStrand {n : ℕ} {s : State} (h : Behind s) (hs : Phased n s)
    (hrunning : s.monitor.shared.running = false) : MayStrand s := by
  cases hstopper : s.stopper with
  | idle =>
      have htrue := hs.idle hstopper
      rw [hrunning] at htrue
      cases htrue
  | stopping =>
      obtain ⟨p, hp, hat⟩ := hs.stopping hstopper
      rw [hrunning] at hat
      cases hat with
      | leaving => exact h.leaves hs.linked hp
  | joining i => exact h.joins hstopper
  | returned => exact ⟨[], s, .nil s, hstopper, h.exited, h.sleeps⟩

/-- A worker outside the methods goes to the test of its loop and leaves it. -/
theorem MayStrand.of_exit {s : State} {i : ℕ} {pc : Worker} (hi : s.workers[i]? = some pc)
    (hpc : pc.inMethod = false) (hne : pc ≠ .exited) (hrunning : s.monitor.shared.running = false)
    (h : MayStrand (s.setWorker i .exited)) : MayStrand s := by
  have henabled : Enabled s (.worker i) := by
    simp [Enabled, hi, hpc, hne]
  have hlooping : MayStrand (s.setWorker i .looping) := by
    have hset : (s.setWorker i .looping).workers[i]? = some .looping :=
      List.getElem?_set_self (List.getElem?_eq_some_iff.mp hi).1
    have hleave : exec (s.setWorker i .looping) (.worker i) = .ok (s.setWorker i .exited) := by
      simp only [exec, State.stepWorker, hset]
      rw [if_neg (by simp [State.setWorker, hrunning]), State.setWorker, State.setWorker,
        List.set_set, State.setWorker]
    exact .of_step (by simp [Enabled, hset, Worker.inMethod]) hleave h
  cases pc with
  | starting => exact .of_step henabled (by simp only [exec, State.stepWorker, hi]) hlooping
  | working => exact .of_step henabled (by simp only [exec, State.stepWorker, hi]) hlooping
  | looping => exact .of_step henabled (by simp [exec, State.stepWorker, hi, hrunning]) h
  | taking => cases hpc
  | submitting => cases hpc
  | exited => exact absurd rfl hne

/-- Without a worker in `take` or `run` nobody wakes the sleeping callers any more. -/
theorem mayStrand_of_asleep {n : ℕ} {s : State} (hs : Phased n s)
    (hrunning : s.monitor.shared.running = false) (hout : ∀ pc ∈ s.workers, pc.inMethod = false)
    (hsleeps : 0 < sleepingCallers s) : MayStrand s := by
  generalize hk : s.workers.countP (· ≠ .exited) = k
  induction k generalizing s with
  | zero =>
      refine Behind.mayStrand ⟨fun pc hpc => ?_, hsleeps⟩ hs hrunning
      simpa using List.countP_eq_zero.mp hk pc hpc
  | succ k ih =>
      obtain ⟨pc, hmem, hne⟩ := List.countP_pos_iff.mp (Nat.lt_of_lt_of_eq k.succ_pos hk.symm)
      obtain ⟨i, hi⟩ := List.mem_iff_getElem?.mp hmem
      have hpc := hout pc hmem
      have hcount := Monitor.Methods.countP_set_add hi (fun pc => decide (pc ≠ .exited)) .exited
      refine .of_exit hi hpc (of_decide_eq_true hne) hrunning (ih ?_ hrunning ?_ hsleeps ?_)
      · exact ⟨hs.linked.setWorker hi hpc _, hs.stops, hs.idle, hs.stopping, fun _ => hrunning⟩
      · intro q hq
        rcases List.mem_or_eq_of_mem_set hq with hq | rfl
        · exact hout q hq
        · rfl
      · rw [hne, hk] at hcount
        exact Nat.succ.inj hcount

/-- While the pool is used so, `stop` strands no caller. Wherever a caller is asleep once
`running_` is false and no worker is in `take` or `run`, there are steps after which `stop` has
returned and a caller sleeps. -/
theorem stop_strands_no_caller (n maxQueueSize callers : ℕ) (hn : 1 ≤ n) (ls : List Label) :
    (LegalRun exec (fun s l => Enabled s l ∧ Settled s l) (start n maxQueueSize callers) ls →
      ∃ s, run exec (start n maxQueueSize callers) ls = .ok s ∧ ¬ Stranded s) ∧
    ∀ s, Path exec Enabled (start n maxQueueSize callers) ls s → s.monitor.shared.running = false →
      (∀ pc ∈ s.workers, pc.inMethod = false) → 0 < sleepingCallers s → MayStrand s := by
  have hstart := phased_start n maxQueueSize callers
  constructor
  · intro hl
    have hnone : NoneAsleep (start n maxQueueSize callers) := fun h => by cases h
    obtain ⟨s, hs, hphased, hasleep⟩ := run_invariant (exec_noneAsleep hn) ⟨hstart, hnone⟩ hl
    refine ⟨s, hs, fun hstranded => ?_⟩
    obtain ⟨-, hall, hsleeps⟩ := hstranded
    have hlt : 0 < s.workers.length := hphased.linked.length ▸ hn
    have hmem := List.getElem_mem hlt
    have hrunning := hphased.exited (hall _ hmem ▸ hmem)
    exact Nat.ne_of_gt hsleeps (hasleep hrunning)
  · intro s hpath hrunning hout hsleeps
    obtain ⟨t, ht, hphased⟩ := run_invariant (exec_keeps_phased hn) hstart hpath.legal
    obtain rfl := Except.ok.inj (ht.symm.trans hpath.ends)
    exact mayStrand_of_asleep hphased hrunning hout hsleeps

/-- A pool with one worker and room for one task, and a caller that has to wait for it. -/
def drained : List Label :=
  [.run 2 (some 1), .lock 2, .proceed 2 none, .unlock 2, .run 2 (some 2), .lock 2,
    .proceed 2 none, .worker 0, .worker 0, .lock 0, .proceed 0 (some 2), .unlock 0,
    .lock 2, .proceed 2 none, .unlock 2, .stop, .lock 1, .proceed 1 none, .unlock 1,
    .worker 0, .worker 0, .join, .join]

/-- The worker is in a task when the queue fills up and a caller falls asleep; then the pool is
stopped, and the worker leaves without another `take`. -/
def undrained : List Label :=
  [.run 2 (some 1), .lock 2, .proceed 2 none, .unlock 2, .worker 0, .worker 0, .lock 0,
    .proceed 0 none, .unlock 0, .run 2 (some 2), .lock 2, .proceed 2 none, .unlock 2,
    .run 2 (some 3), .lock 2, .proceed 2 none, .stop, .lock 1, .proceed 1 none, .unlock 1,
    .worker 0, .worker 0, .join, .join]

theorem stop_strands_no_caller_drained :
    (LegalRun exec (fun s l => Enabled s l ∧ Settled s l) (start 1 1 1) drained ∧
      ∃ s, run exec (start 1 1 1) drained = .ok s ∧ ¬ Stranded s) ∧
    ∃ s, Path exec Enabled (start 1 1 1) (undrained.take 19) s ∧ MayStrand s := by
  have hlegal : LegalRun exec (fun s l => Enabled s l ∧ Settled s l) (start 1 1 1) drained := by
    decide
  have henabled : LegalRun exec Enabled (start 1 1 1) (undrained.take 19) := by
    decide
  have hasleep : ∃ s, run exec (start 1 1 1) (undrained.take 19) = .ok s ∧
      s.monitor.shared.running = false ∧ (∀ pc ∈ s.workers, pc.inMethod = false) ∧
        0 < sleepingCallers s := by
    decide
  obtain ⟨s, hs, hrunning, hout, hsleeps⟩ := hasleep
  refine ⟨⟨hlegal, (stop_strands_no_caller 1 1 1 (by decide) drained).1 hlegal⟩,
    s, ⟨henabled, hs⟩, ?_⟩
  exact (stop_strands_no_caller 1 1 1 (by decide) _).2 s ⟨henabled, hs⟩ hrunning hout hsleeps

theorem caller_left_asleep :
    LegalRun exec Enabled (start 1 1 1) undrained ∧
      ∃ s, run exec (start 1 1 1) undrained = .ok s ∧ Stranded s := by
  decide

end Muduo.System.Pooling
