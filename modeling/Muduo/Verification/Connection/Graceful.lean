import Muduo.System.Sending
import Muduo.Verification.Connection.Stream

/-! Graceful shutdown. The functors of one thread run in the order in which they were
queued, but `handleWrite` reads `state_` ahead of that queue, and a `shutdown` that finds the
connection already being shut down queues nothing: the half-close is in order exactly when
no draining event and no request of another thread comes between a `shutdown` and the
messages sent before it. -/

namespace Muduo.System.Sending

open Library Net TcpConnection

variable {τ : Type}

/-! ### Messages -/

@[simp] theorem bytes_append (ps qs : List (τ × List UInt8)) :
    bytes (ps ++ qs) = bytes ps ++ bytes qs := List.flatMap_append

section OfThread

variable [DecidableEq τ]

@[simp] theorem ofThread_append (t : τ) (ps qs : List (τ × List UInt8)) :
    ofThread t (ps ++ qs) = ofThread t ps ++ ofThread t qs := List.filter_append _ _

@[simp] theorem ofThread_singleton (t : τ) (p : τ × List UInt8) :
    ofThread t [p] = if p.1 = t then [p] else [] := by
  by_cases h : p.1 = t <;> simp [ofThread, h]

theorem bytes_ofThread_eq_nil {t : τ} {ps : List (τ × List UInt8)}
    (h : ∀ p ∈ ps, p.1 = t → p.2 = []) : bytes (ofThread t ps) = [] := by
  apply List.flatMap_eq_nil_iff.mpr
  intro p hp
  obtain ⟨hmem, ht⟩ := List.mem_filter.mp hp
  exact h p hmem (of_decide_eq_true ht)

end OfThread

/-! ### The queue -/

/-- The functors of the queue against the messages they carry. Behind a queued
`shutdownInLoop` there is no message of a thread that has requested one. -/
inductive Queued (requested : τ → Bool) : List Functor → List (τ × List UInt8) → Prop
  | nil : Queued requested [] []
  | send {fs ps} (t : τ) (m : List UInt8) (h : Queued requested fs ps) :
      Queued requested (.sendInLoop m :: fs) ((t, m) :: ps)
  | shutdown {fs ps} (hps : ∀ p ∈ ps, requested p.1 = false) (h : Queued requested fs ps) :
      Queued requested (.shutdownInLoop :: fs) ps
  | callback {fs ps} {f : Functor} (hf : f.IsCallback) (h : Queued requested fs ps) :
      Queued requested (f :: fs) ps

section Queue

variable {requested : τ → Bool} {fs : List Functor} {ps : List (τ × List UInt8)}

theorem Queued.append_callbacks (h : Queued requested fs ps) {gs : List Functor}
    (hgs : ∀ g ∈ gs, g.IsCallback) : Queued requested (fs ++ gs) ps := by
  induction h with
  | nil =>
      induction gs with
      | nil => exact .nil
      | cons g gs ih =>
          obtain ⟨hg, hgs⟩ := List.forall_mem_cons.mp hgs
          exact .callback hg (ih hgs)
  | send t m _ ih => exact .send t m ih
  | shutdown hps _ ih => exact .shutdown hps ih
  | callback hf _ ih => exact .callback hf ih

theorem Queued.append_send (h : Queued requested fs ps) {t : τ} (ht : requested t = false)
    (m : List UInt8) : Queued requested (fs ++ [.sendInLoop m]) (ps ++ [(t, m)]) := by
  induction h with
  | nil => exact .send t m .nil
  | send u n _ ih => exact .send u n ih
  | shutdown hps _ ih =>
      refine .shutdown (fun p hp => ?_) ih
      rcases List.mem_append.mp hp with hp | hp
      · exact hps p hp
      · rwa [List.mem_singleton.mp hp]
  | callback hf _ ih => exact .callback hf ih

theorem Queued.append_shutdown (h : Queued requested fs ps) :
    Queued requested (fs ++ [.shutdownInLoop]) ps := by
  induction h with
  | nil => exact .shutdown (by simp) .nil
  | send t m _ ih => exact .send t m ih
  | shutdown hps _ ih => exact .shutdown hps ih
  | callback hf _ ih => exact .callback hf ih

/-- Without a queued half-close, who has requested one does not matter. -/
theorem Queued.change (h : Queued requested fs ps) (hno : .shutdownInLoop ∉ fs)
    (requested' : τ → Bool) : Queued requested' fs ps := by
  induction h with
  | nil => exact .nil
  | send t m _ ih => exact .send t m (ih (fun hmem => hno (List.mem_cons_of_mem _ hmem)))
  | shutdown _ _ _ => exact absurd List.mem_cons_self hno
  | callback hf _ ih => exact .callback hf (ih (fun hmem => hno (List.mem_cons_of_mem _ hmem)))

end Queue

/-! ### What the half-close has left out -/

/-- No byte of a thread that has called `shutdown` is left out by the half-close. -/
def Complete (s : State τ) : Prop :=
  s.world.socket.shutdownAt ≠ none → ∀ p ∈ s.late ++ s.waiting, s.closing p.1 = true → p.2 = []

theorem complete_of_open {s : State τ} (h : s.world.socket.shutdownAt = none) : Complete s :=
  fun hat => absurd h hat

/-- After the half-close only messages of threads that have not called `shutdown` are added
to those it has left out. -/
theorem Complete.frame {s s' : State τ} (h : Complete s) (hclosing : s'.closing = s.closing)
    (hat : s'.world.socket.shutdownAt = s.world.socket.shutdownAt)
    (hrest : s.world.socket.shutdownAt ≠ none → ∀ p ∈ s'.late ++ s'.waiting,
      p ∈ s.late ++ s.waiting ∨ s.closing p.1 = false) : Complete s' := by
  intro hsome p hp hc
  rw [hat] at hsome
  rw [hclosing] at hc
  rcases hrest hsome p hp with hold | hopen
  · exact h hsome p hold hc
  · exact absurd (hopen.symm.trans hc) Bool.false_ne_true

/-- A step that touches neither the half-close nor the messages. -/
theorem Complete.same {s s' : State τ} (h : Complete s) (hclosing : s'.closing = s.closing)
    (hat : s'.world.socket.shutdownAt = s.world.socket.shutdownAt) (hlate : s'.late = s.late)
    (hwaiting : s'.waiting = s.waiting) : Complete s' := by
  refine h.frame hclosing hat fun _ p hp => .inl ?_
  rwa [hlate, hwaiting] at hp

/-! ### The invariant -/

variable [DecidableEq τ]

def State.queue (s : State τ) : List Functor := s.batch.getD [] ++ s.world.loop.pendingFunctors

/-- The messages whose functors have been queued, in the order of the queue. -/
def State.messages (s : State τ) : List (τ × List UInt8) := s.done ++ (s.late ++ s.waiting)

/-- The message a thread has passed the test with and not queued yet. -/
def Pc.inFlight (t : τ) : Pc → List (τ × List UInt8)
  | .sending message => [(t, message)]
  | _ => []

/-- What every reachable state satisfies for each thread: its messages keep their order
from `send` to the socket, and in `shutdown` it has queued them all. -/
structure Thread (s : State τ) (t : τ) : Prop where
  order : ofThread t s.accepted = ofThread t s.messages ++ (s.pc t).inFlight t
  called : s.requested t = true → s.closing t = true
  queued : s.closing t = true → (s.pc t).inFlight t = []
  tested : s.closing t = true → s.world.conn.state = .kConnected → s.pc t = .shutdownTested
  unset : s.world.conn.state = .kConnected → s.pc t ≠ .shutdownSet

/-- The steps of others leave a thread alone. -/
theorem Thread.frame {s s' : State τ} {t : τ} (h : Thread s t) (hpc : s'.pc t = s.pc t)
    (hclosing : s'.closing t = s.closing t) (hrequested : s'.requested t = s.requested t)
    (haccepted : ofThread t s'.accepted = ofThread t s.accepted)
    (hmessages : ofThread t s'.messages = ofThread t s.messages)
    (hstate : s'.world.conn.state = .kConnected → s.world.conn.state = .kConnected) :
    Thread s' t := by
  refine ⟨by rw [haccepted, hmessages, hpc, h.order], ?_, ?_, ?_, ?_⟩
  · rw [hrequested, hclosing]
    exact h.called
  · rw [hclosing, hpc]
    exact h.queued
  · rw [hclosing, hpc]
    exact fun hc hs => h.tested hc (hstate hs)
  · rw [hpc]
    exact fun hs => h.unset (hstate hs)

/-- The invariant. The messages that are done are what the half-close found written, and
before the first `setState` nothing of a half-close is to be seen. -/
structure Inv (s : State τ) : Prop where
  flowing : s.world.Flowing
  live : s.world.conn.state = .kConnected ∨ s.world.conn.state = .kDisconnecting
  stream : s.world.socket.written ++ s.world.conn.outputBuffer.readable =
    bytes (s.done ++ s.late)
  punctual : s.world.socket.shutdownAt = none → s.late = []
  halfClosed : ∀ written, s.world.socket.shutdownAt = some written → written = bytes s.done
  queue : Queued s.requested s.queue s.waiting
  thread : ∀ t, Thread s t
  quiet : s.world.conn.state = .kConnected →
    .shutdownInLoop ∉ s.queue ∧ s.world.socket.shutdownAt = none

theorem start_inv {w : World} (h : w.Fresh) (hq : w.loop.pendingFunctors = []) :
    Inv (start w.established : State τ) := by
  have hread : w.established.conn.outputBuffer.readable = [] := by
    show w.conn.outputBuffer.readable = []
    rw [h.output, (Buffer.init_holds _).readable_eq]
  have hqueue : (start w.established : State τ).queue = [] := hq
  have hsocket : w.established.socket = ⟨[], none⟩ := h.socket
  have hopen : (start w.established : State τ).world.socket.shutdownAt = none := by
    show w.established.socket.shutdownAt = none
    rw [hsocket]
  refine ⟨h.flowing, .inl rfl, ?_, fun _ => rfl, fun written hw => ?_, ?_, fun t => ?_, fun _ => ?_⟩
  · show w.established.socket.written ++ w.established.conn.outputBuffer.readable = []
    rw [hread, hsocket]
    rfl
  · rw [hopen] at hw
    cases hw
  · rw [hqueue]
    exact .nil
  · exact ⟨rfl, nofun, nofun, nofun, nofun⟩
  · rw [hqueue]
    exact ⟨List.not_mem_nil, hopen⟩

/-- The bytes of a thread in the first messages are all its bytes exactly if the others have
none of it. -/
theorem bytes_ofThread_eq_iff (t : τ) (sent rest : List (τ × List UInt8)) :
    bytes (ofThread t sent) = bytes (ofThread t (sent ++ rest)) ↔
      ∀ p ∈ rest, p.1 = t → p.2 = [] := by
  rw [ofThread_append, bytes_append, List.self_eq_append_right]
  refine ⟨fun hnil p hp ht => ?_, bytes_ofThread_eq_nil⟩
  have hmem : p ∈ ofThread t rest := List.mem_filter.mpr ⟨hp, decide_eq_true ht⟩
  exact List.flatMap_eq_nil_iff.mp hnil p hmem

/-- Two first parts of the messages with the same bytes have the same bytes of each thread. -/
theorem bytes_ofThread_congr (t : τ) {ps qs all : List (τ × List UInt8)} (hps : ps <+: all)
    (hqs : qs <+: all) (h : bytes ps = bytes qs) :
    bytes (ofThread t ps) = bytes (ofThread t qs) := by
  rcases List.prefix_or_prefix_of_prefix hps hqs with hle | hle
  · obtain ⟨rest, rfl⟩ := hle
    rw [bytes_append, List.self_eq_append_right] at h
    exact (bytes_ofThread_eq_iff t ps rest).mpr fun p hp _ => List.flatMap_eq_nil_iff.mp h p hp
  · obtain ⟨rest, rfl⟩ := hle
    rw [bytes_append, List.append_right_eq_self] at h
    refine ((bytes_ofThread_eq_iff t qs rest).mpr fun p hp _ => ?_).symm
    exact List.flatMap_eq_nil_iff.mp h p hp

theorem Inv.graceful_iff {s : State τ} (h : Inv s) : Graceful s ↔ Complete s := by
  have haccepted : ∀ t, s.closing t = true → ofThread t s.accepted = ofThread t s.messages := by
    intro t ht
    rw [(h.thread t).order, (h.thread t).queued ht, List.append_nil]
  have hdone : s.done <+: s.messages := List.prefix_append _ _
  constructor
  · intro hg hat p hp hclosing
    obtain ⟨written, hw⟩ := Option.ne_none_iff_exists'.mp hat
    obtain ⟨sent, hpre, hbytes, hthread⟩ := hg p.1 hclosing written hw
    rw [h.halfClosed written hw] at hbytes
    rw [haccepted p.1 hclosing, ← bytes_ofThread_congr p.1 hdone hpre hbytes] at hthread
    exact (bytes_ofThread_eq_iff p.1 s.done _).mp hthread p hp rfl
  · intro hc t ht written hw
    refine ⟨s.done, hdone, h.halfClosed written hw, ?_⟩
    rw [haccepted t ht]
    refine (bytes_ofThread_eq_iff t s.done _).mpr fun p hp hpt => ?_
    exact hc (by simp [hw]) p hp (hpt ▸ ht)

/-! ### The steps of the threads -/

theorem Inv.send {s : State τ} (h : Inv s) {t : τ} (hpc : s.pc t = .idle)
    (hstate : s.world.conn.state = .kConnected) (m : List UInt8) :
    Inv { s with
      pc := Function.update s.pc t (.sending m), accepted := s.accepted ++ [(t, m)] } := by
  refine ⟨h.flowing, h.live, h.stream, h.punctual, h.halfClosed, h.queue, fun u => ?_, h.quiet⟩
  by_cases hu : u = t
  · subst hu
    have hopen : s.closing u ≠ true := fun hc => by
      simpa [hpc] using (h.thread u).tested hc hstate
    refine ⟨?_, (h.thread u).called, fun hc => absurd hc hopen, fun hc => absurd hc hopen, by simp⟩
    have horder := (h.thread u).order
    rw [hpc] at horder
    simp [horder, State.messages, Pc.inFlight]
  · exact (h.thread u).frame (by simp [hu]) rfl rfl (by simp [Ne.symm hu]) rfl id

/-- A thread in `send` has not called `shutdown`. -/
theorem Inv.closing_of_sending {s : State τ} (h : Inv s) {t : τ} {m : List UInt8}
    (hpc : s.pc t = .sending m) : s.closing t = false := by
  refine Bool.eq_false_iff.mpr fun hc => ?_
  simpa [hpc, Pc.inFlight] using (h.thread t).queued hc

theorem Inv.queueSend {s : State τ} (h : Inv s) {t : τ} {m : List UInt8}
    (hpc : s.pc t = .sending m) :
    Inv { s with
      world := s.world.queueInLoop (.sendInLoop m)
      pc := Function.update s.pc t .idle
      waiting := s.waiting ++ [(t, m)] } := by
  have hopen : s.closing t ≠ true := Bool.eq_false_iff.mp (h.closing_of_sending hpc)
  have hrequested : s.requested t = false :=
    Bool.eq_false_iff.mpr fun hr => hopen ((h.thread t).called hr)
  have hqueue : s.batch.getD [] ++ (s.world.queueInLoop (.sendInLoop m)).loop.pendingFunctors =
      s.queue ++ [.sendInLoop m] := (List.append_assoc _ _ _).symm
  refine ⟨h.flowing.queueInLoop _, h.live, h.stream, h.punctual, h.halfClosed, ?_, fun u => ?_,
    fun hs => ?_⟩
  · rw [State.queue, hqueue]
    exact h.queue.append_send hrequested m
  · by_cases hu : u = t
    · subst hu
      refine ⟨?_, (h.thread u).called, fun hc => absurd hc hopen, fun hc => absurd hc hopen,
        by simp⟩
      simpa [hpc, State.messages, Pc.inFlight] using (h.thread u).order
    · exact (h.thread u).frame (by simp [hu]) rfl rfl rfl (by simp [State.messages, Ne.symm hu]) id
  · refine ⟨?_, (h.quiet hs).2⟩
    rw [State.queue, hqueue]
    simpa using (h.quiet hs).1

theorem Inv.shutdown {s : State τ} (h : Inv s) {t : τ} (hpc : s.pc t = .idle)
    (hstate : s.world.conn.state = .kConnected) :
    Inv { s with
      pc := Function.update s.pc t .shutdownTested
      closing := Function.update s.closing t true
      requested := Function.update s.requested t true } := by
  refine ⟨h.flowing, h.live, h.stream, h.punctual, h.halfClosed,
    h.queue.change (h.quiet hstate).1 _, fun u => ?_, h.quiet⟩
  by_cases hu : u = t
  · subst hu
    refine ⟨?_, by simp, by simp [Pc.inFlight], by simp, by simp⟩
    simpa [hpc, State.messages, Pc.inFlight] using (h.thread u).order
  · exact (h.thread u).frame (by simp [hu]) (by simp [hu]) (by simp [hu]) rfl rfl id

/-- A call that finds the connection already being shut down changes nothing but history. -/
theorem Inv.shutdown_late {s : State τ} (h : Inv s) {t : τ} (hpc : s.pc t = .idle)
    (hstate : s.world.conn.state ≠ .kConnected) :
    Inv { s with closing := Function.update s.closing t true } := by
  refine ⟨h.flowing, h.live, h.stream, h.punctual, h.halfClosed, h.queue, fun u => ?_, h.quiet⟩
  by_cases hu : u = t
  · subst hu
    exact ⟨(h.thread u).order, by simp, by simp [hpc, Pc.inFlight],
      fun _ hs => absurd hs hstate, fun hs => absurd hs hstate⟩
  · exact (h.thread u).frame rfl (by simp [hu]) rfl rfl rfl id

/-- After the half-close a call is in time only if none of the caller's bytes was left out. -/
theorem complete_shutdown_iff {s : State τ} (h : Complete s) (t : τ) :
    Complete { s with closing := Function.update s.closing t true } ↔ InOrder s (.shutdown t) := by
  constructor
  · intro hc hat p hp ht
    exact hc hat p hp (by simp [ht])
  · intro hord hat p hp hclosing
    by_cases hpt : p.1 = t
    · exact hord hat p hp hpt
    · exact h hat p hp (by simpa [hpt] using hclosing)

theorem Inv.setDisconnecting {s : State τ} (h : Inv s) {t : τ}
    (hpc : s.pc t = .shutdownTested) :
    Inv { s with
      world := s.world.setState .kDisconnecting
      pc := Function.update s.pc t .shutdownSet } := by
  refine ⟨h.flowing.setState _, .inr rfl, h.stream, h.punctual, h.halfClosed, h.queue, fun u => ?_,
    nofun⟩
  by_cases hu : u = t
  · subst hu
    refine ⟨?_, (h.thread u).called, by simp [Pc.inFlight], fun _ => nofun, nofun⟩
    simpa [hpc, State.messages, Pc.inFlight] using (h.thread u).order
  · exact (h.thread u).frame (by simp [hu]) rfl rfl rfl rfl nofun

theorem Inv.queueShutdown {s : State τ} (h : Inv s) {t : τ} (hpc : s.pc t = .shutdownSet) :
    Inv { s with
      world := s.world.queueInLoop .shutdownInLoop
      pc := Function.update s.pc t .idle } := by
  have hstate : s.world.conn.state ≠ .kConnected := fun hs => (h.thread t).unset hs hpc
  refine ⟨h.flowing.queueInLoop _, h.live, h.stream, h.punctual, h.halfClosed, ?_, fun u => ?_,
    fun hs => absurd hs hstate⟩
  · have hqueue := h.queue.append_shutdown
    rwa [State.queue, List.append_assoc] at hqueue
  · by_cases hu : u = t
    · subst hu
      refine ⟨?_, (h.thread u).called, by simp [Pc.inFlight], fun _ hs => absurd hs hstate,
        fun hs => absurd hs hstate⟩
      simpa [hpc, State.messages, Pc.inFlight] using (h.thread u).order
    · exact (h.thread u).frame (by simp [hu]) rfl rfl rfl rfl id

/-! ### The steps of the loop -/

/-- A step of the loop that runs the output path and may take a functor from the
batch: the world differs only there, and callbacks may have been queued. -/
theorem Inv.output {s : State τ} (h : Inv s) {w : World} {batch : Option (List Functor)}
    {done late waiting : List (τ × List UInt8)} (hflow : w.Flowing) (hframe : s.world.Framed w)
    (hstream : w.socket.written ++ w.conn.outputBuffer.readable = bytes (done ++ late))
    (hpunctual : w.socket.shutdownAt = none → late = [])
    (hclosed : ∀ written, w.socket.shutdownAt = some written → written = bytes done)
    (hmessages : done ++ (late ++ waiting) = s.messages)
    (hbatch : batch.getD [] ⊆ s.batch.getD [])
    (hqueue : Queued s.requested (batch.getD [] ++ s.world.loop.pendingFunctors) waiting)
    (hquiet : s.world.conn.state = .kConnected →
      w.socket.shutdownAt = s.world.socket.shutdownAt) :
    Inv { s with world := w, batch := batch, done := done, late := late, waiting := waiting } := by
  obtain ⟨fs, hfs, hcb⟩ := hframe.queued
  refine ⟨hflow, by rw [hframe.state]; exact h.live, hstream, hpunctual, hclosed, ?_, fun t => ?_,
    fun hs => ?_⟩
  · rw [State.queue, hfs, ← List.append_assoc]
    exact hqueue.append_callbacks hcb
  · exact (h.thread t).frame rfl rfl rfl rfl (congrArg (ofThread t) hmessages)
      fun hs => hframe.state ▸ hs
  · have hs' : s.world.conn.state = .kConnected := hframe.state ▸ hs
    obtain ⟨hno, hat⟩ := h.quiet hs'
    rw [State.queue, List.mem_append, not_or] at hno
    refine ⟨?_, by rw [hquiet hs']; exact hat⟩
    rw [State.queue, hfs, List.mem_append, List.mem_append, not_or, not_or]
    exact ⟨fun hmem => hno.1 (hbatch hmem), hno.2, fun hmem => hcb _ hmem⟩

/-- Moving functors between the batch and the queue behind it changes nothing. -/
theorem Inv.requeue {s : State τ} (h : Inv s) {batch : Option (List Functor)}
    {pending : List Functor} (hqueue : s.queue = batch.getD [] ++ pending) :
    Inv { s with
      batch := batch
      world := { s.world with loop := { s.world.loop with pendingFunctors := pending } } } := by
  refine ⟨h.flowing.congr rfl rfl, h.live, h.stream, h.punctual, h.halfClosed, ?_, ?_, ?_⟩
  · rw [State.queue, ← hqueue]
    exact h.queue
  · intro t
    exact (h.thread t).frame rfl rfl rfl rfl rfl id
  · rw [State.queue, ← hqueue]
    exact h.quiet

/-- The half-close comes with the buffer empty, and what is written then is what is done. -/
theorem Inv.written_of_empty {s : State τ} (h : Inv s) {w : World}
    (hopen : s.world.socket.shutdownAt = none)
    (hstream : w.socket.written ++ w.conn.outputBuffer.readable = bytes (s.done ++ s.late))
    (hempty : w.conn.outputBuffer.readable = []) : w.socket.written = bytes s.done := by
  rwa [hempty, List.append_nil, h.punctual hopen, List.append_nil] at hstream

/-- A step that executes the half-close leaves out what is queued then. -/
theorem Inv.complete_iff_of_halfClosed {s : State τ} (h : Inv s) (s' : State τ)
    (hopen : s.world.socket.shutdownAt = none) {written : List UInt8}
    (hat : s'.world.socket.shutdownAt = some written) (hclosing : s'.closing = s.closing)
    (hlate : s'.late = s.late) (hwaiting : s'.waiting = s.waiting) :
    Complete s' ↔ ∀ p ∈ s.waiting, s.closing p.1 = true → p.2 = [] := by
  have hsome : s'.world.socket.shutdownAt ≠ none := by simp [hat]
  rw [Complete, hlate, hwaiting, hclosing, h.punctual hopen, List.nil_append]
  exact ⟨fun hc => hc hsome, fun hall _ => hall⟩

/-- A writability event is graceful exactly when it does not overtake the queue. -/
theorem Inv.handleWrite {s : State τ} (h : Inv s) (r : WriteResult)
    (hr : r.Within s.world.conn.outputBuffer.readableBytes) :
    ∃ w, s.world.handleWrite r = .ok w ∧ Inv { s with world := w } ∧
      (Complete s → (Complete { s with world := w } ↔ InOrder s (.handleWrite r))) := by
  obtain ⟨w, hw, hflow, hframe, hstream, hkeep, hshut⟩ := h.flowing.handleWrite r hr
  have hbytes : w.socket.written ++ w.conn.outputBuffer.readable = bytes (s.done ++ s.late) := by
    rw [hstream, h.stream]
  have hquiet : s.world.conn.state = .kConnected →
      w.socket.shutdownAt = s.world.socket.shutdownAt := fun hs => hkeep fun hd => by
    rw [hs] at hd
    cases hd.2
  have hmk : (w.socket.shutdownAt = none → s.late = []) →
      (∀ written, w.socket.shutdownAt = some written → written = bytes s.done) →
      Inv { s with world := w } := fun hpunctual hclosed =>
    h.output hflow hframe hbytes hpunctual hclosed rfl (fun _ hmem => hmem) h.queue hquiet
  have hinv : w.socket.shutdownAt = s.world.socket.shutdownAt → Inv { s with world := w } :=
    fun hat => hmk (hat ▸ h.punctual) (hat ▸ h.halfClosed)
  have hsame : w.socket.shutdownAt = s.world.socket.shutdownAt → Complete s →
      Complete { s with world := w } := fun hat hg => hg.same rfl hat rfl rfl
  by_cases hd : s.world.Drains r ∧ s.world.conn.state = .kDisconnecting
  · obtain ⟨hat, hempty⟩ := hshut hd
    cases hold : s.world.socket.shutdownAt with
    | some written =>
        rw [hold] at hat
        refine ⟨w, hw, hinv (hat.trans hold.symm), fun hg => ?_⟩
        refine iff_of_true (hsame (hat.trans hold.symm) hg) fun hnone => ?_
        rw [hold] at hnone
        cases hnone
    | none =>
        have hwritten := h.written_of_empty hold hbytes hempty
        rw [hold, hwritten] at hat
        refine ⟨w, hw, hmk (fun hnone => ?_) (fun written hsome => ?_), fun _ => ?_⟩
        · exact absurd (hat.symm.trans hnone) nofun
        · exact Option.some.inj (hsome.symm.trans hat)
        · refine (h.complete_iff_of_halfClosed { s with world := w } hold hat rfl rfl rfl).trans ?_
          exact ⟨fun hall _ _ _ _ => hall, fun hord => hord hold hd.2 hd.1.1 hd.1.2⟩
  · exact ⟨w, hw, hinv (hkeep hd), fun hg => iff_of_true (hsame (hkeep hd) hg)
      fun _ hs hwr hres => absurd ⟨⟨hwr, hres⟩, hs⟩ hd⟩

theorem shutdownInLoop_stream (w : World) :
    w.shutdownInLoop.socket.written ++ w.shutdownInLoop.conn.outputBuffer.readable =
      w.socket.written ++ w.conn.outputBuffer.readable := by
  unfold World.shutdownInLoop
  split <;> rfl

/-- The half-close is executed. -/
theorem shutdownInLoop_closes {w : World} (hopen : w.socket.shutdownAt = none)
    (hwriting : w.conn.channel.isWriting = false) :
    w.shutdownInLoop.socket.shutdownAt = some w.socket.written := by
  simp [World.shutdownInLoop, hwriting, Socket.shutdownWrite, hopen]

theorem shutdownInLoop_keeps {w : World}
    (h : ¬ (w.socket.shutdownAt = none ∧ w.conn.channel.isWriting = false)) :
    w.shutdownInLoop.socket.shutdownAt = w.socket.shutdownAt := by
  unfold World.shutdownInLoop
  split
  · rfl
  next hwriting =>
    cases hold : w.socket.shutdownAt with
    | none => exact absurd ⟨hold, Bool.eq_false_iff.mpr hwriting⟩ h
    | some written => simp [Socket.shutdownWrite, hold]

/-- The first functor of a batch has run and has not executed the half-close. -/
theorem Inv.afterFunctor {s : State τ} (h : Inv s) {w : World} {f : Functor} {fs : List Functor}
    (hb : s.batch = some (f :: fs)) (hflow : w.Flowing) (hframe : s.world.Framed w)
    (hat : w.socket.shutdownAt = s.world.socket.shutdownAt)
    (hstream : w.socket.written ++ w.conn.outputBuffer.readable =
      bytes (s.done ++ s.late) ++ bytes (s.waiting.take (taken f)))
    (hqueue : Queued s.requested (fs ++ s.world.loop.pendingFunctors)
      (s.waiting.drop (taken f))) :
    Inv (s.afterFunctor w f fs) ∧ (Complete s → Complete (s.afterFunctor w f fs)) := by
  have hsub : (some fs).getD [] ⊆ s.batch.getD [] := by
    rw [hb]
    exact List.subset_cons_self f fs
  have hsplit := List.take_append_drop (taken f) s.waiting
  unfold State.afterFunctor
  by_cases hopen : s.world.socket.shutdownAt = none
  · -- before the half-close the message is done, and none is late
    have hlate := h.punctual hopen
    rw [if_pos hopen, if_pos hopen]
    refine ⟨h.output hflow hframe ?_ (fun _ => hlate) (fun written hw => ?_) ?_ hsub hqueue
      fun _ => hat, fun _ => complete_of_open (hat.trans hopen)⟩
    · rw [hstream, hlate]
      simp
    · rw [hat, hopen] at hw
      cases hw
    · rw [State.messages, hlate, List.nil_append, List.nil_append, List.append_assoc, hsplit]
  · rw [if_neg hopen, if_neg hopen]
    refine ⟨h.output hflow hframe ?_ (fun hnone => absurd (hat.symm.trans hnone) hopen)
      (hat ▸ h.halfClosed) ?_ hsub hqueue fun _ => hat, fun hg => ?_⟩
    · rw [hstream]
      simp
    · rw [State.messages, List.append_assoc, hsplit]
    · refine hg.frame rfl hat fun _ p hp => .inl ?_
      rwa [List.append_assoc, hsplit] at hp

/-- A queued `shutdownInLoop` half-closes in order exactly when no thread whose own call came
too late to queue a request has bytes behind it. -/
theorem Inv.shutdownInLoop {s : State τ} (h : Inv s) {fs : List Functor}
    (hb : s.batch = some (.shutdownInLoop :: fs)) (r : WriteResult)
    (hps : ∀ p ∈ s.waiting, s.requested p.1 = false)
    (hqueue : Queued s.requested (fs ++ s.world.loop.pendingFunctors) s.waiting) :
    Inv (s.afterFunctor s.world.shutdownInLoop .shutdownInLoop fs) ∧
      (Complete s → (Complete (s.afterFunctor s.world.shutdownInLoop .shutdownInLoop fs) ↔
        InOrder s (.runFunctor r))) := by
  have hstream := (shutdownInLoop_stream s.world).trans h.stream
  by_cases hclose : s.world.socket.shutdownAt = none ∧ s.world.conn.channel.isWriting = false
  · obtain ⟨hopen, hwriting⟩ := hclose
    have hempty : s.world.conn.outputBuffer.readable = [] := by
      by_contra hne
      simp [h.flowing.writing.mpr hne] at hwriting
    have hat := shutdownInLoop_closes hopen hwriting
    rw [h.written_of_empty hopen h.stream hempty] at hat
    have hstate : s.world.conn.state ≠ .kConnected := fun hs => by
      have := (h.quiet hs).1
      simp [State.queue, hb] at this
    have hdone : (s.afterFunctor s.world.shutdownInLoop .shutdownInLoop fs) =
        { s with world := s.world.shutdownInLoop, batch := some fs } := by
      simp [State.afterFunctor, taken]
    rw [hdone]
    refine ⟨h.output h.flowing.shutdownInLoop (.shutdownInLoop _) hstream
      (fun hnone => absurd (hat.symm.trans hnone) nofun)
      (fun written hsome => Option.some.inj (hsome.symm.trans hat)) rfl ?_ hqueue
      fun hs => absurd hs hstate, fun _ => ?_⟩
    · rw [hb]
      exact List.subset_cons_self _ fs
    · refine (h.complete_iff_of_halfClosed
        { s with world := s.world.shutdownInLoop, batch := some fs }
        hopen hat rfl rfl rfl).trans ⟨?_, ?_⟩
      · exact fun hall _ _ _ p hp hc _ => hall p hp hc
      · exact fun hord p hp hc => hord hopen hwriting (by rw [hb]; rfl) p hp hc (hps p hp)
  · obtain ⟨hinv, hg⟩ := h.afterFunctor hb h.flowing.shutdownInLoop (.shutdownInLoop _)
      (shutdownInLoop_keeps hclose) (by rw [hstream]; simp [taken, bytes]) hqueue
    exact ⟨hinv, fun hc => iff_of_true (hg hc) fun hopen hwriting =>
      absurd ⟨hopen, hwriting⟩ hclose⟩

/-- The functors of a batch run in the order in which they were queued. -/
theorem Inv.runFunctor {s : State τ} (h : Inv s) {f : Functor} {fs : List Functor}
    (hb : s.batch = some (f :: fs)) (r : WriteResult) (hr : r.Within f.offered)
    (hs : r.Sound) :
    ∃ w, s.world.runFunctor r f = .ok w ∧ Inv (s.afterFunctor w f fs) ∧
      (Complete s → (Complete (s.afterFunctor w f fs) ↔ InOrder s (.runFunctor r))) := by
  have hqueue : Queued s.requested (f :: (fs ++ s.world.loop.pendingFunctors)) s.waiting := by
    have := h.queue
    rwa [State.queue, hb] at this
  have hlive : s.world.conn.state ≠ .kDisconnected := by
    rcases h.live with hs | hs <;> simp [hs]
  have hother : f ≠ .shutdownInLoop → InOrder s (.runFunctor r) := fun hne _ _ hhead => by
    rw [hb] at hhead
    exact absurd (Option.some.inj hhead) hne
  generalize hwait : s.waiting = waiting at hqueue
  cases hqueue with
  | @send _ ps t m htail =>
      obtain ⟨w, hw, hflow, hframe, hat, hstream⟩ := h.flowing.sendInLoop m r hr
      obtain ⟨hinv, hg⟩ := h.afterFunctor hb hflow hframe hat
        (by rw [hstream hlive hs, h.stream, hwait]; simp [taken, bytes])
        (by rw [hwait]; exact htail)
      exact ⟨w, hw, hinv, fun hc => iff_of_true (hg hc) (hother nofun)⟩
  | shutdown hps htail =>
      subst hwait
      exact ⟨_, rfl, h.shutdownInLoop hb r hps htail⟩
  | callback hf htail =>
      have hw : s.world.runFunctor r f = .ok s.world := by
        cases f <;> first | rfl | exact hf.elim
      have hzero : taken f = 0 := by
        cases f <;> first | rfl | exact hf.elim
      have hne : f ≠ .shutdownInLoop := by
        rintro rfl
        exact hf
      obtain ⟨hinv, hg⟩ := h.afterFunctor hb h.flowing (.refl _) rfl
        (by rw [h.stream, hzero]; simp [bytes]) (by rw [hzero, hwait]; exact htail)
      exact ⟨s.world, hw, hinv, fun hc => iff_of_true (hg hc) (hother hne)⟩

/-- One step: it succeeds, keeps the invariant, and leaves out no byte exactly when it is
in order. -/
theorem Inv.step (s : State τ) (l : Label τ) (h : Inv s) (he : Enabled s l) :
    ∃ s', exec s l = .ok s' ∧ Inv s' ∧ (Complete s → (Complete s' ↔ InOrder s l)) := by
  cases l with
  | send t m =>
      by_cases hs : s.world.conn.state = .kConnected
      · exact ⟨_, by rw [exec, if_pos hs], h.send he hs m,
          fun _ => iff_of_true (complete_of_open (h.quiet hs).2) trivial⟩
      · exact ⟨s, by rw [exec, if_neg hs], h, fun hg => iff_of_true hg trivial⟩
  | queueSend t =>
      obtain ⟨m, hpc⟩ := he
      refine ⟨_, by rw [exec, hpc], h.queueSend hpc, fun hg => iff_of_true ?_ trivial⟩
      refine hg.frame rfl rfl fun _ p hp => ?_
      rw [← List.append_assoc] at hp
      rcases List.mem_append.mp hp with hp | hp
      · exact .inl hp
      · rw [List.mem_singleton.mp hp]
        exact .inr (h.closing_of_sending hpc)
  | shutdown t =>
      by_cases hs : s.world.conn.state = .kConnected
      · have hopen := (h.quiet hs).2
        exact ⟨_, by rw [exec, if_pos hs], h.shutdown he hs,
          fun _ => iff_of_true (complete_of_open hopen) fun hat => absurd hopen hat⟩
      · exact ⟨_, by rw [exec, if_neg hs], h.shutdown_late he hs,
          fun hg => complete_shutdown_iff hg t⟩
  | setDisconnecting t =>
      exact ⟨_, rfl, h.setDisconnecting he,
        fun hg => iff_of_true (hg.same rfl rfl rfl rfl) trivial⟩
  | queueShutdown t =>
      exact ⟨_, rfl, h.queueShutdown he,
        fun hg => iff_of_true (hg.same rfl rfl rfl rfl) trivial⟩
  | handleWrite r =>
      obtain ⟨w, hw, hinv, hiff⟩ := h.handleWrite r he.2.1
      exact ⟨_, by rw [exec, hw]; rfl, hinv, hiff⟩
  | takeBatch =>
      have hbatch : s.batch = none := he
      refine ⟨_, rfl, h.requeue ?_,
        fun hg => iff_of_true (hg.same rfl rfl rfl rfl) trivial⟩
      rw [State.queue, hbatch]
      exact (List.append_nil _).symm
  | runFunctor r =>
      obtain ⟨f, fs, hb, hr, hs⟩ := he
      obtain ⟨w, hw, hinv, hg⟩ := h.runFunctor hb r hr hs
      refine ⟨_, ?_, hinv, hg⟩
      simp only [exec, hb, hw]
      rfl
  | endBatch =>
      have hbatch : s.batch = some [] := he
      refine ⟨_, rfl, h.requeue ?_,
        fun hg => iff_of_true (hg.same rfl rfl rfl rfl) trivial⟩
      rw [State.queue, hbatch]
      rfl

end Muduo.System.Sending
