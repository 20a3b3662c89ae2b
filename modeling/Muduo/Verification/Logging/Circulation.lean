import Muduo.System.Logging

/-! The buffers of the asynchronous logger circulate between its two ends, and no line is
lost or moved on the way. -/

namespace Muduo.System.Logging

open Library Base AsyncLogging

/-! ### The bytes in buffers -/

/-- The bytes in a buffer. -/
def data : BufferPtr → List UInt8
  | some b => b.data
  | none => []

/-- The bytes in a sequence of buffers. -/
def content (buffers : List BufferPtr) : List UInt8 := (buffers.map data).flatten

@[simp] theorem content_nil : content [] = [] := rfl

@[simp] theorem content_append (xs ys : List BufferPtr) :
    content (xs ++ ys) = content xs ++ content ys := by
  simp [content]

@[simp] theorem content_singleton (p : BufferPtr) : content [p] = data p := by
  simp [content]

theorem data_append {b : Buffer} {line : List UInt8} (h : line.length < b.avail) :
    data (some (b.append line)) = data (some b) ++ line := by
  simp [FixedBuffer.append, h, data]

/-- A line that is short enough fits into an empty buffer. -/
theorem data_append_ctor {line : List UInt8} (h : line.length < kLargeBuffer) :
    data (some ((FixedBuffer.ctor : Buffer).append line)) = line := data_append h

/-! ### The front end -/

/-- The front end between two sections under the mutex, with the lines that it holds. The
next buffer is missing only when the current one has been replaced. -/
structure Front (a : AsyncLogging) (pending : List (List UInt8)) : Prop where
  current : a.currentBuffer.isSome = true
  buffers : ∀ p ∈ a.buffers, p.isSome = true
  next : a.nextBuffer = some .ctor ∨ a.nextBuffer = none ∧ a.buffers ≠ []
  content_eq : content (a.buffers ++ [a.currentBuffer]) = pending.flatten

theorem front_init : Front .init [] where
  current := rfl
  buffers := List.forall_mem_nil _
  next := .inl rfl
  content_eq := rfl

theorem Front.append {a : AsyncLogging} {pending : List (List UInt8)} (h : Front a pending)
    {line : List UInt8} (hline : line.length < kLargeBuffer) :
    ∃ a', a.append line = .ok a' ∧ Front a' (pending ++ [line]) ∧ a'.running = a.running := by
  obtain ⟨current, hcurrent⟩ := Option.isSome_iff_exists.mp h.current
  have hcontent := h.content_eq
  rw [hcurrent] at hcontent
  rw [AsyncLogging.append, hcurrent]
  by_cases hfits : line.length < current.avail
  · simp only [hfits, if_true]
    refine ⟨_, rfl, ⟨rfl, h.buffers, h.next, ?_⟩, rfl⟩
    simp only [content_append, content_singleton] at hcontent ⊢
    rw [data_append hfits, ← List.append_assoc, hcontent]
    simp
  · simp only [hfits, if_false]
    have hnext : a.nextBuffer.getD .ctor = .ctor := by
      rcases h.next with hnext | ⟨hnext, -⟩ <;> rw [hnext] <;> rfl
    refine ⟨_, rfl, ⟨rfl, ?_, .inr ⟨rfl, by simp⟩, ?_⟩, rfl⟩
    · intro p hp
      rcases List.mem_append.mp hp with hp | hp
      · exact h.buffers p hp
      · rw [List.mem_singleton.mp hp]
        rfl
    · simp only
      rw [content_append, hcontent, hnext, content_singleton, data_append_ctor hline]
      simp

/-! ### The back end -/

/-- The back end outside of a round: both spare buffers are there and empty. -/
structure Spares (t : Backend) : Prop where
  newBuffer1 : t.newBuffer1 = some .ctor
  newBuffer2 : t.newBuffer2 = some .ctor
  cleared : t.buffersToWrite = []

/-- The back end with a batch: there are as many buffers in it as spare ones are missing. -/
structure Loaded (t : Backend) : Prop where
  newBuffer1 : t.newBuffer1 = none
  newBuffer2 : t.newBuffer2 = some .ctor ∨ t.newBuffer2 = none ∧ 2 ≤ t.buffersToWrite.length
  nonempty : t.buffersToWrite ≠ []
  present : ∀ p ∈ t.buffersToWrite, p.isSome = true

theorem spares_init : Spares .init := ⟨rfl, rfl, rfl⟩

theorem Spares.check {t : Backend} (h : Spares t) : t.check = .ok () := by
  rw [Backend.check, h.newBuffer1, h.newBuffer2, h.cleared]
  rfl

/-- The swap gives one spare buffer to the front end, and the second only when the front
end has used its own: then there are two buffers in the batch. -/
theorem Front.swap {a : AsyncLogging} {pending : List (List UInt8)} {t : Backend}
    (h : Front a pending) (ht : Spares t) :
    Front (a.swap t).1 [] ∧ Loaded (a.swap t).2 := by
  have hpresent : ∀ p ∈ a.buffers ++ [a.currentBuffer], p.isSome = true := by
    intro p hp
    rcases List.mem_append.mp hp with hp | hp
    · exact h.buffers p hp
    · rw [List.mem_singleton.mp hp]
      exact h.current
  have hspare : ∀ p ∈ t.buffersToWrite, p.isSome = true := by
    rw [ht.cleared]
    exact List.forall_mem_nil _
  have hempty : content (t.buffersToWrite ++ [t.newBuffer1]) = [] := by
    rw [ht.cleared, ht.newBuffer1]
    rfl
  rcases h.next with hnext | ⟨hnext, hbuffers⟩
  · simp only [AsyncLogging.swap, hnext, Option.isSome_some, if_true]
    exact ⟨⟨by rw [ht.newBuffer1]; rfl, hspare, .inl rfl, hempty⟩,
      ⟨rfl, .inl ht.newBuffer2, by simp, hpresent⟩⟩
  · simp only [AsyncLogging.swap, hnext, Option.isSome_none, Bool.false_eq_true, if_false]
    have htwo : 2 ≤ (a.buffers ++ [a.currentBuffer]).length := by
      have := List.length_pos_iff.mpr hbuffers
      rw [List.length_append, List.length_singleton]
      omega
    exact ⟨⟨by rw [ht.newBuffer1]; rfl, hspare, .inl ht.newBuffer2, hempty⟩,
      ⟨rfl, .inr ⟨rfl, htwo⟩, by simp, hpresent⟩⟩

/-- Of a batch that is too large two buffers are kept. -/
theorem Loaded.dropBuffers {t : Backend} (h : Loaded t) (now : String) :
    ∃ t' text, t.dropBuffers now = .ok t' ∧ Loaded t' ∧ t'.output = t.output ++ text ∧
      (t.buffersToWrite.length ≤ 25 → text = [] ∧ t'.buffersToWrite = t.buffersToWrite) := by
  rw [Backend.dropBuffers, ensure_of _ h.nonempty, ok_bind]
  by_cases hlarge : 25 < t.buffersToWrite.length
  · rw [if_pos hlarge]
    refine ⟨_, _, rfl, ?_, rfl, fun hsmall => absurd hlarge (Nat.not_lt_of_le hsmall)⟩
    have htwo : (t.buffersToWrite.take 2).length = 2 := by
      rw [List.length_take]
      omega
    refine ⟨h.newBuffer1, ?_, ?_, fun p hp => h.present p (List.mem_of_mem_take hp)⟩
    · exact h.newBuffer2.imp_right fun hnone => ⟨hnone.1, Nat.le_of_eq htwo.symm⟩
    · exact List.ne_nil_of_length_eq_add_one htwo
  · rw [if_neg hlarge]
    exact ⟨t, [], rfl, h, (List.append_nil _).symm, fun _ => ⟨rfl, rfl⟩⟩

theorem writeBuffer_eq (t : Backend) {p : BufferPtr} (h : p.isSome = true) :
    t.writeBuffer p = .ok { t with output := t.output ++ data p } := by
  obtain ⟨b, rfl⟩ := Option.isSome_iff_exists.mp h
  rfl

theorem takeBack_eq {ps : List BufferPtr} (hne : ps ≠ []) (h : ∀ p ∈ ps, p.isSome = true) :
    Backend.takeBack ps = .ok (some .ctor, ps.dropLast) := by
  obtain ⟨b, hb⟩ := Option.isSome_iff_exists.mp (h _ (List.getLast_mem hne))
  rw [Backend.takeBack, List.getLast?_eq_some_getLast hne, hb]
  rfl

/-- There are buffers enough to replace the spare ones that were given away. -/
theorem Loaded.recycle {t : Backend} (h : Loaded t) :
    ∃ t', t.recycle = .ok t' ∧ Spares t' ∧ t'.output = t.output := by
  generalize hleft : (if 2 < t.buffersToWrite.length then t.buffersToWrite.take 2
    else t.buffersToWrite) = left
  have hpresent : ∀ p ∈ left, p.isSome = true := by
    intro p hp
    rw [← hleft] at hp
    split at hp
    · exact h.present p (List.mem_of_mem_take hp)
    · exact h.present p hp
  have hlength : left.length = min 2 t.buffersToWrite.length := by
    rw [← hleft]
    split
    · exact List.length_take
    · omega
  have hpos := List.length_pos_iff.mpr h.nonempty
  have hne : left ≠ [] := List.ne_nil_of_length_pos (by omega)
  simp only [Backend.recycle, hleft, h.newBuffer1, Option.isSome_none, Bool.false_eq_true, if_false,
    takeBack_eq hne hpresent, ok_bind]
  rcases h.newBuffer2 with hsome | ⟨hnone, htwo⟩
  · rw [hsome]
    exact ⟨_, rfl, ⟨rfl, rfl, rfl⟩, rfl⟩
  · have hne' : left.dropLast ≠ [] := by
      refine List.ne_nil_of_length_pos ?_
      rw [List.length_dropLast]
      omega
    simp only [hnone, Option.isSome_none, Bool.false_eq_true, if_false,
      takeBack_eq hne' fun p hp => hpresent p (List.dropLast_subset _ hp), ok_bind]
    exact ⟨_, rfl, ⟨rfl, rfl, rfl⟩, rfl⟩

/-! ### The whole logger -/

/-- From the swap to the end of the round. -/
def Pc.inRound : Pc → Bool
  | .swapped => true
  | .writing _ => true
  | .recycling => true
  | _ => false

/-- The buffers of the batch that have not been written. -/
def Pc.left : Pc → List BufferPtr → List BufferPtr
  | .swapped, buffers => buffers
  | .writing i, buffers => buffers.drop i
  | _, _ => []

/-- The part of `buffersToWrite` that has not been written. -/
def State.unwritten (s : State) : List BufferPtr := s.pc.left s.backend.buffersToWrite

theorem Pc.left_of_not_inRound {pc : Pc} (h : pc.inRound = false) (buffers : List BufferPtr) :
    pc.left buffers = [] := by
  cases pc <;> first | rfl | cases h

structure Inv (s : State) : Prop where
  front : Front s.logger s.pending
  spares : s.pc.inRound = false → Spares s.backend
  loaded : s.pc.inRound = true → Loaded s.backend
  size : s.pc = .swapped → s.batch.size = s.backend.buffersToWrite.length
  batch : s.batch.size ≤ 25 → s.batch.output ++ content s.unwritten = s.batch.lines.flatten
  finished : ∀ b ∈ s.finished, b.size ≤ 25 → b.output = b.lines.flatten
  output : s.backend.output = (s.batches.map Batch.output).flatten
  appended : s.appended = (s.batches.map Batch.lines).flatten ++ s.pending
  entry : s.pc = .entry → s.logger.running = true

theorem start_inv : Inv start where
  front := front_init
  spares _ := spares_init
  loaded := nofun
  size := nofun
  batch _ := rfl
  finished := List.forall_mem_nil _
  output := rfl
  appended := rfl
  entry := nofun

section Steps

variable {s : State}

/-- The back end goes to a place from which as much is left to write. -/
theorem Inv.move (h : Inv s) {pc : Pc} (hround : pc.inRound = s.pc.inRound)
    (hleft : pc.left s.backend.buffersToWrite = s.unwritten) (hswapped : pc ≠ .swapped)
    (hentry : pc ≠ .entry) : Inv { s with pc := pc } where
  front := h.front
  spares hpc := h.spares (hround ▸ hpc)
  loaded hpc := h.loaded (hround ▸ hpc)
  size hpc := absurd hpc hswapped
  batch hsize := by
    rw [State.unwritten, hleft]
    exact h.batch hsize
  finished := h.finished
  output := h.output
  appended := h.appended
  entry hpc := absurd hpc hentry

/-- A batch outside of a round has been written. -/
theorem Inv.batch_output (h : Inv s) (hround : s.pc.inRound = false)
    (hsize : s.batch.size ≤ 25) : s.batch.output = s.batch.lines.flatten := by
  have hbatch := h.batch hsize
  rwa [State.unwritten, Pc.left_of_not_inRound hround, content_nil, List.append_nil] at hbatch

theorem Inv.swap (h : Inv s) (hround : s.pc.inRound = false) : Inv s.swap := by
  obtain ⟨hfront, hloaded⟩ := h.front.swap (h.spares hround)
  refine ⟨hfront, nofun, fun _ => hloaded, fun _ => ?_, fun _ => ?_, ?_, ?_, ?_, nofun⟩
  · simp [State.swap, AsyncLogging.swap]
  · exact h.front.content_eq
  · intro b hb
    rcases List.mem_append.mp hb with hb | hb
    · exact h.finished b hb
    · rw [List.mem_singleton.mp hb]
      exact h.batch_output hround
  · rw [State.batches, List.map_append, List.flatten_append]
    simpa [State.swap, AsyncLogging.swap] using h.output
  · have happended := h.appended
    rw [State.batches, List.map_append, List.flatten_append]
    simpa [State.swap, AsyncLogging.swap] using happended

theorem goOn_output {t : Backend} {chunk : List UInt8} {pc : Pc}
    (hout : t.output = s.backend.output ++ chunk) :
    ((s.goOn t pc).batches.map Batch.output).flatten =
      (s.batches.map Batch.output).flatten ++ chunk := by
  simp [State.goOn, State.batches, hout]

theorem goOn_lines {t : Backend} {pc : Pc} :
    ((s.goOn t pc).batches.map Batch.lines).flatten = (s.batches.map Batch.lines).flatten := by
  simp [State.goOn, State.batches]

/-- The back end has put out a part of the batch. -/
theorem Inv.goOn (h : Inv s) {t : Backend} {chunk : List UInt8} {pc : Pc}
    (hout : t.output = s.backend.output ++ chunk) (hspares : pc.inRound = false → Spares t)
    (hloaded : pc.inRound = true → Loaded t) (hswapped : pc ≠ .swapped) (hentry : pc ≠ .entry)
    (hbatch : s.batch.size ≤ 25 →
      chunk ++ content (pc.left t.buffersToWrite) = content s.unwritten) :
    Inv (s.goOn t pc) := by
  refine ⟨h.front, hspares, hloaded, fun hpc => absurd hpc hswapped, fun hsize => ?_, h.finished,
    ?_, ?_, fun hpc => absurd hpc hentry⟩
  · have hwhole := h.batch hsize
    simp only [State.goOn, State.unwritten, hout, List.drop_left]
    rw [List.append_assoc, hbatch hsize]
    exact hwhole
  · rw [goOn_output hout, ← h.output]
    exact hout
  · rw [goOn_lines]
    exact h.appended

theorem Inv.test (h : Inv s) (hpc : s.pc = .test) (now : String) :
    ∃ s', s.advance now = .ok s' ∧ Inv s' := by
  have hround : s.pc.inRound = false := by rw [hpc]; rfl
  have hleft : s.unwritten = [] := Pc.left_of_not_inRound hround _
  rw [State.advance, hpc]
  by_cases hrunning : s.logger.running = true
  · simp only [hrunning, if_true, (h.spares hround).check, ok_bind]
    exact ⟨_, rfl, h.move (by rw [hround]; rfl) (by rw [hleft]; rfl) nofun nofun⟩
  · simp only [hrunning]
    exact ⟨_, rfl, h.move (by rw [hround]; rfl) (by rw [hleft]; rfl) nofun nofun⟩

theorem Inv.lock (h : Inv s) (hpc : s.pc = .lock) (now : String) :
    ∃ s', s.advance now = .ok s' ∧ Inv s' := by
  have hround : s.pc.inRound = false := by rw [hpc]; rfl
  have hleft : s.unwritten = [] := Pc.left_of_not_inRound hround _
  rw [State.advance, hpc]
  by_cases hbuffers : s.logger.buffers = []
  · simp only [hbuffers, if_true]
    exact ⟨_, rfl, h.move (by rw [hround]; rfl) (by rw [hleft]; rfl) nofun nofun⟩
  · simp only [hbuffers, if_false]
    exact ⟨_, rfl, h.swap hround⟩

theorem Inv.dropBuffers (h : Inv s) (hpc : s.pc = .swapped) (now : String) :
    ∃ s', s.advance now = .ok s' ∧ Inv s' := by
  have hloaded := h.loaded (by rw [hpc]; rfl)
  obtain ⟨t, text, hdrop, hloaded', hout, hsmall⟩ := hloaded.dropBuffers now
  simp only [State.advance, hpc, hdrop, ok_bind]
  refine ⟨_, rfl, h.goOn hout nofun (fun _ => hloaded') nofun nofun fun hsize => ?_⟩
  rw [h.size hpc] at hsize
  obtain ⟨rfl, hsame⟩ := hsmall hsize
  simp [State.unwritten, hpc, Pc.left, hsame]

theorem Inv.write (h : Inv s) {i : ℕ} (hpc : s.pc = .writing i) (now : String) :
    ∃ s', s.advance now = .ok s' ∧ Inv s' := by
  have hloaded := h.loaded (by rw [hpc]; rfl)
  have hleft : s.unwritten = s.backend.buffersToWrite.drop i := by
    rw [State.unwritten, hpc]
    rfl
  simp only [State.advance, hpc]
  cases hbuffer : s.backend.buffersToWrite[i]? with
  | none =>
      have hend : s.backend.buffersToWrite.drop i = [] :=
        List.drop_eq_nil_of_le (List.getElem?_eq_none_iff.mp hbuffer)
      exact ⟨_, rfl, h.move (by rw [hpc]; rfl) (by rw [hleft, hend]; rfl) nofun nofun⟩
  | some p =>
      have hpresent := hloaded.present p (List.mem_of_getElem? hbuffer)
      obtain ⟨hi, hp⟩ := List.getElem?_eq_some_iff.mp hbuffer
      simp only [writeBuffer_eq _ hpresent, ok_bind]
      refine ⟨_, rfl, h.goOn rfl nofun (fun _ => ?_) nofun nofun fun _ => ?_⟩
      · exact ⟨hloaded.newBuffer1, hloaded.newBuffer2, hloaded.nonempty, hloaded.present⟩
      · rw [hleft, List.drop_eq_getElem_cons hi, hp]
        rfl

theorem Inv.recycle (h : Inv s) (hpc : s.pc = .recycling) (now : String) :
    ∃ s', s.advance now = .ok s' ∧ Inv s' := by
  have hloaded := h.loaded (by rw [hpc]; rfl)
  obtain ⟨t, hrecycle, hspares, hout⟩ := hloaded.recycle
  have hout : t.output = s.backend.output ++ [] := by rw [hout, List.append_nil]
  simp only [State.advance, hpc, hrecycle, ok_bind]
  refine ⟨_, rfl, h.goOn hout (fun _ => hspares) nofun nofun nofun fun _ => ?_⟩
  rw [State.unwritten, hpc]
  rfl

theorem Inv.advance (h : Inv s) (now : String) : ∃ s', s.advance now = .ok s' ∧ Inv s' := by
  cases hpc : s.pc with
  | idle => exact ⟨s, by rw [State.advance, hpc], h⟩
  | done => exact ⟨s, by rw [State.advance, hpc], h⟩
  | entry =>
      have hrunning := h.entry hpc
      simp only [State.advance, hpc, ensure_of _ hrunning, ok_bind]
      exact ⟨_, rfl, h.move (by rw [hpc]; rfl) (by rw [State.unwritten, hpc]; rfl) nofun nofun⟩
  | test => exact h.test hpc now
  | lock => exact h.lock hpc now
  | waiting =>
      simp only [State.advance, hpc]
      exact ⟨_, rfl, h.swap (by rw [hpc]; rfl)⟩
  | swapped => exact h.dropBuffers hpc now
  | writing i => exact h.write hpc now
  | recycling => exact h.recycle hpc now

theorem Inv.append (h : Inv s) {line : List UInt8} (hline : line.length < kLargeBuffer) :
    ∃ s', exec s (.append line) = .ok s' ∧ Inv s' := by
  obtain ⟨a, happend, hfront, hrunning⟩ := h.front.append hline
  simp only [exec, happend, ok_bind]
  refine ⟨_, rfl, ⟨hfront, h.spares, h.loaded, h.size, h.batch, h.finished, h.output, ?_, ?_⟩⟩
  · have happended := h.appended
    simp only [happended, List.append_assoc]
    rfl
  · intro hpc
    rw [hrunning]
    exact h.entry hpc

/-- A call of the owner changes `running_` and nothing that the buffers depend on. -/
theorem Inv.setRunning (h : Inv s) {running : Bool} (hentry : s.pc = .entry → running = true) :
    Inv { s with logger := { s.logger with running := running } } where
  front := ⟨h.front.current, h.front.buffers, h.front.next, h.front.content_eq⟩
  spares := h.spares
  loaded := h.loaded
  size := h.size
  batch := h.batch
  finished := h.finished
  output := h.output
  appended := h.appended
  entry := hentry

theorem Inv.start (h : Inv s) (hpc : s.pc = .idle) :
    Inv { s with logger := { s.logger with running := true }, pc := .entry } where
  front := ⟨h.front.current, h.front.buffers, h.front.next, h.front.content_eq⟩
  spares _ := h.spares (by rw [hpc]; rfl)
  loaded := nofun
  size := nofun
  batch hsize := by
    have hbatch := h.batch hsize
    rwa [State.unwritten, hpc] at hbatch
  finished := h.finished
  output := h.output
  appended := h.appended
  entry _ := rfl

end Steps

theorem exec_inv (s : State) (l : Label) (h : Inv s) (hl : Legal s l) :
    ∃ s', exec s l = .ok s' ∧ Inv s' := by
  cases l with
  | append line => exact h.append hl
  | start => exact ⟨_, rfl, h.start hl⟩
  | stop => exact ⟨_, rfl, h.setRunning fun hpc => absurd hpc hl.2.1⟩
  | thread now => exact h.advance now

/-- Batches of which nothing was dropped put out what the lines say. -/
theorem Inv.output_eq {s : State} (h : Inv s) (hsize : ∀ b ∈ s.batches, b.size ≤ 25) :
    s.backend.output ++ content s.unwritten = (s.batches.map Batch.lines).flatten.flatten := by
  have hlast : s.batch.size ≤ 25 := hsize _ (List.mem_append_right _ List.mem_cons_self)
  have hfinished : s.finished.map Batch.output = s.finished.map fun b => b.lines.flatten :=
    List.map_congr_left fun b hb => h.finished b hb (hsize b (List.mem_append_left _ hb))
  calc s.backend.output ++ content s.unwritten
      = (s.finished.map Batch.output).flatten ++
          (s.batch.output ++ content s.unwritten) := by
        rw [h.output, State.batches, List.map_append, List.flatten_append, List.map_singleton,
          List.flatten_singleton, List.append_assoc]
    _ = (s.finished.map fun b => b.lines.flatten).flatten ++ s.batch.lines.flatten := by
        rw [hfinished, h.batch hlast]
    _ = (s.batches.map Batch.lines).flatten.flatten := by
        rw [State.batches, List.map_append, List.flatten_append, List.map_singleton,
          List.flatten_singleton, List.flatten_append, List.flatten_flatten, List.map_map]
        rfl

/-- Whatever the order in which lines are appended and the back end goes on, no assertion
fails, no null pointer is used and there is a current buffer. As long as no swap hands over
more than 25 buffers, what was put out and what the buffers hold are the lines in the order
of the mutex. -/
theorem lines_kept_in_order (ls : List Label) (h : LegalRun exec Legal start ls) :
    ∃ s, run exec start ls = .ok s ∧ s.logger.currentBuffer.isSome = true ∧
      ((∀ b ∈ s.batches, b.size ≤ 25) →
        s.backend.output ++ content s.unwritten ++ content s.logger.buffers ++
          data s.logger.currentBuffer = s.appended.flatten) := by
  obtain ⟨s, hrun, hs⟩ := run_invariant exec_inv start_inv h
  refine ⟨s, hrun, hs.front.current, fun hsize => ?_⟩
  have hpending := hs.front.content_eq
  rw [content_append, content_singleton] at hpending
  rw [hs.output_eq hsize, List.append_assoc, hpending, hs.appended, List.flatten_append]

/-- A line before the start, one in the wait, and one while a buffer is written. -/
def threeLines : List Label :=
  [.append [97], .start, .thread "", .thread "", .thread "", .append [98], .thread "", .thread "",
    .append [99], .thread ""]

theorem lines_kept_in_order_three :
    ∃ s, run exec start threeLines = .ok s ∧ s.logger.currentBuffer.isSome = true ∧
      ((∀ b ∈ s.batches, b.size ≤ 25) →
        s.backend.output ++ content s.unwritten ++ content s.logger.buffers ++
          data s.logger.currentBuffer = s.appended.flatten) :=
  lines_kept_in_order threeLines (by decide +kernel)

example : ∃ s, run exec start threeLines = .ok s ∧ (∀ b ∈ s.batches, b.size ≤ 25) ∧
    s.backend.output = [97, 98] ∧ data s.logger.currentBuffer = [99] := by
  decide +kernel

end Muduo.System.Logging
