import Muduo.Verification.Connection.Stream

/-! Back-pressure: the high-water-mark callback is queued when the pending output crosses the
mark, and the write-complete callback when it is gone. -/

namespace Muduo.Net

open Library TcpConnection

def TcpConnection.Functor.isHighWaterMark : Functor → Bool
  | .highWaterMarkCallback _ => true
  | _ => false

namespace World

/-- The number of bytes that wait for the socket. -/
def pendingOutput (w : World) : ℕ := w.conn.outputBuffer.readableBytes

/-- Both callbacks are installed, for the mark `mark`. -/
structure Watched (mark : ℕ) (w : World) : Prop where
  highWaterMark : w.conn.highWaterMark = mark
  highWater : w.conn.highWaterMarkCallback = true
  writeComplete : w.conn.writeCompleteCallback = true

/-- The functors `fs` are queued, and the callbacks and the mark stay. -/
structure Queues (w w' : World) (fs : List Functor) : Prop where
  queue : w'.loop.pendingFunctors = w.loop.pendingFunctors ++ fs
  highWaterMark : w'.conn.highWaterMark = w.conn.highWaterMark
  highWater : w'.conn.highWaterMarkCallback = w.conn.highWaterMarkCallback
  writeComplete : w'.conn.writeCompleteCallback = w.conn.writeCompleteCallback

theorem Queues.watched {mark : ℕ} {w w' : World} {fs : List Functor} (h : Queues w w' fs)
    (hw : w.Watched mark) : w'.Watched mark :=
  ⟨h.highWaterMark.trans hw.highWaterMark, h.highWater.trans hw.highWater,
    h.writeComplete.trans hw.writeComplete⟩

/-! ### What the parts of a step queue -/

/-- The high-water-mark callback of a step that takes the pending output from `old` to
`new`. -/
def crossing (mark old new : ℕ) : List Functor :=
  if old < mark ∧ mark ≤ new then [.highWaterMarkCallback new] else []

theorem crossing_of_le {mark old new : ℕ} (h : new ≤ old) : crossing mark old new = [] :=
  if_neg (by omega)

theorem filter_crossing (mark old new : ℕ) :
    (crossing mark old new).filter Functor.isHighWaterMark = crossing mark old new := by
  unfold crossing
  split <;> rfl

/-- The test of `sendInLoop` for the high-water mark. -/
theorem highWater_queues {mark : ℕ} {w : World} (hw : w.Watched mark) (new : ℕ) :
    ∃ w₁, (if w.conn.highWaterMark ≤ new ∧ w.pendingOutput < w.conn.highWaterMark ∧
        w.conn.highWaterMarkCallback then w.queueInLoop (.highWaterMarkCallback new) else w) = w₁ ∧
      w₁.conn = w.conn ∧ w₁.loop.poller = w.loop.poller ∧
      w₁.loop.pendingFunctors =
        w.loop.pendingFunctors ++ crossing mark w.pendingOutput new := by
  rw [hw.highWaterMark, hw.highWater]
  by_cases hcross : w.pendingOutput < mark ∧ mark ≤ new
  · rw [if_pos ⟨hcross.2, hcross.1, rfl⟩, crossing, if_pos hcross]
    exact ⟨_, rfl, rfl, rfl, rfl⟩
  · rw [if_neg (fun h => hcross ⟨h.2.1, h.1⟩), crossing, if_neg hcross]
    exact ⟨w, rfl, rfl, rfl, (List.append_nil _).symm⟩

theorem bufferRest_queues {mark : ℕ} {w w' : World} {rest : List UInt8} (ht : w.Tracked)
    (hout : w.conn.outputBuffer.Valid) (hw : w.Watched mark) (h : w.bufferRest rest = .ok w') :
    Queues w w' (crossing mark w.pendingOutput w'.pendingOutput) ∧
      w'.pendingOutput = w.pendingOutput + rest.length := by
  obtain ⟨output, happend, hholds⟩ := hout.holds.append rest
  have hlen : output.readableBytes = w.pendingOutput + rest.length := by
    rw [hholds.readableBytes_eq, List.length_append, ← hout.holds.readableBytes_eq, pendingOutput]
  obtain ⟨w₁, hw₁, hconn, hpoller, hqueue⟩ := highWater_queues hw (w.pendingOutput + rest.length)
  have ht₁ : (w₁.setOutput output).Tracked := by
    simpa only [Tracked, setOutput, hconn, hpoller] using ht
  rw [pendingOutput] at hw₁
  simp only [bufferRest, hw₁, hconn, happend, Except.mapError, ok_bind] at h
  by_cases hwriting : (w₁.setOutput output).conn.channel.isWriting = true
  · rw [if_pos hwriting] at h
    obtain rfl := Except.ok.inj h
    have hnew : (w₁.setOutput output).pendingOutput = w.pendingOutput + rest.length := hlen
    refine ⟨⟨hnew ▸ hqueue, ?_, ?_, ?_⟩, hnew⟩ <;> simp only [setOutput, hconn]
  · rw [if_neg hwriting, Channel.enableWriting, ht₁.onChannel_modify] at h
    obtain rfl := Except.ok.inj h
    have hnew : ((w₁.setOutput output).withEvents
        { (w₁.setOutput output).conn.channel.events with write := true }).pendingOutput =
        w.pendingOutput + rest.length := hlen
    refine ⟨⟨hnew ▸ hqueue, ?_, ?_, ?_⟩, hnew⟩ <;> simp only [withEvents, setOutput, hconn]

/-! ### What a step queues -/

/-- The functors `fs` tell how the pending output has changed. -/
structure Notified (mark : ℕ) (w w' : World) (fs : List Functor) : Prop where
  queues : Queues w w' fs
  highWater : fs.filter Functor.isHighWaterMark =
    crossing mark w.pendingOutput w'.pendingOutput
  drained : 0 < w.pendingOutput → w'.pendingOutput = 0 → .writeCompleteCallback ∈ fs

/-- A step that queues nothing and leaves the pending output alone. -/
theorem Notified.same (mark : ℕ) {w w' : World} (hqueue : w'.loop = w.loop)
    (hconn : w'.conn = { w.conn with state := w'.conn.state }) : Notified mark w w' [] := by
  have hpending : w'.pendingOutput = w.pendingOutput := by rw [pendingOutput, hconn, pendingOutput]
  refine ⟨⟨by rw [hqueue, List.append_nil], by rw [hconn], by rw [hconn], by rw [hconn]⟩, ?_, ?_⟩
  · rw [hpending, crossing_of_le (Nat.le_refl _)]
    rfl
  · intro hpos hzero
    omega

theorem Notified.of_bufferRest {mark : ℕ} {w w' : World} {rest : List UInt8} (ht : w.Tracked)
    (hout : w.conn.outputBuffer.Valid) (hw : w.Watched mark) (h : w.bufferRest rest = .ok w') :
    Notified mark w w' (crossing mark w.pendingOutput w'.pendingOutput) := by
  obtain ⟨hqueues, hpending⟩ := bufferRest_queues ht hout hw h
  exact ⟨hqueues, filter_crossing _ _ _, fun hpos hzero => by omega⟩

theorem sendInLoop_notified {mark : ℕ} {w w' : World} (h : w.Flowing) (hw : w.Watched mark)
    {data : List UInt8} {r : WriteResult} (hstate : w.conn.state ≠ .kDisconnected)
    (hs : r.Sound) (hexec : w.sendInLoop data r = .ok w') : ∃ fs, Notified mark w w' fs := by
  rw [World.sendInLoop, if_neg hstate] at hexec
  by_cases hidle : ¬ w.conn.channel.isWriting ∧ w.conn.outputBuffer.readableBytes = 0
  · rw [if_pos hidle] at hexec
    cases r with
    | wrote n =>
        rw [writeDirectly] at hexec
        by_cases hall : data.length - n = 0
        · simp only [hall, hw.writeComplete, and_self, if_true, ensure_of _ (Nat.zero_le _),
            ok_bind, Nat.lt_irrefl, and_false, if_false] at hexec
          obtain rfl := Except.ok.inj hexec
          refine ⟨[.writeCompleteCallback], ⟨rfl, rfl, rfl, rfl⟩, ?_, fun hpos _ => ?_⟩
          · exact (crossing_of_le (Nat.le_refl w.pendingOutput)).symm
          · exact List.mem_singleton_self _
        · simp only [hall, false_and, if_false, ensure_of _ (Nat.sub_le _ _), ok_bind] at hexec
          rw [if_pos ⟨by simp, Nat.pos_of_ne_zero hall⟩] at hexec
          obtain ⟨hqueues, hhigh, hdrained⟩ :=
            Notified.of_bufferRest (w := { w with socket := w.socket.write (data.take n) })
              h.tracked h.output ⟨hw.highWaterMark, hw.highWater, hw.writeComplete⟩ hexec
          exact ⟨_, ⟨hqueues.queue, hqueues.highWaterMark, hqueues.highWater,
            hqueues.writeComplete⟩, hhigh, hdrained⟩
    | failed errno =>
        simp only [writeDirectly, hs.1, hs.2, or_self, decide_false, Nat.sub_zero, List.drop_zero,
          ensure_of _ (Nat.le_refl data.length), ok_bind] at hexec
        by_cases hlen : 0 < data.length
        · rw [if_pos ⟨by simp, hlen⟩] at hexec
          exact ⟨_, .of_bufferRest h.tracked h.output hw hexec⟩
        · rw [if_neg (by simp [hlen])] at hexec
          obtain rfl := Except.ok.inj hexec
          exact ⟨_, .same mark rfl rfl⟩
  · rw [if_neg hidle] at hexec
    simp only [Nat.sub_zero, List.drop_zero, ensure_of _ (Nat.le_refl data.length),
      ok_bind] at hexec
    by_cases hlen : 0 < data.length
    · rw [if_pos ⟨by simp, hlen⟩] at hexec
      exact ⟨_, .of_bufferRest h.tracked h.output hw hexec⟩
    · rw [if_neg (by simp [hlen])] at hexec
      obtain rfl := Except.ok.inj hexec
      exact ⟨_, .same mark rfl rfl⟩

theorem writeDone_queues {w w' : World} (h : w.writeDone = .ok w') (ht : w.Tracked)
    (hcb : w.conn.writeCompleteCallback = true) :
    Queues w w' [.writeCompleteCallback] ∧ w'.pendingOutput = w.pendingOutput := by
  rw [writeDone, Channel.disableWriting, ht.onChannel_modify, ok_bind] at h
  obtain rfl := Except.ok.inj h
  have hcb' : (w.withEvents
      { w.conn.channel.events with write := false }).conn.writeCompleteCallback = true := hcb
  rw [if_pos hcb', shutdownInLoop]
  split_ifs <;> exact ⟨⟨rfl, rfl, rfl, rfl⟩, rfl⟩

theorem handleWrite_notified {mark : ℕ} {w w' : World} (h : w.Flowing) (hw : w.Watched mark)
    {r : WriteResult} (hr : r.Within w.conn.outputBuffer.readableBytes)
    (hexec : w.handleWrite r = .ok w') : ∃ fs, Notified mark w w' fs := by
  unfold World.handleWrite at hexec
  by_cases hwriting : w.conn.channel.isWriting = true
  · rw [if_pos hwriting] at hexec
    cases r with
    | failed errno =>
        obtain rfl := Except.ok.inj hexec
        exact ⟨_, .same mark rfl rfl⟩
    | wrote n =>
        by_cases hn : 0 < n
        · simp only [if_pos hn] at hexec
          obtain ⟨output, hret, hholds⟩ := h.output.holds.retrieve n
            (by rw [← h.output.holds.readableBytes_eq]; exact hr)
          have hlen : output.readableBytes = w.pendingOutput - n := by
            rw [hholds.readableBytes_eq, List.length_drop, ← h.output.holds.readableBytes_eq,
              pendingOutput]
          simp only [hret, Except.mapError, ok_bind] at hexec
          by_cases hzero : output.readableBytes = 0
          · rw [if_pos (show (World.setOutput _ output).conn.outputBuffer.readableBytes = 0 from
              hzero)] at hexec
            obtain ⟨hqueues, hpending⟩ := writeDone_queues hexec h.tracked hw.writeComplete
            have hnew : w'.pendingOutput = 0 := hpending.trans hzero
            refine ⟨[.writeCompleteCallback], ⟨hqueues.queue, hqueues.highWaterMark,
              hqueues.highWater, hqueues.writeComplete⟩, ?_, fun _ _ => List.mem_singleton_self _⟩
            rw [hnew, crossing_of_le (Nat.zero_le _)]
            rfl
          · rw [if_neg (show (World.setOutput _ output).conn.outputBuffer.readableBytes ≠ 0 from
              hzero)] at hexec
            obtain rfl := Except.ok.inj hexec
            refine ⟨[], ⟨(List.append_nil _).symm, rfl, rfl, rfl⟩, ?_, fun _ hdrained => ?_⟩
            · exact (crossing_of_le (hlen.trans_le (Nat.sub_le _ _))).symm
            · exact absurd hdrained hzero
        · simp only [if_neg hn] at hexec
          obtain rfl := Except.ok.inj hexec
          exact ⟨_, .same mark rfl rfl⟩
  · rw [if_neg hwriting] at hexec
    obtain rfl := Except.ok.inj hexec
    exact ⟨_, .same mark rfl rfl⟩

theorem OutputStep.notified {mark : ℕ} {w : World} (h : w.Flowing) (hw : w.Watched mark)
    {l : OutputStep} (hl : l.Legal w) :
    ∃ w', l.exec w = .ok w' ∧ w'.Flowing ∧ ∃ fs, Notified mark w w' fs := by
  cases l with
  | sendInLoop message r =>
      obtain ⟨w', hexec, hflow, -⟩ := h.sendInLoop message r hl.2.1
      exact ⟨w', hexec, hflow, sendInLoop_notified h hw hl.1 hl.2.2 hexec⟩
  | handleWrite r =>
      obtain ⟨w', hexec, hflow, -⟩ := h.handleWrite r hl.2.1
      exact ⟨w', hexec, hflow, handleWrite_notified h hw hl.2.1 hexec⟩
  | setState s => exact ⟨_, rfl, h.setState s, _, .same mark rfl rfl⟩

/-! ### Whole runs -/

/-- The functors that have been queued on the way from `w` to `w'`. -/
def queuedSince (w w' : World) : List Functor :=
  w'.loop.pendingFunctors.drop w.loop.pendingFunctors.length

theorem Queues.queuedSince {w w' : World} {fs : List Functor} (h : Queues w w' fs) :
    w.queuedSince w' = fs := by
  rw [World.queuedSince, h.queue, List.drop_left]

/-- The states of a run from `w`: the queue has only grown. -/
structure Later (mark : ℕ) (w v : World) : Prop where
  flowing : v.Flowing
  watched : v.Watched mark
  queue : w.loop.pendingFunctors <+: v.loop.pendingFunctors

theorem Later.exec {mark : ℕ} {w v : World} (h : Later mark w v) {l : OutputStep}
    (hl : l.Legal v) : ∃ v', l.exec v = .ok v' ∧ Later mark w v' ∧ ∃ fs, Notified mark v v' fs := by
  obtain ⟨v', hexec, hflow, fs, hfs⟩ := OutputStep.notified h.flowing h.watched hl
  refine ⟨v', hexec, ⟨hflow, hfs.queues.watched h.watched, h.queue.trans ?_⟩, fs, hfs⟩
  exact ⟨fs, hfs.queues.queue.symm⟩

theorem Later.run {mark : ℕ} {w : World} (hflow : w.Flowing) (hw : w.Watched mark)
    {ls : List OutputStep} (hl : LegalRun OutputStep.exec OutputStep.Legal w ls) :
    ∃ v, run OutputStep.exec w ls = .ok v ∧ Later mark w v := by
  have hstep : ∀ (v : World) (l : OutputStep), Later mark w v → l.Legal v →
      ∃ v', l.exec v = .ok v' ∧ Later mark w v' := by
    intro v l hv hlegal
    obtain ⟨v', hexec, hlater, -⟩ := hv.exec hlegal
    exact ⟨v', hexec, hlater⟩
  exact run_invariant hstep ⟨hflow, hw, List.prefix_rfl⟩ hl

/-- One step of a run, and what it queues. -/
theorem step_of_run {mark : ℕ} {w : World} (hflow : w.Flowing) (hw : w.Watched mark)
    {xs ys : List OutputStep} {l : OutputStep}
    (hl : LegalRun OutputStep.exec OutputStep.Legal w (xs ++ l :: ys)) :
    ∃ v v', run OutputStep.exec w xs = .ok v ∧ l.exec v = .ok v' ∧ Later mark w v ∧
      Later mark w v' ∧ Notified mark v v' (v.queuedSince v') ∧
      LegalRun OutputStep.exec OutputStep.Legal v' ys := by
  obtain ⟨hxs, hrest⟩ := hl.of_append
  obtain ⟨v, hrun, hv⟩ := Later.run hflow hw hxs
  obtain ⟨hlegal, hys⟩ := hrest v hrun
  obtain ⟨v', hexec, hv', fs, hfs⟩ := hv.exec hlegal
  exact ⟨v, v', hrun, hexec, hv, hv', hfs.queues.queuedSince ▸ hfs, hys v' hexec⟩

theorem Notified.crosses {mark : ℕ} {w w' : World} {fs : List Functor} (h : Notified mark w w' fs)
    {k : ℕ} (hk : .highWaterMarkCallback k ∈ fs) :
    w.pendingOutput < mark ∧ mark ≤ w'.pendingOutput := by
  have hmem : .highWaterMarkCallback k ∈ fs.filter Functor.isHighWaterMark :=
    List.mem_filter.mpr ⟨hk, rfl⟩
  rw [h.highWater, crossing] at hmem
  by_contra hnot
  rw [if_neg hnot] at hmem
  cases hmem

/-- A step queues the high-water-mark callback, once and with the new amount, exactly if it
takes the pending output across the mark. Before the next one the output is below the mark,
and the step that empties the buffer queues the write-complete callback. -/
theorem back_pressure_pairs {mark : ℕ} {w : World} (hflow : w.Flowing) (hw : w.Watched mark)
    {ls : List OutputStep} (hl : LegalRun OutputStep.exec OutputStep.Legal w ls) :
    (∃ w', run OutputStep.exec w ls = .ok w') ∧
    (∀ xs l ys, ls = xs ++ l :: ys → ∃ v v',
      run OutputStep.exec w xs = .ok v ∧ l.exec v = .ok v' ∧
      (v.queuedSince v').filter Functor.isHighWaterMark =
        if v.pendingOutput < mark ∧ mark ≤ v'.pendingOutput then
          [.highWaterMarkCallback v'.pendingOutput] else []) ∧
    ∀ xs l ys l' zs, ls = xs ++ l :: (ys ++ l' :: zs) → ∃ v₁ v₂ v₃ v₄,
      run OutputStep.exec w xs = .ok v₁ ∧ l.exec v₁ = .ok v₂ ∧
      run OutputStep.exec v₂ ys = .ok v₃ ∧ l'.exec v₃ = .ok v₄ ∧
      ∀ k, .highWaterMarkCallback k ∈ v₁.queuedSince v₂ →
        mark ≤ v₂.pendingOutput ∧
        (∀ k', .highWaterMarkCallback k' ∈ v₃.queuedSince v₄ → v₃.pendingOutput < mark) ∧
        (v₃.pendingOutput ≠ 0 → v₄.pendingOutput = 0 →
          v₂.loop.pendingFunctors <+: v₃.loop.pendingFunctors ∧
          .writeCompleteCallback ∈ v₃.queuedSince v₄) := by
  refine ⟨?_, ?_, ?_⟩
  · obtain ⟨w', hrun, -⟩ := Later.run hflow hw hl
    exact ⟨w', hrun⟩
  · rintro xs l ys rfl
    obtain ⟨v, v', hrun, hexec, -, -, hnotified, -⟩ := step_of_run hflow hw hl
    exact ⟨v, v', hrun, hexec, hnotified.highWater⟩
  · rintro xs l ys l' zs rfl
    obtain ⟨v₁, v₂, hrun, hexec, -, hv₂, hfirst, hrest⟩ := step_of_run hflow hw hl
    obtain ⟨v₃, v₄, hrun', hexec', hv₃, -, hnotified, -⟩ :=
      step_of_run hv₂.flowing hv₂.watched hrest
    refine ⟨v₁, v₂, v₃, v₄, hrun, hexec, hrun', hexec', fun k hk => ⟨?_, fun k' hk' => ?_, ?_⟩⟩
    · exact (hfirst.crosses hk).2
    · exact (hnotified.crosses hk').1
    · intro hpos hzero
      exact ⟨hv₃.queue, hnotified.drained (Nat.pos_of_ne_zero hpos) hzero⟩

/-- An established connection with both callbacks and a mark of four bytes. -/
def markedWorld : World :=
  { freshWorld.established with
    conn := { freshWorld.established.conn with highWaterMark := 4, highWaterMarkCallback := true } }

theorem markedWorld_flowing : markedWorld.Flowing :=
  have h := freshWorld_fresh.flowing
  ⟨h.tracked, h.tight, h.input, h.output, h.writing⟩

/-- The second message crosses the mark, and the write behind it drains the buffer. -/
theorem back_pressure_pairs_drained :
    let ls : List OutputStep := [.sendInLoop [1, 2, 3] (.wrote 1), .sendInLoop [4, 5] (.wrote 0),
      .handleWrite (.wrote 4)]
    (∃ w', run OutputStep.exec markedWorld ls = .ok w' ∧
      w'.loop.pendingFunctors = [.highWaterMarkCallback 4, .writeCompleteCallback]) ∧
    ∃ v v', run OutputStep.exec markedWorld [.sendInLoop [1, 2, 3] (.wrote 1)] = .ok v ∧
      v.sendInLoop [4, 5] (.wrote 0) = .ok v' ∧
      (v.queuedSince v').filter Functor.isHighWaterMark =
        if v.pendingOutput < 4 ∧ 4 ≤ v'.pendingOutput then
          [.highWaterMarkCallback v'.pendingOutput] else [] := by
  intro ls
  have h := back_pressure_pairs markedWorld_flowing ⟨rfl, rfl, rfl⟩
    (show LegalRun OutputStep.exec OutputStep.Legal markedWorld ls by decide +kernel)
  refine ⟨by decide +kernel, ?_⟩
  exact h.2.1 [.sendInLoop [1, 2, 3] (.wrote 1)] (.sendInLoop [4, 5] (.wrote 0)) _ rfl

end World

end Muduo.Net
