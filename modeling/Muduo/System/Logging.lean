import Muduo.Base.AsyncLogging

/-! An asynchronous logger at work: threads that append lines, the back end in
`threadFunc`, and the calls of `start` and `stop`. -/

namespace Muduo.System.Logging

open Library Base AsyncLogging

/-- Where the back end stands: not started, before the assertion on `running_`, at the test
of the loop, before the lock, in the wait, after the section under the mutex, in front of
the buffer `i`, after the last buffer, or out of the loop. -/
inductive Pc where
  | idle
  | entry
  | test
  | lock
  | waiting
  | swapped
  | writing (i : ℕ)
  | recycling
  | done
  deriving DecidableEq, Repr

/-- What one swap has handed over: the lines, the number of buffers, and what has been
given to `output.append` for it so far. -/
structure Batch where
  lines : List (List UInt8)
  size : ℕ
  output : List UInt8
  deriving DecidableEq, Repr

/-- The last four fields record history: all lines in the order of the mutex, those since the
last swap, and the batches, of which the last is the one at hand. -/
structure State where
  logger : AsyncLogging
  backend : Backend
  pc : Pc
  appended : List (List UInt8)
  pending : List (List UInt8)
  finished : List Batch
  batch : Batch
  deriving DecidableEq, Repr

/-- A line that some thread appends, the two calls of the owner, and a step of the back end
at a time that is formatted as `now`. -/
inductive Label where
  | append (line : List UInt8)
  | start
  | stop
  | thread (now : String)
  deriving DecidableEq, Repr

def start : State where
  logger := .init
  backend := .init
  pc := .idle
  appended := []
  pending := []
  finished := []
  batch := ⟨[], 0, []⟩

namespace State

def batches (s : State) : List Batch := s.finished ++ [s.batch]

def swap (s : State) : State :=
  { s with
    logger := (s.logger.swap s.backend).1
    backend := (s.logger.swap s.backend).2
    pc := .swapped
    pending := []
    finished := s.batches
    batch := ⟨s.pending, s.logger.buffers.length + 1, []⟩ }

/-- The back end goes on; what it has put out belongs to the batch at hand. -/
def goOn (s : State) (t : Backend) (pc : Pc) : State :=
  { s with
    backend := t
    pc := pc
    batch := { s.batch with
      output := s.batch.output ++ t.output.drop s.backend.output.length } }

/-- A step of the back end. A thread in the wait may wake up at any time, by the time-out,
by a notification or spuriously. -/
def advance (s : State) (now : String) : Except Fault State :=
  match s.pc with
  | .idle => .ok s
  | .entry => do
      ensure (s.logger.running = true) .running
      return { s with pc := .test }
  | .test =>
      if s.logger.running then do
        s.backend.check
        return { s with pc := .lock }
      else .ok { s with pc := .done }
  | .lock => if s.logger.buffers = [] then .ok { s with pc := .waiting } else .ok s.swap
  | .waiting => .ok s.swap
  | .swapped => do
      let t ← s.backend.dropBuffers now
      return s.goOn t (.writing 0)
  | .writing i =>
      match s.backend.buffersToWrite[i]? with
      | some buffer => do
          let t ← s.backend.writeBuffer buffer
          return s.goOn t (.writing (i + 1))
      | none => .ok { s with pc := .recycling }
  | .recycling => do
      let t ← s.backend.recycle
      return s.goOn t .test
  | .done => .ok s

end State

def exec (s : State) : Label → Except Fault State
  | .append line => do
      let logger ← s.logger.append line
      return { s with
        logger := logger
        appended := s.appended ++ [line]
        pending := s.pending ++ [line] }
  | .start => .ok { s with logger := { s.logger with running := true }, pc := .entry }
  | .stop => .ok { s with logger := { s.logger with running := false } }
  | .thread now => s.advance now

/-- The owner starts the logger once and stops it at most once, after `start` has returned:
that is when the back end has passed its first assertion. -/
def Legal (s : State) : Label → Prop
  | .append line => line.length < kLargeBuffer
  | .start => s.pc = .idle
  | .stop => s.pc ≠ .idle ∧ s.pc ≠ .entry ∧ s.logger.running = true
  | .thread _ => s.pc ≠ .idle ∧ s.pc ≠ .done

instance (s : State) : ∀ l : Label, Decidable (Legal s l)
  | .append line => inferInstanceAs (Decidable (line.length < kLargeBuffer))
  | .start => inferInstanceAs (Decidable (s.pc = .idle))
  | .stop => inferInstanceAs (Decidable (_ ∧ _ ∧ _))
  | .thread _ => inferInstanceAs (Decidable (_ ∧ _))

end Muduo.System.Logging
