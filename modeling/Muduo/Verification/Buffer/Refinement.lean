import Muduo.Verification.Buffer.Layout
import Mathlib.Logic.Function.Basic

/-! A family of buffers under any sequence of calls behaves as a family of byte
deques. The calls are legal when their asserted preconditions hold. -/

namespace Muduo.Net.Buffer

open Library

/-- A call on one buffer. A pointer argument is its distance from `peek()`, and
`write` stores through `beginWrite()` and then calls `hasWritten`. -/
inductive Op where
  | append (data : List UInt8)
  | prepend (data : List UInt8)
  | retrieve (len : ℕ)
  | retrieveUntil (offset : ℕ)
  | retrieveAll
  | retrieveAsString (len : ℕ)
  | unwrite (len : ℕ)
  | ensureWritableBytes (len : ℕ)
  | write (data : List UInt8)
  | shrink (reserve : ℕ)
  | readFd (result : Except ℕ (List UInt8))

namespace Op

/-- The buffer after the call; the values some calls return are not kept. -/
def exec (b : Buffer) : Op → Except Fault Buffer
  | append data => b.append data
  | prepend data => b.prepend data
  | retrieve len => b.retrieve len
  | retrieveUntil offset => b.retrieveUntil (b.peek + offset)
  | retrieveAll => .ok b.retrieveAll
  | retrieveAsString len => do
      let (_, b) ← b.retrieveAsString len
      return b
  | unwrite len => b.unwrite len
  | ensureWritableBytes len => b.ensureWritableBytes len
  | write data => (b.writeAt data).hasWritten data.length
  | shrink reserve => b.shrink reserve
  | readFd result => do
      let (_, b) ← b.readFd result
      return b

/-- The call on a byte deque. -/
def apply (content : List UInt8) : Op → List UInt8
  | append data => content ++ data
  | prepend data => data ++ content
  | retrieve len => content.drop len
  | retrieveUntil offset => content.drop offset
  | retrieveAll => []
  | retrieveAsString len => content.drop len
  | unwrite len => content.take (content.length - len)
  | ensureWritableBytes _ => content
  | write data => content ++ data
  | shrink _ => content
  | readFd (.ok data) => content ++ data
  | readFd (.error _) => content

/-- The bytes a call adds or asks room for. -/
def size : Op → ℕ
  | append data => data.length
  | prepend data => data.length
  | ensureWritableBytes len => len
  | write data => data.length
  | shrink reserve => reserve
  | readFd (.ok data) => data.length
  | _ => 0

/-- The precondition the call asserts, or the contract of `readv`. -/
def Pre (b : Buffer) : Op → Prop
  | prepend data => data.length ≤ b.prependableBytes
  | retrieve len => len ≤ b.readableBytes
  | retrieveUntil offset => offset ≤ b.readableBytes
  | retrieveAsString len => len ≤ b.readableBytes
  | unwrite len => len ≤ b.readableBytes
  | write data => data.length ≤ b.writableBytes
  | readFd (.ok data) => data.length ≤ b.iovCapacity
  | _ => True

instance (b : Buffer) : ∀ op : Op, Decidable (op.Pre b)
  | prepend _ => inferInstanceAs (Decidable (_ ≤ _))
  | retrieve _ => inferInstanceAs (Decidable (_ ≤ _))
  | retrieveUntil _ => inferInstanceAs (Decidable (_ ≤ _))
  | retrieveAsString _ => inferInstanceAs (Decidable (_ ≤ _))
  | unwrite _ => inferInstanceAs (Decidable (_ ≤ _))
  | write _ => inferInstanceAs (Decidable (_ ≤ _))
  | readFd (.ok _) => inferInstanceAs (Decidable (_ ≤ _))
  | readFd (.error _) => .isTrue trivial
  | append _ => .isTrue trivial
  | retrieveAll => .isTrue trivial
  | ensureWritableBytes _ => .isTrue trivial
  | shrink _ => .isTrue trivial

end Op

/-- One call refines the deque operation of the same name. Only `shrink` goes through an
`int`. -/
theorem Holds.exec_of {b : Buffer} {content : List UInt8} (h : b.Holds content) (op : Op)
    (hpre : op.Pre b) (hsize : ∀ reserve, op = .shrink reserve → content.length < 2 ^ 31) :
    ∃ b', op.exec b = .ok b' ∧ b'.Holds (op.apply content) := by
  cases op with
  | append data => exact h.append data
  | prepend data => exact h.prepend data hpre
  | retrieve len => exact h.retrieve len (h.readableBytes_eq ▸ hpre)
  | retrieveUntil offset => exact h.retrieveUntil offset (h.readableBytes_eq ▸ hpre)
  | retrieveAll => exact ⟨_, rfl, h.retrieveAll⟩
  | retrieveAsString len =>
      obtain ⟨b', hb, hh⟩ := h.retrieveAsString len (h.readableBytes_eq ▸ hpre)
      exact ⟨b', by simp only [Op.exec, hb, ok_bind]; rfl, hh⟩
  | unwrite len => exact h.unwrite len (h.readableBytes_eq ▸ hpre)
  | ensureWritableBytes len =>
      obtain ⟨b', hb, hh, -⟩ := h.ensureWritableBytes len
      exact ⟨b', hb, hh⟩
  | write data => exact h.write data hpre
  | shrink reserve => exact h.shrink reserve (hsize reserve rfl)
  | readFd result =>
      cases result with
      | error errno => exact ⟨b, rfl, h⟩
      | ok data =>
          obtain ⟨b', hb, hh⟩ := h.readFd_ok data
          exact ⟨b', by simp only [Op.exec, hb, ok_bind]; rfl, hh⟩

theorem Holds.exec {b : Buffer} {content : List UInt8} (h : b.Holds content) (op : Op)
    (hpre : op.Pre b) (hsize : b.buffer.length + op.size < 2 ^ 31) :
    ∃ b', op.exec b = .ok b' ∧ b'.Holds (op.apply content) := by
  refine h.exec_of op hpre fun reserve _ => ?_
  obtain ⟨front, back, hl⟩ := h.layout
  rw [hl.length_eq] at hsize
  omega

/-- A call that returns keeps the indices in order. -/
theorem Valid.exec {b b' : Buffer} (h : b.Valid) {op : Op} (hpre : op.Pre b)
    (hok : op.exec b = .ok b') : b'.Valid := by
  by_cases hshrink : ∃ reserve, op = .shrink reserve
  · obtain ⟨reserve, rfl⟩ := hshrink
    exact Valid.of_shrink hok
  · obtain ⟨b'', hb, hh⟩ := h.holds.exec_of op hpre fun r hr => absurd ⟨r, hr⟩ hshrink
    obtain rfl := Except.ok.inj (hok.symm.trans hb)
    exact hh.toValid

/-! ### Runs over a family of buffers -/

/-- A call on the buffer named `i`, or a swap of two buffers. -/
inductive Command (ι : Type*) where
  | call (i : ι) (op : Op)
  | swap (i j : ι)

namespace Command

variable {ι : Type*} [DecidableEq ι]

/-- `swap(rhs)` exchanges the three members of the two buffers. -/
def exec (s : ι → Buffer) : Command ι → Except Fault (ι → Buffer)
  | call i op => (op.exec (s i)).map (Function.update s i)
  | swap i j => .ok (Function.update (Function.update s i (s j)) j (s i))

def apply (s : ι → List UInt8) : Command ι → ι → List UInt8
  | call i op => Function.update s i (op.apply (s i))
  | swap i j => Function.update (Function.update s i (s j)) j (s i)

/-- Calls within their preconditions, and with total sizes below `2 ^ 31`. -/
def Legal (s : ι → Buffer) : Command ι → Prop
  | call i op => op.Pre (s i) ∧ (s i).buffer.length + op.size < 2 ^ 31
  | swap _ _ => True

instance (s : ι → Buffer) : ∀ c : Command ι, Decidable (Legal s c)
  | call _ _ => inferInstanceAs (Decidable (_ ∧ _))
  | swap _ _ => .isTrue trivial

/-- Each concrete buffer holds the bytes of the deque of its name. -/
def Refines (s : ι → Buffer) (a : ι → List UInt8) : Prop := ∀ i, (s i).Holds (a i)

theorem Refines.update {s : ι → Buffer} {a : ι → List UInt8} (h : Refines s a) (i : ι)
    {b : Buffer} {content : List UInt8} (hb : b.Holds content) :
    Refines (Function.update s i b) (Function.update a i content) := by
  intro k
  by_cases hk : k = i
  · subst hk
    simpa using hb
  · simpa [hk] using h k

theorem Refines.exec {s : ι → Buffer} {a : ι → List UInt8} {c : Command ι} (h : Refines s a)
    (hc : Legal s c) : ∃ s', c.exec s = .ok s' ∧ Refines s' (c.apply a) := by
  cases c with
  | call i op =>
      obtain ⟨b', hb, hh⟩ := (h i).exec op hc.1 hc.2
      exact ⟨_, by rw [Command.exec, hb]; rfl, h.update i hh⟩
  | swap i j => exact ⟨_, rfl, (h.update i (h j)).update j (h i)⟩

end Command

/-- Every legal sequence of calls on freshly constructed buffers succeeds, keeps the
index invariant, and leaves the bytes that the deques hold. -/
theorem buffer_refines_deque {ι : Type*} [DecidableEq ι] (sizes : ι → ℕ) (cs : List (Command ι))
    (h : LegalRun Command.exec Command.Legal (fun i => init (sizes i)) cs) :
    (∀ i, ctor (sizes i) = .ok (init (sizes i))) ∧
    ∃ s, run Command.exec (fun i => init (sizes i)) cs = .ok s ∧
      ∀ i, (s i).readerIndex ≤ (s i).writerIndex ∧ (s i).writerIndex ≤ (s i).buffer.length ∧
        (s i).readable = cs.foldl Command.apply (fun _ => []) i := by
  refine ⟨fun i => ctor_eq (sizes i), ?_⟩
  have hstart : Command.Refines (fun i => init (sizes i)) (fun _ => []) :=
    fun i => init_holds (sizes i)
  obtain ⟨s, hs, hr⟩ := run_simulates (fun _ _ _ hr hl => hr.exec hl) hstart h
  exact ⟨s, hs, fun i => ⟨(hr i).reader_le, (hr i).writer_le, (hr i).readable_eq⟩⟩

/-- Growing, compacting, reading past the writable bytes and swapping are all legal. -/
theorem buffer_refines_deque_two :
    let cs : List (Command Bool) := [.call true (.append [1, 2, 3]), .call true (.retrieve 2),
      .call true (.append [4, 5]), .call true (.prepend [9]), .call false (.readFd (.ok [7, 8, 9])),
      .swap true false, .call true (.unwrite 1), .call false (.readFd (.error 11))]
    LegalRun Command.exec Command.Legal (fun _ => init 2) cs ∧
      ∃ s, run Command.exec (fun _ => init 2) cs = .ok s ∧
        (s true).readable = [7, 8] ∧ (s false).readable = [9, 3, 4, 5] := by
  intro cs
  have hlegal : LegalRun Command.exec Command.Legal (fun _ : Bool => init 2) cs := by decide
  obtain ⟨-, s, hs, hr⟩ := buffer_refines_deque (fun _ : Bool => 2) cs hlegal
  exact ⟨hlegal, s, hs, (hr true).2.2, (hr false).2.2⟩

end Muduo.Net.Buffer
