import Mathlib.Data.List.Basic
import Mathlib.Data.List.Infix

/-! Incremental decoders: a decoder looks at the bytes it has been given so far and asks
for more, takes some of them, or rejects them. What it does with a stream does not
depend on how the stream is cut. -/

namespace Muduo.Library

variable {β σ ω ε : Type*}

/-- Of two beginnings of one stream, the second is within the first or goes beyond it. -/
theorem append_eq_append_cases {a b c d : List β} (h : a ++ b = c ++ d) :
    (∃ rest, a = c ++ rest ∧ d = rest ++ b) ∨
      ∃ missing, missing ≠ [] ∧ c = a ++ missing ∧ b = missing ++ d := by
  rcases List.append_eq_append_iff.mp h with ⟨missing, hc, hb⟩ | ⟨rest, ha, hd⟩
  · by_cases hm : missing = []
    · subst hm
      exact .inl ⟨[], by rw [hc, List.append_nil, List.append_nil], hb.symm⟩
    · exact .inr ⟨missing, hm, hc, hb⟩
  · exact .inl ⟨rest, ha, hd⟩

/-- One look at the bytes at hand. A decoder that takes `n` of them may have completed
an item. -/
inductive Progress (σ ω ε : Type*) where
  | more
  | consume (n : ℕ) (s : σ) (out : Option ω)
  | reject (s : σ) (e : ε)

/-- A decoder takes bytes it has, and decides on what it takes alone. -/
structure Decoder (β σ ω ε : Type*) where
  next : σ → List β → Progress σ ω ε
  consume_pos : ∀ {s bs n s' out}, next s bs = .consume n s' out → 0 < n
  consume_le : ∀ {s bs n s' out}, next s bs = .consume n s' out → n ≤ bs.length
  consume_take : ∀ {s bs n s' out}, next s bs = .consume n s' out →
    next s (bs.take n) = .consume n s' out
  consume_append : ∀ {s bs n s' out}, next s bs = .consume n s' out →
    ∀ xs, next s (bs ++ xs) = .consume n s' out
  reject_append : ∀ {s bs s' e}, next s bs = .reject s' e → ∀ xs, next s (bs ++ xs) = .reject s' e

namespace Decoder

variable {d : Decoder β σ ω ε}

/-- As many items as the bytes hold: the items, the state and the bytes that are left,
and the error that stopped it. -/
inductive Drains (d : Decoder β σ ω ε) :
    σ → List β → List ω → σ → List β → Option ε → Prop
  | more {s bs} (h : d.next s bs = .more) : Drains d s bs [] s bs none
  | reject {s bs s' e} (h : d.next s bs = .reject s' e) : Drains d s bs [] s' bs (some e)
  | consume {s bs n s₁ out outs s₂ rest e} (h : d.next s bs = .consume n s₁ out)
      (ht : Drains d s₁ (bs.drop n) outs s₂ rest e) :
      Drains d s bs (out.toList ++ outs) s₂ rest e

/-- At most one item: decoding stops at the first. -/
inductive DrainsOne (d : Decoder β σ ω ε) :
    σ → List β → Option ω → σ → List β → Option ε → Prop
  | more {s bs} (h : d.next s bs = .more) : DrainsOne d s bs none s bs none
  | reject {s bs s' e} (h : d.next s bs = .reject s' e) : DrainsOne d s bs none s' bs (some e)
  | item {s bs n s₁ w} (h : d.next s bs = .consume n s₁ (some w)) :
      DrainsOne d s bs (some w) s₁ (bs.drop n) none
  | consume {s bs n s₁ out s₂ rest e} (h : d.next s bs = .consume n s₁ none)
      (ht : DrainsOne d s₁ (bs.drop n) out s₂ rest e) : DrainsOne d s bs out s₂ rest e

/-- Fragment after fragment, up to an error: `undelivered` are the fragments behind it. -/
inductive Fed (d : Decoder β σ ω ε) :
    σ → List β → List (List β) → List ω → σ → List β → List (List β) → Option ε → Prop
  | nil {s buf} : Fed d s buf [] [] s buf [] none
  | fragment {s buf x xs outs s₁ buf₁ outs' s₂ buf₂ undelivered e}
      (h : d.Drains s (buf ++ x) outs s₁ buf₁ none)
      (ht : Fed d s₁ buf₁ xs outs' s₂ buf₂ undelivered e) :
      Fed d s buf (x :: xs) (outs ++ outs') s₂ buf₂ undelivered e
  | stop {s buf x xs outs s₁ buf₁ e} (h : d.Drains s (buf ++ x) outs s₁ buf₁ (some e)) :
      Fed d s buf (x :: xs) outs s₁ buf₁ xs (some e)

/-- Bytes that a decoder takes completely without completing an item. -/
inductive Passes (d : Decoder β σ ω ε) : σ → List β → σ → Prop
  | nil {s} : Passes d s [] s
  | consume {s seg s₁ rest s₂} (h : d.next s seg = .consume seg.length s₁ none)
      (ht : Passes d s₁ rest s₂) : Passes d s (seg ++ rest) s₂

/-- Bytes that a decoder takes completely, the last of them completing an item. -/
inductive Completes (d : Decoder β σ ω ε) : σ → List β → ω → σ → Prop
  | item {s seg w s₁} (h : d.next s seg = .consume seg.length s₁ (some w)) : Completes d s seg w s₁
  | consume {s seg s₁ rest w s₂} (h : d.next s seg = .consume seg.length s₁ none)
      (ht : Completes d s₁ rest w s₂) : Completes d s (seg ++ rest) w s₂

/-- The bytes of items that are still to come, of which the first may be under way. -/
inductive Awaits (d : Decoder β σ ω ε) (s₀ : σ) : σ → List (List β) → List ω → Prop
  | nil {s} : Awaits d s₀ s [] []
  | cons {s seg w segs ws} (h : d.Completes s seg w s₀) (ht : Awaits d s₀ s₀ segs ws) :
      Awaits d s₀ s (seg :: segs) (w :: ws)

section Drains

variable {s s' s₁ s₂ : σ} {bs rest rest₁ rest₂ : List β} {outs outs₁ outs₂ : List ω}
  {e e₁ e₂ : Option ε}

theorem Drains.det (h₁ : d.Drains s bs outs₁ s₁ rest₁ e₁) (h₂ : d.Drains s bs outs₂ s₂ rest₂ e₂) :
    outs₁ = outs₂ ∧ s₁ = s₂ ∧ rest₁ = rest₂ ∧ e₁ = e₂ := by
  induction h₁ generalizing outs₂ s₂ rest₂ e₂ with
  | more h =>
      cases h₂ with
      | more => exact ⟨rfl, rfl, rfl, rfl⟩
      | reject h' => cases h.symm.trans h'
      | consume h' => cases h.symm.trans h'
  | reject h =>
      cases h₂ with
      | more h' => cases h.symm.trans h'
      | reject h' =>
          cases h.symm.trans h'
          exact ⟨rfl, rfl, rfl, rfl⟩
      | consume h' => cases h.symm.trans h'
  | consume h _ ih =>
      cases h₂ with
      | more h' => cases h.symm.trans h'
      | reject h' => cases h.symm.trans h'
      | consume h' ht' =>
          cases h.symm.trans h'
          obtain ⟨rfl, rfl, rfl, rfl⟩ := ih ht'
          exact ⟨rfl, rfl, rfl, rfl⟩

/-- Without an error the decoder ends up asking for more. -/
theorem Drains.next_more (h : d.Drains s bs outs s' rest none) : d.next s' rest = .more := by
  generalize he : (none : Option ε) = e at h
  induction h with
  | more h => exact h
  | reject h => cases he
  | consume _ _ ih => exact ih he

/-- An error is about the bytes that are left. -/
theorem Drains.next_reject {e : ε} (h : d.Drains s bs outs s' rest (some e)) :
    ∃ s₁, d.next s₁ rest = .reject s' e := by
  generalize he : some e = e' at h
  induction h with
  | more h => cases he
  | reject h =>
      cases he
      exact ⟨_, h⟩
  | consume _ _ ih => exact ih he

/-- Input that comes later continues where the decoder stopped. -/
theorem Drains.append {xs : List β} (h : d.Drains s bs outs s₁ rest₁ none)
    (h' : d.Drains s₁ (rest₁ ++ xs) outs₂ s₂ rest₂ e) :
    d.Drains s (bs ++ xs) (outs ++ outs₂) s₂ rest₂ e := by
  generalize he : (none : Option ε) = e' at h
  induction h with
  | more h => exact h'
  | reject h => cases he
  | consume h _ ih =>
      rw [List.append_assoc]
      refine .consume (d.consume_append h xs) ?_
      rw [List.drop_append_of_le_length (d.consume_le h)]
      exact ih h' he

/-- Input behind an error is not looked at. -/
theorem Drains.append_error {e : ε} (h : d.Drains s bs outs s₁ rest₁ (some e)) (xs : List β) :
    d.Drains s (bs ++ xs) outs s₁ (rest₁ ++ xs) (some e) := by
  generalize he : some e = e' at h ⊢
  induction h with
  | more h => cases he
  | reject h => exact .reject (d.reject_append h xs)
  | consume h _ ih =>
      refine .consume (d.consume_append h xs) ?_
      rw [List.drop_append_of_le_length (d.consume_le h)]
      exact ih he

/-- Items one by one. -/
theorem DrainsOne.drains {w : ω} (h : d.DrainsOne s bs (some w) s₁ rest₁ none)
    (h' : d.Drains s₁ rest₁ outs s₂ rest₂ e) : d.Drains s bs (w :: outs) s₂ rest₂ e := by
  generalize ho : some w = out at h
  generalize (none : Option ε) = e' at h
  induction h with
  | more h => cases ho
  | reject h => cases ho
  | item h =>
      cases ho
      exact .consume h h'
  | consume h _ ih => exact .consume h (ih h' ho)

theorem DrainsOne.length_lt {w : ω} (h : d.DrainsOne s bs (some w) s₁ rest₁ e) :
    rest₁.length < bs.length := by
  generalize ho : some w = out at h
  induction h with
  | more h => cases ho
  | reject h => cases ho
  | item h =>
      have := d.consume_pos h
      have := d.consume_le h
      rw [List.length_drop]
      omega
  | consume h _ ih => exact Nat.lt_of_lt_of_le (ih ho) (List.drop_suffix _ _).length_le

theorem DrainsOne.det {out₁ out₂ : Option ω} (h₁ : d.DrainsOne s bs out₁ s₁ rest₁ e₁)
    (h₂ : d.DrainsOne s bs out₂ s₂ rest₂ e₂) :
    out₁ = out₂ ∧ s₁ = s₂ ∧ rest₁ = rest₂ ∧ e₁ = e₂ := by
  induction h₁ with
  | more h =>
      cases h₂ with
      | more => exact ⟨rfl, rfl, rfl, rfl⟩
      | reject h' => cases h.symm.trans h'
      | item h' => cases h.symm.trans h'
      | consume h' => cases h.symm.trans h'
  | reject h =>
      cases h₂ with
      | more h' => cases h.symm.trans h'
      | reject h' =>
          cases h.symm.trans h'
          exact ⟨rfl, rfl, rfl, rfl⟩
      | item h' => cases h.symm.trans h'
      | consume h' => cases h.symm.trans h'
  | item h =>
      cases h₂ with
      | more h' => cases h.symm.trans h'
      | reject h' => cases h.symm.trans h'
      | item h' =>
          cases h.symm.trans h'
          exact ⟨rfl, rfl, rfl, rfl⟩
      | consume h' => cases h.symm.trans h'
  | consume h _ ih =>
      cases h₂ with
      | more h' => cases h.symm.trans h'
      | reject h' => cases h.symm.trans h'
      | item h' => cases h.symm.trans h'
      | consume h' ht' =>
          cases h.symm.trans h'
          exact ih ht'

theorem DrainsOne.drains_none (h : d.DrainsOne s bs none s₁ rest₁ e) :
    d.Drains s bs [] s₁ rest₁ e := by
  generalize ho : (none : Option ω) = out at h
  induction h with
  | more h => exact .more h
  | reject h => exact .reject h
  | item h => cases ho
  | consume h _ ih => exact .consume h (ih ho)

end Drains

/-- Feeding fragments is draining their concatenation. -/
theorem Fed.drains {s s' : σ} {buf buf' : List β} {xs undelivered : List (List β)}
    {outs : List ω} {e : Option ε} (hready : d.next s buf = .more)
    (h : d.Fed s buf xs outs s' buf' undelivered e) :
    d.Drains s (buf ++ xs.flatten) outs s' (buf' ++ undelivered.flatten) e := by
  induction h with
  | nil =>
      rw [List.flatten_nil, List.append_nil]
      exact .more hready
  | fragment h _ ih =>
      rw [List.flatten_cons, ← List.append_assoc]
      exact h.append (ih h.next_more)
  | stop h =>
      rw [List.flatten_cons, ← List.append_assoc]
      exact h.append_error _

/-! ### Items and their bytes -/

/-- A decoder that starts afresh with every item. -/
def Restarts (d : Decoder β σ ω ε) (s₀ : σ) : Prop :=
  ∀ {s bs n s' w}, d.next s bs = .consume n s' (some w) → s' = s₀

theorem next_take_length {s s' : σ} {bs : List β} {n : ℕ} {out : Option ω}
    (h : d.next s bs = .consume n s' out) :
    d.next s (bs.take n) = .consume (bs.take n).length s' out := by
  rw [List.length_take, Nat.min_eq_left (d.consume_le h)]
  exact d.consume_take h

theorem Passes.snoc {s s₁ s₂ : σ} {bs seg : List β} (h : d.Passes s bs s₁)
    (h' : d.next s₁ seg = .consume seg.length s₂ none) : d.Passes s (bs ++ seg) s₂ := by
  induction h with
  | nil =>
      have := Passes.consume h' .nil
      rwa [List.append_nil] at this
  | consume h _ ih =>
      rw [List.append_assoc]
      exact .consume h (ih h')

theorem Passes.completes {s s₁ s₂ : σ} {bs seg : List β} {w : ω} (h : d.Passes s bs s₁)
    (h' : d.next s₁ seg = .consume seg.length s₂ (some w)) : d.Completes s (bs ++ seg) w s₂ := by
  induction h with
  | nil => exact .item h'
  | consume h _ ih =>
      rw [List.append_assoc]
      exact .consume h (ih h')

theorem DrainsOne.suffix {s s' : σ} {bs rest : List β} {out : Option ω} {e : Option ε}
    (h : d.DrainsOne s bs out s' rest e) : rest <:+ bs := by
  induction h with
  | more => exact List.suffix_rfl
  | reject => exact List.suffix_rfl
  | item => exact List.drop_suffix _ _
  | consume _ _ ih => exact ih.trans (List.drop_suffix _ _)

/-- An item whose bytes are there is decoded from them. -/
theorem Completes.drainsOne {s s' : σ} {bs : List β} {w : ω} (h : d.Completes s bs w s')
    (xs : List β) : d.DrainsOne s (bs ++ xs) (some w) s' xs none := by
  induction h with
  | @item s seg w s₁ h =>
      have := DrainsOne.item (d.consume_append h xs)
      rwa [List.drop_left] at this
  | @consume s seg s₁ rest w s₂ h _ ih =>
      rw [List.append_assoc]
      refine .consume (d.consume_append h (rest ++ xs)) ?_
      rwa [List.drop_left]

/-- A decoder does not decide on a part of what it would take. -/
theorem next_of_consume_append {s s' : σ} {x y : List β} {out : Option ω}
    (h : d.next s (x ++ y) = .consume (x ++ y).length s' out) (hy : y ≠ []) :
    d.next s x = .more := by
  cases hx : d.next s x with
  | more => rfl
  | reject => cases h.symm.trans (d.reject_append hx y)
  | consume n =>
      cases h.symm.trans (d.consume_append hx y)
      have hle := d.consume_le hx
      have hpos := List.length_pos_iff.mpr hy
      rw [List.length_append] at hle
      omega

/-- An item whose bytes are not all there is not decoded, and stays complete with the
bytes that are missing. -/
theorem Completes.waits {s s' : σ} {bs x y : List β} {w : ω}
    (h : d.Completes s bs w s') (hbs : bs = x ++ y) (hy : y ≠ []) :
    ∃ s₁ rest, d.DrainsOne s x none s₁ rest none ∧ d.Completes s₁ (rest ++ y) w s' := by
  induction h generalizing x with
  | item h =>
      subst hbs
      exact ⟨_, x, .more (next_of_consume_append h hy), .item h⟩
  | @consume s seg s₁ rest w s₂ h ht ih =>
      rcases append_eq_append_cases hbs.symm with ⟨z, rfl, rfl⟩ | ⟨z, hz, rfl, rfl⟩
      · obtain ⟨s₃, rest, hdrains, hcompletes⟩ := ih rfl
        refine ⟨s₃, rest, .consume (d.consume_append h z) ?_, hcompletes⟩
        rwa [List.drop_left]
      · refine ⟨s, x, .more (next_of_consume_append h hz), ?_⟩
        rw [← List.append_assoc]
        exact .consume h ht

/-- Every item comes from bytes of its own, from which a fresh decoder would produce it
as well; `part` is what was taken of the next one. -/
theorem Drains.segments {s₀ s s' : σ} {bs rest : List β} {outs : List ω} {e : Option ε}
    (hfresh : d.Restarts s₀) (h : d.Drains s bs outs s' rest e) {pre : List β}
    (hpre : d.Passes s₀ pre s) :
    ∃ segs part s₁, pre ++ bs = segs.flatten ++ (part ++ rest) ∧ d.Passes s₀ part s₁ ∧
      List.Forall₂ (fun seg w => d.Completes s₀ seg w s₀) segs outs := by
  induction h generalizing pre with
  | more => exact ⟨[], pre, _, rfl, hpre, .nil⟩
  | reject => exact ⟨[], pre, _, rfl, hpre, .nil⟩
  | @consume s bs n s₁ out outs s₂ rest e h _ ih =>
      cases out with
      | none =>
          obtain ⟨segs, part, s₃, hsplit, hpart, hall⟩ := ih (hpre.snoc (next_take_length h))
          refine ⟨segs, part, s₃, ?_, hpart, hall⟩
          rw [← hsplit, List.append_assoc, List.take_append_drop]
      | some w =>
          obtain rfl := hfresh h
          obtain ⟨segs, part, s₃, hsplit, hpart, hall⟩ := ih .nil
          refine ⟨(pre ++ bs.take n) :: segs, part, s₃, ?_, hpart,
            .cons (hpre.completes (next_take_length h)) hall⟩
          rw [List.flatten_cons, List.append_assoc, ← hsplit, List.nil_append, List.append_assoc,
            List.take_append_drop]

end Decoder

end Muduo.Library
