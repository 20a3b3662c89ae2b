import Mathlib.Data.List.Basic

/-! Codes that can be read back whatever follows them, and sequences of such codes. -/

namespace Muduo.Library

universe u

variable {α β : Type u}

/-- `decode` takes exactly what `encode` wrote from the front of a text. -/
def ReadsBack (encode : α → List β) (decode : List β → Option (α × List β)) (p : α → Prop) : Prop :=
  ∀ a, p a → ∀ rest, decode (encode a ++ rest) = some (a, rest)

/-- Decoding one value after the other until the text ends. Every value takes at least one
symbol. -/
def decodeSeq (decode : List β → Option (α × List β)) : ℕ → List β → Option (List α)
  | _, [] => some []
  | 0, _ :: _ => none
  | rounds + 1, xs => do
      let (a, rest) ← decode xs
      let as ← decodeSeq decode rounds rest
      return a :: as

def decodeAll (decode : List β → Option (α × List β)) (xs : List β) : Option (List α) :=
  decodeSeq decode xs.length xs

theorem decodeSeq_flatMap {encode : α → List β} {decode : List β → Option (α × List β)}
    {p : α → Prop} (h : ReadsBack encode decode p) (hne : ∀ a, encode a ≠ []) {as : List α}
    (has : ∀ a ∈ as, p a) {rounds : ℕ} (hrounds : (as.flatMap encode).length ≤ rounds) :
    decodeSeq decode rounds (as.flatMap encode) = some as := by
  induction as generalizing rounds with
  | nil => rw [List.flatMap_nil, decodeSeq]
  | cons a as ih =>
      obtain ⟨ha, has⟩ := List.forall_mem_cons.mp has
      have hpos := List.length_pos_iff.mpr (hne a)
      rw [List.flatMap_cons, List.length_append] at hrounds
      cases rounds with
      | zero => omega
      | succ rounds =>
          have hread := h a ha (as.flatMap encode)
          have hrest := @ih has rounds (by omega)
          rw [List.flatMap_cons]
          cases hcode : encode a ++ as.flatMap encode with
          | nil => exact absurd (List.append_eq_nil_iff.mp hcode).1 (hne a)
          | cons x xs =>
              rw [hcode] at hread
              simp only [decodeSeq, hread, Option.bind_eq_bind, Option.bind_some, hrest]
              rfl

/-- A sequence of codes is decoded to what was encoded. -/
theorem decodeAll_flatMap {encode : α → List β} {decode : List β → Option (α × List β)}
    {p : α → Prop} (h : ReadsBack encode decode p) (hne : ∀ a, encode a ≠ []) {as : List α}
    (has : ∀ a ∈ as, p a) : decodeAll decode (as.flatMap encode) = some as :=
  decodeSeq_flatMap h hne has (Nat.le_refl _)

end Muduo.Library
