import Mathlib.Data.List.Basic

/-! Binary search as `std::lower_bound` makes it, also on a range that is not sorted. -/

namespace Muduo.Library

universe u

/-- The loop over the range of `len` elements from `first` on, where `before i` says
whether the element at `i` compares less than the value. -/
def lowerBoundLoop (before : ℕ → Bool) : (fuel first len : ℕ) → ℕ
  | 0, first, _ => first
  | fuel + 1, first, len =>
      if len = 0 then first
      else if before (first + len / 2) then
        lowerBoundLoop before fuel (first + len / 2 + 1) (len - len / 2 - 1)
      else lowerBoundLoop before fuel first (len / 2)

/-- The position that is returned; `xs.length` is the end. -/
def lowerBound {α : Type u} (xs : List α) (before : α → Bool) : ℕ :=
  lowerBoundLoop (fun i => xs[i]?.any before) xs.length 0 xs.length

/-- The element in front of the result has been found to be less, and the one at the result
not to be. -/
theorem lowerBoundLoop_spec (before : ℕ → Bool) (fuel first len : ℕ) (hfuel : len ≤ fuel) :
    first ≤ lowerBoundLoop before fuel first len ∧
      lowerBoundLoop before fuel first len ≤ first + len ∧
      (lowerBoundLoop before fuel first len < first + len →
        before (lowerBoundLoop before fuel first len) = false) ∧
      (first < lowerBoundLoop before fuel first len →
        before (lowerBoundLoop before fuel first len - 1) = true) := by
  induction fuel generalizing first len with
  | zero =>
      obtain rfl : len = 0 := Nat.le_zero.mp hfuel
      simp [lowerBoundLoop]
  | succ fuel ih =>
      rw [lowerBoundLoop]
      by_cases hlen : len = 0
      · simp [hlen]
      · rw [if_neg hlen]
        cases hmid : before (first + len / 2) with
        | true =>
            obtain ⟨hlow, hhigh, hat, hprev⟩ :=
              ih (first + len / 2 + 1) (len - len / 2 - 1) (by omega)
            rw [if_pos rfl]
            refine ⟨by omega, by omega, fun h => hat (by omega), fun _ => ?_⟩
            rcases Nat.eq_or_lt_of_le hlow with heq | hlt
            · rw [← heq, Nat.add_sub_cancel]
              exact hmid
            · exact hprev hlt
        | false =>
            obtain ⟨hlow, hhigh, hat, hprev⟩ := ih first (len / 2) (by omega)
            rw [if_neg Bool.false_ne_true]
            refine ⟨hlow, by omega, fun _ => ?_, hprev⟩
            rcases Nat.eq_or_lt_of_le hhigh with heq | hlt
            · rw [heq]
              exact hmid
            · exact hat hlt

section Spec

variable {α : Type u}

theorem lowerBound_spec (xs : List α) (before : α → Bool) :
    lowerBound xs before ≤ xs.length ∧
      (lowerBound xs before < xs.length →
        xs[lowerBound xs before]?.any before = false) ∧
      (0 < lowerBound xs before → xs[lowerBound xs before - 1]?.any before = true) := by
  have h := lowerBoundLoop_spec (fun i => xs[i]?.any before) xs.length 0 xs.length (Nat.le_refl _)
  rw [Nat.zero_add] at h
  exact h.2

theorem not_before_lowerBound (xs : List α) (before : α → Bool) {x : α}
    (h : xs[lowerBound xs before]? = some x) : before x = false := by
  obtain ⟨hlt, -⟩ := List.getElem?_eq_some_iff.mp h
  have hat := (lowerBound_spec xs before).2.1 hlt
  rw [h] at hat
  exact hat

theorem before_lowerBound_pred (xs : List α) (before : α → Bool) (h : 0 < lowerBound xs before) :
    ∃ x, xs[lowerBound xs before - 1]? = some x ∧ before x = true :=
  (Option.any_eq_true _ _).mp ((lowerBound_spec xs before).2.2 h)

end Spec

end Muduo.Library
