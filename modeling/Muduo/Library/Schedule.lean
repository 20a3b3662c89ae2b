import Mathlib.Data.List.Basic
import Mathlib.Data.Nat.Notation

/-! Calls that each serve at most one of the jobs that are due. Jobs and calls come in
order, each at its position in a stream. -/

namespace Muduo.Library

variable {α : Type*}

/-- Where the segments of a stream end, when the first starts at `n`. -/
def offsets (n : ℕ) : List (List α) → List ℕ
  | [] => []
  | x :: xs => (n + x.length) :: offsets (n + x.length) xs

theorem le_of_mem_offsets {n m : ℕ} {xs : List (List α)} (h : m ∈ offsets n xs) : n ≤ m := by
  induction xs generalizing n with
  | nil => cases h
  | cons x xs ih =>
      rcases List.mem_cons.mp h with rfl | h
      · exact Nat.le_add_right _ _
      · exact Nat.le_of_add_right_le (ih h)

/-- There are enough calls: from the moment a job is due, one for it and one for each of
the jobs behind it. -/
def Enough : List ℕ → List ℕ → Prop
  | [], _ => True
  | due :: dues, calls => dues.length < calls.countP (due ≤ ·) ∧ Enough dues calls

instance Enough.decidable : ∀ dues calls : List ℕ, Decidable (Enough dues calls)
  | [], _ => .isTrue trivial
  | due :: dues, calls =>
      have := Enough.decidable dues calls
      inferInstanceAs (Decidable (dues.length < calls.countP (due ≤ ·) ∧ Enough dues calls))

theorem not_enough_nil {due : ℕ} {dues : List ℕ} : ¬ Enough (due :: dues) [] :=
  fun h => absurd h.1 (Nat.not_lt_zero _)

/-- A call that comes before every job is of no use. -/
theorem Enough.early {dues calls : List ℕ} {call : ℕ} (h : Enough dues (call :: calls))
    (hlt : ∀ due ∈ dues, call < due) : Enough dues calls := by
  induction dues with
  | nil => trivial
  | cons due dues ih =>
      have hdue := hlt due List.mem_cons_self
      refine ⟨?_, ih h.2 fun d hd => hlt d (List.mem_cons_of_mem _ hd)⟩
      have hcount := h.1
      rwa [List.countP_cons_of_neg (by simpa using hdue)] at hcount

theorem Enough.wait {n call : ℕ} {x : List α} {xs : List (List α)} {calls : List ℕ}
    (h : Enough (offsets n (x :: xs)) (call :: calls)) (hlt : call < n + x.length) :
    Enough (offsets n (x :: xs)) calls := by
  refine h.early fun due hdue => Nat.lt_of_lt_of_le hlt ?_
  rcases List.mem_cons.mp hdue with rfl | hdue
  · exact Nat.le_refl _
  · exact le_of_mem_offsets hdue

/-- Later calls, as many as there are jobs, can serve the jobs that were due at `call`. -/
theorem Enough.drop {dues calls : List ℕ} {call : ℕ} (h : Enough dues (call :: calls))
    (hlater : ∀ c ∈ calls, call ≤ c) (hlen : dues.length ≤ calls.length) : Enough dues calls := by
  induction dues with
  | nil => trivial
  | cons due dues ih =>
      refine ⟨?_, ih h.2 (Nat.le_of_succ_le hlen)⟩
      have hcount := h.1
      by_cases hdue : due ≤ call
      · have hall : calls.countP (due ≤ ·) = calls.length :=
          List.countP_eq_length.mpr fun c hc => decide_eq_true (Nat.le_trans hdue (hlater c hc))
        rw [hall]
        exact hlen
      · rwa [List.countP_cons_of_neg (by simpa using hdue)] at hcount

/-- A call that serves the first job leaves enough of them for the others. -/
theorem Enough.serve {due call : ℕ} {dues calls : List ℕ}
    (h : Enough (due :: dues) (call :: calls)) (hlater : ∀ c ∈ calls, call ≤ c) :
    Enough dues calls := by
  refine h.2.drop hlater ?_
  have hcount := Nat.lt_of_lt_of_le h.1 List.countP_le_length
  exact Nat.le_of_lt_succ hcount

end Muduo.Library
