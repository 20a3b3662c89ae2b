import Muduo.Library.Run

/-! Arithmetic on `int`. A result that 32 bits do not hold is a fault. -/

namespace Muduo.Library

inductive Overflow where
  | signed
  deriving DecidableEq, Repr

/-- The values of an `int`. -/
def FitsInt (x : ℤ) : Prop := -2147483648 ≤ x ∧ x ≤ 2147483647

instance (x : ℤ) : Decidable (FitsInt x) := inferInstanceAs (Decidable (_ ∧ _))

/-- The operation whose exact result is `x`. -/
def checked (x : ℤ) : Except Overflow ℤ := if FitsInt x then .ok x else .error .signed

theorem checked_of {x : ℤ} (hlow : -2147483648 ≤ x) (hhigh : x ≤ 2147483647) :
    checked x = .ok x := if_pos ⟨hlow, hhigh⟩

/-- An operation whose result fits an `int` goes on with it. -/
theorem checked_bind {α : Type} {x : ℤ} {f : ℤ → Except Overflow α} (hlow : -2147483648 ≤ x)
    (hhigh : x ≤ 2147483647) : (checked x >>= f) = f x := by
  rw [checked_of hlow hhigh]
  rfl

theorem checked_eq_ok {x y : ℤ} : checked x = .ok y ↔ FitsInt x ∧ x = y := by
  unfold checked
  split <;> simp [*]

theorem checked_bind_eq_ok {α : Type} {x : ℤ} {f : ℤ → Except Overflow α} {r : α} :
    (checked x >>= f) = .ok r ↔ FitsInt x ∧ f x = .ok r := by
  unfold checked
  split <;> simp [*]

end Muduo.Library
