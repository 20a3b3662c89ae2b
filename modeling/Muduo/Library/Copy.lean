import Mathlib.Data.List.Basic

/-! Element-wise copies into and inside a contiguous array, and the block moves
they amount to. -/

namespace Muduo.Library

variable {α : Type*}

/-- Copying `data` over the cells that start at `dst`. -/
def copyInto : List α → ℕ → List α → List α
  | [], _, v => v
  | x :: data, dst, v => copyInto data (dst + 1) (v.set dst x)

/-- Copying `n` cells from `src` to `dst` inside one array, front to back: each cell
is read from the array as the earlier writes have left it. -/
def copyWithin : ℕ → ℕ → ℕ → List α → List α
  | 0, _, _, v => v
  | n + 1, src, dst, v =>
      match v[src]? with
      | some x => copyWithin n (src + 1) (dst + 1) (v.set dst x)
      | none => v

theorem take_set_succ (v : List α) (i : ℕ) (x : α) (h : i < v.length) :
    (v.set i x).take (i + 1) = v.take i ++ [x] := by
  rw [List.take_add_one, List.take_set_of_le (Nat.le_refl i)]
  simp [h]

theorem copyInto_eq (data : List α) (dst : ℕ) (v : List α) (h : dst + data.length ≤ v.length) :
    copyInto data dst v = v.take dst ++ data ++ v.drop (dst + data.length) := by
  induction data generalizing dst v with
  | nil => simp [copyInto]
  | cons x data ih =>
      simp only [List.length_cons] at h
      rw [copyInto, ih (dst + 1) (v.set dst x) (by simp only [List.length_set]; omega),
        take_set_succ v dst x (by omega), List.drop_set_of_lt (by omega)]
      simp [Nat.add_comm, Nat.add_left_comm]

@[simp] theorem length_copyInto (data : List α) (dst : ℕ) (v : List α) :
    (copyInto data dst v).length = v.length := by
  induction data generalizing dst v with
  | nil => rfl
  | cons x data ih => rw [copyInto, ih, List.length_set]

@[simp] theorem length_copyWithin (n src dst : ℕ) (v : List α) :
    (copyWithin n src dst v).length = v.length := by
  induction n generalizing src dst v with
  | zero => rfl
  | succ n ih =>
      rw [copyWithin]
      split
      · rw [ih, List.length_set]
      · rfl

/-- A front-to-back copy towards the front is a block move, even when the two
ranges overlap. -/
theorem copyWithin_eq (n src dst : ℕ) (v : List α) (hdst : dst ≤ src) (hn : src + n ≤ v.length) :
    copyWithin n src dst v = v.take dst ++ (v.drop src).take n ++ v.drop (dst + n) := by
  induction n generalizing src dst v with
  | zero => simp [copyWithin]
  | succ n ih =>
      have hsrc : src < v.length := by omega
      have hhead : (v.drop src).take (n + 1) = v[src] :: (v.drop (src + 1)).take n := by
        rw [List.drop_eq_getElem_cons hsrc, List.take_succ_cons]
      rw [copyWithin, List.getElem?_eq_getElem hsrc]
      simp only
      rw [ih (src + 1) (dst + 1) (v.set dst v[src]) (by omega)
          (by simp only [List.length_set]; omega),
        take_set_succ v dst _ (by omega), List.drop_set_of_lt (by omega),
        List.drop_set_of_lt (by omega), hhead]
      simp [Nat.add_comm, Nat.add_left_comm]

end Muduo.Library
