import Mathlib.Data.List.Basic
import Mathlib.Data.List.Infix

/-! The first occurrence of a pattern in a sequence. -/

namespace Muduo.Library

variable {α : Type*} [DecidableEq α]

/-- `std::search`: where the first occurrence of `pat` starts. -/
def search (pat : List α) : List α → Option ℕ
  | [] => if pat = [] then some 0 else none
  | x :: xs => if pat <+: x :: xs then some 0 else (search pat xs).map (· + 1)

theorem search_eq_zero {pat xs : List α} (h : pat <+: xs) : search pat xs = some 0 := by
  cases xs with
  | nil => rw [search, if_pos (List.prefix_nil.mp h)]
  | cons x xs => rw [search, if_pos h]

theorem search_cons {pat xs : List α} {x : α} (h : ¬ pat <+: x :: xs) :
    search pat (x :: xs) = (search pat xs).map (· + 1) := by
  rw [search, if_neg h]

/-- An occurrence lies within the sequence. -/
theorem prefix_drop_of_search {pat xs : List α} {i : ℕ} (h : search pat xs = some i) :
    pat <+: xs.drop i := by
  induction xs generalizing i with
  | nil =>
      rw [search] at h
      split at h
      next hnil => exact hnil ▸ List.nil_prefix
      · cases h
  | cons x xs ih =>
      rw [search] at h
      split at h
      next hpre =>
        obtain rfl := Option.some.inj h
        exact hpre
      next =>
        obtain ⟨j, hj, rfl⟩ := Option.map_eq_some_iff.mp h
        exact ih hj

theorem add_length_le_of_search {pat xs : List α} {i : ℕ} (hpat : pat ≠ [])
    (h : search pat xs = some i) : i + pat.length ≤ xs.length := by
  have hle := (prefix_drop_of_search h).length_le
  have hpos := List.length_pos_iff.mpr hpat
  rw [List.length_drop] at hle
  omega

/-- More input does not move the first occurrence. -/
theorem search_append {pat xs : List α} {i : ℕ} (hpat : pat ≠ []) (h : search pat xs = some i)
    (ys : List α) : search pat (xs ++ ys) = some i := by
  induction xs generalizing i with
  | nil =>
      rw [search, if_neg hpat] at h
      cases h
  | cons x xs ih =>
      by_cases hpre : pat <+: x :: xs
      · rw [search_eq_zero hpre] at h
        rw [← h]
        exact search_eq_zero (hpre.trans (List.prefix_append _ _))
      · rw [search_cons hpre] at h
        obtain ⟨j, hj, rfl⟩ := Option.map_eq_some_iff.mp h
        have hlen := add_length_le_of_search hpat hj
        -- the pattern fits into `x :: xs`, so the longer sequence has it at the same places
        have hnot : ¬ pat <+: x :: (xs ++ ys) := by
          intro hlong
          apply hpre
          rw [← List.cons_append] at hlong
          exact List.prefix_of_prefix_length_le hlong (List.prefix_append _ _)
            (by rw [List.length_cons]; omega)
        rw [List.cons_append, search_cons hnot, ih hj]
        rfl

/-- Cutting behind an occurrence keeps it the first. -/
theorem search_take {pat xs : List α} {i : ℕ} (hpat : pat ≠ []) (h : search pat xs = some i) :
    search pat (xs.take (i + pat.length)) = some i := by
  induction xs generalizing i with
  | nil =>
      rw [search, if_neg hpat] at h
      cases h
  | cons x xs ih =>
      by_cases hpre : pat <+: x :: xs
      · rw [search_eq_zero hpre] at h
        obtain rfl := Option.some.inj h
        refine search_eq_zero ?_
        rw [Nat.zero_add]
        exact List.prefix_take_iff.mpr ⟨hpre, Nat.le_refl _⟩
      · rw [search_cons hpre] at h
        obtain ⟨j, hj, rfl⟩ := Option.map_eq_some_iff.mp h
        rw [Nat.add_right_comm, List.take_succ_cons]
        have hnot : ¬ pat <+: x :: xs.take (j + pat.length) := by
          intro hshort
          refine hpre (hshort.trans ?_)
          exact List.cons_prefix_cons.mpr ⟨rfl, List.take_prefix _ _⟩
        rw [search_cons hnot, ih hj]
        rfl

/-- A pair of different elements cannot start inside what precedes it. -/
theorem search_pair {a b : α} (hne : a ≠ b) {xs : List α} (h : search [a, b] xs = none)
    (ys : List α) : search [a, b] (xs ++ a :: b :: ys) = some xs.length := by
  induction xs with
  | nil => exact search_eq_zero ⟨ys, rfl⟩
  | cons x xs ih =>
      have hpre : ¬ [a, b] <+: x :: xs := by
        intro hpre
        rw [search_eq_zero hpre] at h
        cases h
      rw [search_cons hpre, Option.map_eq_none_iff] at h
      have hnot : ¬ [a, b] <+: x :: (xs ++ a :: b :: ys) := by
        intro hlong
        obtain ⟨rfl, htail⟩ := List.cons_prefix_cons.mp hlong
        cases xs with
        | nil => exact hne (List.cons_prefix_cons.mp htail).1.symm
        | cons y ys' =>
            obtain ⟨rfl, -⟩ := List.cons_prefix_cons.mp htail
            exact hpre (List.cons_prefix_cons.mpr ⟨rfl, List.cons_prefix_cons.mpr
              ⟨rfl, List.nil_prefix⟩⟩)
      rw [List.cons_append, search_cons hnot, ih h]
      rfl

/-- Two sequences without the pair have it together only across the place where they meet. -/
theorem search_pair_append {a b : α} {xs ys : List α} (hx : search [a, b] xs = none)
    (hy : search [a, b] ys = none) (hmeet : xs.getLast? ≠ some a ∨ ys.head? ≠ some b) :
    search [a, b] (xs ++ ys) = none := by
  induction xs with
  | nil => exact hy
  | cons x xs ih =>
      have hpre : ¬ [a, b] <+: x :: xs := by
        intro hpre
        rw [search_eq_zero hpre] at hx
        cases hx
      rw [search_cons hpre, Option.map_eq_none_iff] at hx
      cases xs with
      | nil =>
          have hnot : ¬ [a, b] <+: x :: ys := by
            intro hlong
            obtain ⟨rfl, hhead⟩ := List.cons_prefix_cons.mp hlong
            cases ys with
            | nil => exact absurd (List.prefix_nil.mp hhead) (List.cons_ne_nil _ _)
            | cons y ys =>
                obtain ⟨rfl, -⟩ := List.cons_prefix_cons.mp hhead
                simp at hmeet
          rw [List.singleton_append, search_cons hnot, hy]
          rfl
      | cons y xs =>
          have hnot : ¬ [a, b] <+: x :: y :: (xs ++ ys) := by
            intro hlong
            obtain ⟨rfl, hhead⟩ := List.cons_prefix_cons.mp hlong
            obtain ⟨rfl, -⟩ := List.cons_prefix_cons.mp hhead
            exact hpre ⟨xs, rfl⟩
          rw [List.getLast?_cons_cons] at hmeet
          rw [List.cons_append, List.cons_append, search_cons hnot, ← List.cons_append, ih hx hmeet]
          rfl

/-- Nothing occurs before the first occurrence. -/
theorem search_take_eq_none {pat xs : List α} {i : ℕ} (hpat : pat ≠ [])
    (h : search pat xs = some i) : search pat (xs.take i) = none := by
  induction xs generalizing i with
  | nil =>
      rw [search, if_neg hpat] at h
      cases h
  | cons x xs ih =>
      by_cases hpre : pat <+: x :: xs
      · rw [search_eq_zero hpre] at h
        obtain rfl := Option.some.inj h
        rw [List.take_zero, search, if_neg hpat]
      · rw [search_cons hpre] at h
        obtain ⟨j, hj, rfl⟩ := Option.map_eq_some_iff.mp h
        rw [List.take_succ_cons]
        have hnot : ¬ pat <+: x :: xs.take j := by
          intro hshort
          refine hpre (hshort.trans ?_)
          exact List.cons_prefix_cons.mpr ⟨rfl, List.take_prefix _ _⟩
        rw [search_cons hnot, ih hj]
        rfl

/-- The sequence around its first occurrence. -/
theorem eq_append_of_search {pat xs : List α} {i : ℕ} (h : search pat xs = some i) :
    xs = xs.take i ++ (pat ++ xs.drop (i + pat.length)) := by
  obtain ⟨rest, hrest⟩ := prefix_drop_of_search h
  have hdrop : xs.drop (i + pat.length) = rest := by
    rw [← List.drop_drop, ← hrest, List.drop_left]
  rw [hdrop, hrest, List.take_append_drop]

/-- What occurs somewhere is found. -/
theorem isSome_search_of_infix {pat xs : List α} (h : pat <:+: xs) :
    (search pat xs).isSome = true := by
  induction xs with
  | nil => rw [search, if_pos (List.infix_nil.mp h), Option.isSome_some]
  | cons x xs ih =>
      rcases List.infix_cons_iff.mp h with hpre | hinfix
      · rw [search_eq_zero hpre, Option.isSome_some]
      · by_cases hpre : pat <+: x :: xs
        · rw [search_eq_zero hpre, Option.isSome_some]
        · rw [search_cons hpre, Option.isSome_map]
          exact ih hinfix

/-- Nothing before the pattern starts like it. -/
theorem search_append_self {a : α} {pat xs : List α} (h : a ∉ xs) (ys : List α) :
    search (a :: pat) (xs ++ (a :: pat ++ ys)) = some xs.length := by
  induction xs with
  | nil => exact search_eq_zero (List.prefix_append _ _)
  | cons x xs ih =>
      have hfirst : ¬ a :: pat <+: x :: (xs ++ (a :: pat ++ ys)) := by
        intro hpre
        exact h (List.mem_cons.mpr (.inl (List.cons_prefix_cons.mp hpre).1))
      rw [List.cons_append, search_cons hfirst, ih (mt (List.mem_cons_of_mem x) h)]
      rfl

/-! ### Places of elements -/

omit [DecidableEq α] in
/-- A property of all places in a list, by its head. -/
theorem forall_eq_append_cons_iff {P : List α → α → Prop} {x : α} {xs : List α} :
    (∀ before y behind, x :: xs = before ++ y :: behind → P before y) ↔
      P [] x ∧ ∀ before y behind, xs = before ++ y :: behind → P (x :: before) y := by
  constructor
  · intro h
    exact ⟨h [] x xs rfl, fun before y behind heq => h (x :: before) y behind (congrArg _ heq)⟩
  · rintro ⟨hhead, htail⟩ before y behind heq
    cases before with
    | nil => exact (List.cons.inj heq).1 ▸ hhead
    | cons b before =>
        obtain ⟨rfl, hxs⟩ := List.cons.inj heq
        exact htail before y behind hxs

omit [DecidableEq α] in
theorem exists_eq_append_last {a : α} {xs : List α} (h : a ∈ xs) :
    ∃ before behind, xs = before ++ a :: behind ∧ a ∉ behind := by
  obtain ⟨behind, before, hreverse, hnot⟩ := List.eq_append_cons_of_mem (List.mem_reverse.mpr h)
  refine ⟨before.reverse, behind.reverse, ?_, by simpa using hnot⟩
  rw [← List.reverse_reverse xs, hreverse]
  simp

/-! ### Cutting at a pattern -/

/-- The parts before and behind the first occurrence. -/
def cut (pat xs : List α) : Option (List α × List α) :=
  (search pat xs).map fun i => (xs.take i, xs.drop (i + pat.length))

theorem cut_append {a : α} {pat xs : List α} (h : a ∉ xs) (ys : List α) :
    cut (a :: pat) (xs ++ (a :: pat ++ ys)) = some (xs, ys) := by
  rw [cut, search_append_self h, Option.map_some, List.take_left, ← List.drop_drop, List.drop_left,
    List.drop_left]

theorem eq_append_of_cut {pat xs before behind : List α} (h : cut pat xs = some (before, behind)) :
    xs = before ++ (pat ++ behind) := by
  obtain ⟨i, hi, hparts⟩ := Option.map_eq_some_iff.mp h
  obtain ⟨rfl, rfl⟩ := Prod.mk.inj hparts
  exact eq_append_of_search hi

/-- At most `n` parts of a sequence, each with the pattern behind it. -/
def piecesAux (pat : List α) : ℕ → List α → List (List α)
  | 0, _ => []
  | n + 1, xs =>
      match search pat xs with
      | some i => xs.take i :: piecesAux pat n (xs.drop (i + pat.length))
      | none => []

/-- The parts of a sequence that have the pattern behind them, such as its complete lines. -/
def pieces (pat xs : List α) : List (List α) := piecesAux pat xs.length xs

theorem piecesAux_eq {pat xs : List α} (hpat : pat ≠ []) {n m : ℕ} (hn : xs.length ≤ n)
    (hm : xs.length ≤ m) : piecesAux pat n xs = piecesAux pat m xs := by
  have hempty : ∀ k, piecesAux pat k [] = [] := by
    intro k
    cases k with
    | zero => rfl
    | succ k => rw [piecesAux, search, if_neg hpat]
  induction n generalizing xs m with
  | zero =>
      obtain rfl := List.length_eq_zero_iff.mp (Nat.le_zero.mp hn)
      rw [hempty, hempty]
  | succ n ih =>
      cases m with
      | zero =>
          obtain rfl := List.length_eq_zero_iff.mp (Nat.le_zero.mp hm)
          rw [hempty, hempty]
      | succ m =>
          rw [piecesAux, piecesAux]
          cases hs : search pat xs with
          | none => rfl
          | some i =>
              have hlen := add_length_le_of_search hpat hs
              have hpos := List.length_pos_iff.mpr hpat
              have hn' : (xs.drop (i + pat.length)).length ≤ n := by
                rw [List.length_drop]
                omega
              have hm' : (xs.drop (i + pat.length)).length ≤ m := by
                rw [List.length_drop]
                omega
              exact congrArg (xs.take i :: ·) (ih hn' hm')

theorem pieces_of_search {pat xs : List α} {i : ℕ} (hpat : pat ≠ []) (h : search pat xs = some i) :
    pieces pat xs = xs.take i :: pieces pat (xs.drop (i + pat.length)) := by
  have hlen := add_length_le_of_search hpat h
  have hpos := List.length_pos_iff.mpr hpat
  obtain ⟨n, hn⟩ := Nat.exists_eq_add_of_lt (show 0 < xs.length by omega)
  rw [Nat.zero_add] at hn
  have hle : (xs.drop (i + pat.length)).length ≤ n := by
    rw [List.length_drop]
    omega
  rw [pieces, hn, piecesAux, h, pieces]
  exact congrArg (xs.take i :: ·) (piecesAux_eq hpat hle (Nat.le_refl _))

end Muduo.Library
