import Muduo.Library.Segments
import Muduo.Net.Inspect.Inspector

/-! The inspector splits a path exactly into its segments. -/

namespace Muduo.Net.Inspector

open Library

/-! ### Slashes -/

theorem find_of_not_mem {str : List UInt8} {c : UInt8} {pos : ℕ} (h : c ∉ str.drop pos) :
    find str c pos = none := by
  cases hs : search [c] (str.drop pos) with
  | none => rw [find, hs, Option.map_none]
  | some i =>
      have hpre := prefix_drop_of_search hs
      have hmem : c ∈ (str.drop pos).drop i := hpre.subset List.mem_cons_self
      exact absurd (List.mem_of_mem_drop hmem) h

theorem find_append {str front rest : List UInt8} {c : UInt8} {pos : ℕ} (h : c ∉ front)
    (hdrop : str.drop pos = front ++ c :: rest) : find str c pos = some (pos + front.length) := by
  have hs : search [c] (front ++ c :: rest) = some front.length := search_append_self h rest
  rw [find, hdrop, hs, Option.map_some]

/-! ### The loop -/

/-- The segments of what has been passed are in `result`. -/
structure Splitting (str : List UInt8) (s : Split) : Prop where
  start_le : s.start ≤ str.length
  pos_eq : s.pos = find str 47 s.start
  result_append : s.result ++ segments 47 (str.drop s.start) = segments 47 str

/-- A part between slashes is stored if it is a segment. -/
theorem pushBack_eq {str part : List UInt8} {s : Split} {cond : Bool} {n : Option ℕ}
    (hstart : s.start ≤ str.length) (hpart : (str.drop s.start).take (n.getD str.length) = part)
    (hclean : 47 ∉ part) (hcond : cond = true ↔ part ≠ []) :
    pushBack str s cond n = .ok { s with result := s.result ++ segments 47 part } := by
  unfold pushBack
  by_cases hne : part = []
  · have hfalse : ¬ cond = true := fun h => hcond.mp h hne
    rw [if_neg hfalse, hne, segments_nil, List.append_nil]
  · rw [if_pos (hcond.mpr hne), segments_of_not_mem hclean hne]
    simp only [substr, ensure_of _ hstart, ok_bind, hpart]
    rfl

theorem Splitting.round {str : List UInt8} {s : Split} (h : Splitting str s) (hpos : s.pos ≠ none) :
    ∃ s', splitRound str s = .ok s' ∧ Splitting str s' ∧
      str.length - s'.start < str.length - s.start := by
  have hmem : 47 ∈ str.drop s.start := by
    by_contra hnot
    exact hpos (h.pos_eq.trans (find_of_not_mem hnot))
  obtain ⟨front, rest, hdrop, hfront⟩ := List.eq_append_cons_of_mem hmem
  have hfind : s.pos = some (s.start + front.length) := h.pos_eq.trans (find_append hfront hdrop)
  have hpart : (str.drop s.start).take
      ((some (s.start + front.length - s.start)).getD str.length) = front := by
    rw [Option.getD_some, Nat.add_sub_cancel_left, hdrop, List.take_left]
  have hcond : decide (s.start < s.start + front.length) = true ↔ front ≠ [] := by
    rw [decide_eq_true_iff, Nat.lt_add_right_iff_pos, List.length_pos_iff]
  have hrest : str.drop (s.start + front.length + 1) = rest := by
    rw [Nat.add_assoc, ← List.drop_drop, hdrop, ← List.drop_drop, List.drop_left]
    rfl
  have hlength : str.length - s.start = front.length + (rest.length + 1) := by
    rw [← List.length_drop, hdrop, List.length_append, List.length_cons]
  refine ⟨⟨s.result ++ segments 47 front, s.start + front.length + 1,
    find str 47 (s.start + front.length + 1)⟩, ?_, ⟨?_, rfl, ?_⟩, ?_⟩
  · simp only [splitRound, hfind, pushBack_eq h.start_le hpart hfront hcond, ok_bind]
    rfl
  · change s.start + front.length + 1 ≤ str.length
    omega
  · -- what was left is the part in front of the slash and what is left now
    rw [← h.result_append, hdrop, segments_append_cons, hrest, List.append_assoc]
  · change str.length - (s.start + front.length + 1) < str.length - s.start
    omega

theorem split_eq (str : List UInt8) : split str = .ok (segments 47 str) := by
  have hinit : Splitting str ⟨[], 0, find str 47 0⟩ := ⟨Nat.zero_le _, rfl, rfl⟩
  obtain ⟨s, hloop, hs, hend⟩ := boundedLoop_rule Fault.diverges
    (fun s : Split => str.length - s.start) (fun s => Splitting.round) hinit
    (Nat.lt_succ_of_le (Nat.sub_le _ _))
  have hlast : 47 ∉ str.drop s.start := by
    intro hmem
    obtain ⟨front, rest, hdrop, hfront⟩ := List.eq_append_cons_of_mem hmem
    refine hend ?_
    rw [hs.pos_eq, find_append hfront hdrop]
    exact Option.some_ne_none _
  have hpart : (str.drop s.start).take ((none : Option ℕ).getD str.length) = str.drop s.start := by
    refine List.take_of_length_le ?_
    rw [List.length_drop]
    exact Nat.sub_le _ _
  have hcond : decide (s.start < str.length) = true ↔ str.drop s.start ≠ [] := by
    rw [decide_eq_true_iff, ne_eq, List.drop_eq_nil_iff, Nat.not_le]
  rw [split, hloop, ok_bind, pushBack_eq hs.start_le hpart hlast hcond, ok_bind]
  exact congrArg Except.ok hs.result_append

/-! ### Paths -/

/-- The result has the segments of the path, each once and in their order. Slashes at both ends and
behind one another do not change it, and neither does joining the segments again. -/
theorem split_exact (str : List UInt8) :
    ∃ result, split str = .ok result ∧
      (∃ found : List (ℕ × List UInt8), result = found.map Prod.snd ∧
        found.Pairwise (fun e f => e.1 < f.1) ∧
        ∀ i segment, (i, segment) ∈ found ↔ SegmentAt 47 str i segment) ∧
      (∀ segment ∈ result, segment ≠ [] ∧ 47 ∉ segment) ∧
      split (47 :: str) = .ok result ∧ split (str ++ [47]) = .ok result ∧
      (∀ front behind, str = front ++ 47 :: behind →
        split (front ++ 47 :: 47 :: behind) = .ok result) ∧
      split ([47].intercalate result) = .ok result := by
  simp only [split_eq, Except.ok.injEq]
  refine ⟨_, rfl, segments_exact 47 str, fun _ => mem_segments, ?_, ?_, ?_,
    segments_intercalate fun _ => mem_segments⟩
  · exact segments_append_cons [] str
  · rw [segments_append_cons, segments_nil, List.append_nil]
  · rintro front behind rfl
    have hslash : segments 47 (47 :: behind) = segments 47 behind := segments_append_cons [] behind
    rw [segments_append_cons, hslash, segments_append_cons]

example : split (ascii "//proc//pid/") = .ok [ascii "proc", ascii "pid"] := by decide +kernel

end Muduo.Net.Inspector
