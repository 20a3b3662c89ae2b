import Mathlib.Data.List.Basic

/-! The segments of a sequence between separators. -/

namespace Muduo.Library

variable {α : Type*}

/-! ### Parts in their places -/

/-- `part` stands behind `before` in `xs`, and on both sides it goes as far as the next separator
or the end. -/
structure Part (sep : α) (xs before part behind : List α) : Prop where
  eq : xs = before ++ (part ++ behind)
  clean : sep ∉ part
  left : ∀ x ∈ before.getLast?, x = sep
  right : ∀ x ∈ behind.head?, x = sep

/-- A segment is a part that is not empty; it starts at `i`. -/
def SegmentAt (sep : α) (xs : List α) (i : ℕ) (segment : List α) : Prop :=
  segment ≠ [] ∧ ∃ before behind, Part sep xs before segment behind ∧ before.length = i

section Parts

variable {sep : α} {xs front rest before part behind : List α}

theorem getLast?_eq_of_not_mem (h : sep ∉ before) (hlast : ∀ x ∈ before.getLast?, x = sep) :
    before = [] := by
  cases hb : before.getLast? with
  | none => exact List.getLast?_eq_none_iff.mp hb
  | some x => exact absurd (hlast x hb ▸ List.mem_of_getLast? hb) h

theorem head?_eq_of_not_mem (h : sep ∉ behind) (hhead : ∀ x ∈ behind.head?, x = sep) :
    behind = [] := by
  cases hb : behind.head? with
  | none => exact List.head?_eq_none_iff.mp hb
  | some x => exact absurd (hhead x hb ▸ List.mem_of_head? hb) h

/-- Without separators there is one part. -/
theorem part_of_not_mem (h : sep ∉ xs) :
    Part sep xs before part behind ↔ before = [] ∧ part = xs ∧ behind = [] := by
  constructor
  · intro hp
    have hmem : sep ∉ before ∧ sep ∉ part ∧ sep ∉ behind := by
      rw [hp.eq, List.mem_append, List.mem_append, not_or, not_or] at h
      exact h
    have hbefore := getLast?_eq_of_not_mem hmem.1 hp.left
    have hbehind := head?_eq_of_not_mem hmem.2.2 hp.right
    refine ⟨hbefore, ?_, hbehind⟩
    rw [hp.eq, hbefore, hbehind, List.nil_append, List.append_nil]
  · rintro ⟨rfl, rfl, rfl⟩
    exact ⟨by simp, h, by simp, by simp⟩

/-- The part in front of the first separator. -/
theorem Part.eq_front (h : sep ∉ front) (hp : Part sep (front ++ sep :: rest) [] part behind) :
    part = front ∧ behind = sep :: rest := by
  have heq := hp.eq
  rw [List.nil_append] at heq
  rcases List.append_eq_append_iff.mp heq with ⟨as, rfl, has⟩ | ⟨bs, rfl, hbs⟩
  · -- a longer part would have the separator in it
    cases as with
    | nil => exact ⟨List.append_nil front, has.symm⟩
    | cons a as =>
        obtain ⟨rfl, -⟩ := List.cons.inj has
        exact absurd (List.mem_append_right front List.mem_cons_self) hp.clean
  · have hclean : sep ∉ bs := fun hmem => h (List.mem_append_right part hmem)
    have hright : ∀ x ∈ bs.head?, x = sep := by
      intro x hx
      refine hp.right x ?_
      rw [hbs, List.head?_append, hx]
      rfl
    obtain rfl := head?_eq_of_not_mem hclean hright
    exact ⟨(List.append_nil part).symm, hbs⟩

/-- The parts behind the first separator are those of what follows it. -/
theorem Part.of_ne_nil (h : sep ∉ front) (hne : before ≠ [])
    (hp : Part sep (front ++ sep :: rest) before part behind) :
    ∃ before', before = front ++ sep :: before' ∧ Part sep rest before' part behind := by
  rcases List.append_eq_append_iff.mp hp.eq with ⟨as, rfl, has⟩ | ⟨bs, rfl, hbs⟩
  · cases as with
    | nil =>
        rw [List.append_nil] at hne hp
        exact absurd (getLast?_eq_of_not_mem h hp.left) hne
    | cons a as =>
        obtain ⟨rfl, hrest⟩ := List.cons.inj has
        refine ⟨as, rfl, hrest, hp.clean, fun x hx => hp.left x ?_, hp.right⟩
        rw [List.getLast?_append, List.getLast?_cons, hx]
        rfl
  · have hclean : sep ∉ before := fun hmem => h (List.mem_append_left bs hmem)
    exact absurd (getLast?_eq_of_not_mem hclean hp.left) hne

theorem part_append_cons (h : sep ∉ front) :
    Part sep (front ++ sep :: rest) before part behind ↔
      before = [] ∧ part = front ∧ behind = sep :: rest ∨
        ∃ before', before = front ++ sep :: before' ∧ Part sep rest before' part behind := by
  constructor
  · intro hp
    cases before with
    | nil => exact .inl ⟨rfl, hp.eq_front h⟩
    | cons x before => exact .inr (hp.of_ne_nil h (List.cons_ne_nil x before))
  · rintro (⟨rfl, rfl, rfl⟩ | ⟨before', rfl, hp⟩)
    · exact ⟨rfl, h, by simp, by simp⟩
    · refine ⟨by rw [hp.eq]; simp, hp.clean, ?_, hp.right⟩
      intro x hx
      rw [List.getLast?_append, List.getLast?_cons, Option.some_or] at hx
      cases hlast : before'.getLast? with
      | none =>
          rw [hlast] at hx
          exact (Option.some.inj hx).symm
      | some y =>
          rw [hlast] at hx
          exact hp.left x (hlast.trans hx)

end Parts

/-- A sequence without separators, or what stands before the first one and what follows it. -/
theorem separated_induction [DecidableEq α] (sep : α) {P : List α → Prop}
    (last : ∀ xs, sep ∉ xs → P xs)
    (step : ∀ front rest, sep ∉ front → P rest → P (front ++ sep :: rest)) (xs : List α) :
    P xs := by
  induction hn : xs.length using Nat.strongRecOn generalizing xs with
  | ind n ih =>
      by_cases hmem : sep ∈ xs
      · obtain ⟨front, rest, rfl, hfront⟩ := List.eq_append_cons_of_mem hmem
        refine step front rest hfront (ih rest.length ?_ rest rfl)
        rw [← hn, List.length_append, List.length_cons]
        omega
      · exact last xs hmem

/-! ### All segments, in order -/

/-- The parts with the places where they start, one separator behind each. -/
def placed : ℕ → List (List α) → List (ℕ × List α)
  | _, [] => []
  | i, part :: parts => (i, part) :: placed (i + part.length + 1) parts

theorem map_placed (i : ℕ) (parts : List (List α)) : (placed i parts).map Prod.snd = parts := by
  induction parts generalizing i with
  | nil => rfl
  | cons part parts ih => rw [placed, List.map_cons, ih]

theorem le_of_mem_placed {i : ℕ} {parts : List (List α)} {e : ℕ × List α}
    (h : e ∈ placed i parts) : i ≤ e.1 := by
  induction parts generalizing i with
  | nil => cases h
  | cons part parts ih =>
      rcases List.mem_cons.mp h with rfl | h
      · exact Nat.le_refl i
      · have hle := ih h
        omega

theorem placed_pairwise (i : ℕ) (parts : List (List α)) :
    (placed i parts).Pairwise fun e f => e.1 < f.1 := by
  induction parts generalizing i with
  | nil => exact .nil
  | cons part parts ih =>
      refine .cons (fun e he => ?_) (ih _)
      have hle := le_of_mem_placed he
      change i < e.1
      omega

section Segments

variable [DecidableEq α] {sep : α}

/-- The parts that are not empty. -/
def segments (sep : α) (xs : List α) : List (List α) := (xs.splitOn sep).filter fun s => !s.isEmpty

theorem segments_append_cons (xs ys : List α) :
    segments sep (xs ++ sep :: ys) = segments sep xs ++ segments sep ys := by
  rw [segments, List.splitOn_append_cons_self, List.filter_append]
  rfl

theorem segments_nil : segments sep [] = [] := rfl

theorem segments_of_not_mem {xs : List α} (h : sep ∉ xs) (hne : xs ≠ []) :
    segments sep xs = [xs] := by
  rw [segments, List.splitOn_eq_singleton h]
  simp [hne]

theorem mem_placed_splitOn {i j : ℕ} {xs part : List α} :
    (j, part) ∈ placed i (xs.splitOn sep) ↔
      ∃ before behind, Part sep xs before part behind ∧ j = i + before.length := by
  induction xs using separated_induction sep generalizing i with
  | last xs h =>
      simp only [List.splitOn_eq_singleton h, placed, List.mem_singleton, Prod.mk.injEq,
        part_of_not_mem h]
      constructor
      · rintro ⟨rfl, rfl⟩
        exact ⟨[], [], ⟨rfl, rfl, rfl⟩, rfl⟩
      · rintro ⟨before, behind, ⟨rfl, rfl, rfl⟩, rfl⟩
        exact ⟨rfl, rfl⟩
  | step front rest h ih =>
      simp only [List.splitOn_append_cons_self_of_not_mem h, placed, List.mem_cons, Prod.mk.injEq,
        ih, part_append_cons h]
      constructor
      · rintro (⟨rfl, rfl⟩ | ⟨before, behind, hp, rfl⟩)
        · exact ⟨[], _, .inl ⟨rfl, rfl, rfl⟩, rfl⟩
        · refine ⟨_, behind, .inr ⟨before, rfl, hp⟩, ?_⟩
          rw [List.length_append, List.length_cons]
          omega
      · rintro ⟨_, behind, ⟨rfl, rfl, rfl⟩ | ⟨before, rfl, hp⟩, rfl⟩
        · exact .inl ⟨rfl, rfl⟩
        · refine .inr ⟨before, behind, hp, ?_⟩
          rw [List.length_append, List.length_cons]
          omega

/-- `segments` has every segment, each once and in the order of their places. -/
theorem segments_exact (sep : α) (xs : List α) :
    ∃ found : List (ℕ × List α), segments sep xs = found.map Prod.snd ∧
      found.Pairwise (fun e f => e.1 < f.1) ∧
      ∀ i segment, (i, segment) ∈ found ↔ SegmentAt sep xs i segment := by
  refine ⟨(placed 0 (xs.splitOn sep)).filter ((fun s => !s.isEmpty) ∘ Prod.snd), ?_, ?_, ?_⟩
  · rw [← List.filter_map, map_placed, segments]
  · exact (placed_pairwise 0 _).filter _
  · intro i segment
    rw [List.mem_filter, mem_placed_splitOn, SegmentAt, and_comm]
    refine and_congr (by simp) ?_
    simp only [Nat.zero_add, eq_comm]

theorem mem_segments {xs segment : List α} (h : segment ∈ segments sep xs) :
    segment ≠ [] ∧ sep ∉ segment := by
  obtain ⟨found, heq, -, hfound⟩ := segments_exact sep xs
  rw [heq] at h
  obtain ⟨⟨i, s⟩, hmem, rfl⟩ := List.mem_map.mp h
  obtain ⟨hne, before, behind, hp, -⟩ := (hfound i s).mp hmem
  exact ⟨hne, hp.clean⟩

/-- Segments that are joined come apart again. -/
theorem segments_intercalate {parts : List (List α)} (h : ∀ s ∈ parts, s ≠ [] ∧ sep ∉ s) :
    segments sep ([sep].intercalate parts) = parts := by
  by_cases hne : parts = []
  · rw [hne, List.intercalate_nil, segments_nil]
  · rw [segments, List.splitOn_intercalate sep (fun s hs => (h s hs).2) hne]
    refine List.filter_eq_self.mpr fun s hs => ?_
    simp [(h s hs).1]

end Segments

end Muduo.Library
