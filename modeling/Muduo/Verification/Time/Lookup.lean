import Muduo.Base.TimeZone

/-! Which local-time type `findLocaltime` finds. -/

namespace Muduo.Base.TimeZone

open Library

/-- The time of a transition that is compared. -/
def Comp.key (comp : Comp) (t : Transition) : ℤ :=
  if comp.compareGmt then t.gmttime else t.localtime

theorem Comp.less_eq (comp : Comp) (s t : Transition) :
    comp.less s t = decide (comp.key s < comp.key t) := by
  cases comp with
  | mk compareGmt => cases compareGmt <;> rfl

theorem Comp.less_iff {comp : Comp} {s t : Transition} :
    comp.less s t = true ↔ comp.key s < comp.key t := by
  rw [Comp.less_eq, decide_eq_true_eq]

theorem Comp.equal_eq (comp : Comp) (s t : Transition) :
    comp.equal s t = decide (comp.key s = comp.key t) := by
  cases comp with
  | mk compareGmt => cases compareGmt <;> rfl

namespace Data

variable {data : Data}

/-- The type in force after the first `k` transitions. -/
def typeAfter (data : Data) : ℕ → Except Fault Localtime
  | 0 => data.localtimeAt 0
  | k + 1 => do
      let transition ← data.transitionAt k
      data.localtimeAt transition.localtimeIdx

theorem transitionAt_of {i : ℕ} {t : Transition} (h : data.transitions[i]? = some t) :
    data.transitionAt i = .ok t := by
  rw [transitionAt, h]

theorem localtimeAt_of {i : ℕ} {l : Localtime} (h : data.localtimes[i]? = some l) :
    data.localtimeAt i = .ok l := by
  rw [localtimeAt, h]

theorem typeAfter_succ {k : ℕ} {t : Transition} (h : data.transitions[k]? = some t) :
    data.typeAfter (k + 1) = data.localtimeAt t.localtimeIdx := by
  rw [typeAfter, transitionAt_of h, ok_bind]

end Data

/-- At the time `x` the first `k` transitions have come, as far as the two next to it show. -/
structure Position (data : Data) (comp : Comp) (x : ℤ) (k : ℕ) : Prop where
  le : k ≤ data.transitions.length
  past : ∀ j t, k = j + 1 → data.transitions[j]? = some t → comp.key t ≤ x
  ahead : ∀ t, data.transitions[k]? = some t → x < comp.key t

/-- The transitions in ascending order. -/
def Ascending (data : Data) (comp : Comp) : Prop :=
  data.transitions.Pairwise fun s t => comp.key s < comp.key t

theorem Ascending.lt {data : Data} {comp : Comp} (h : Ascending data comp) {i j : ℕ}
    {s t : Transition} (hs : data.transitions[i]? = some s) (ht : data.transitions[j]? = some t)
    (hij : i < j) : comp.key s < comp.key t := by
  obtain ⟨hi, rfl⟩ := List.getElem?_eq_some_iff.mp hs
  obtain ⟨hj, rfl⟩ := List.getElem?_eq_some_iff.mp ht
  exact List.pairwise_iff_getElem.mp h i j hi hj hij

theorem Position.unique {data : Data} {comp : Comp} {x : ℤ} {k k' : ℕ}
    (hsorted : Ascending data comp) (h : Position data comp x k) (h' : Position data comp x k') :
    k = k' := by
  -- of two different positions the later has passed a transition that the earlier has ahead
  have hle : ∀ {k k' : ℕ}, Position data comp x k → Position data comp x k' → k' ≤ k := by
    intro k k' h h'
    by_contra hlt
    obtain ⟨j, rfl⟩ : ∃ j, k' = j + 1 := ⟨k' - 1, by omega⟩
    have hj : j < data.transitions.length := h'.le
    have hk : k < data.transitions.length := by omega
    have hpast := h'.past j _ rfl (List.getElem?_eq_getElem hj)
    have hahead := h.ahead _ (List.getElem?_eq_getElem hk)
    rcases Nat.eq_or_lt_of_le (show k ≤ j by omega) with rfl | hlt
    · omega
    · have hmono := hsorted.lt (List.getElem?_eq_getElem hk) (List.getElem?_eq_getElem hj) hlt
      omega
  exact Nat.le_antisymm (hle h' h) (hle h h')

/-! ### The search -/

section Search

variable {data : Data} {sentry : Transition} {comp : Comp} {i : ℕ} {t : Transition}

/-- The transition in front of the place that is found has come. -/
theorem key_lt_of_before {j : ℕ} (hi : lowerBound data.transitions (comp.less · sentry) = j + 1)
    (ht : data.transitions[j]? = some t) : comp.key t < comp.key sentry := by
  obtain ⟨u, hu, hbefore⟩ :=
    before_lowerBound_pred data.transitions (comp.less · sentry) (by omega)
  rw [hi, Nat.add_sub_cancel, ht] at hu
  obtain rfl := Option.some.inj hu
  exact Comp.less_iff.mp hbefore

/-- The transition at this place comes later or just now. -/
theorem key_le_at (hi : lowerBound data.transitions (comp.less · sentry) = i)
    (ht : data.transitions[i]? = some t) : comp.key sentry ≤ comp.key t := by
  have hnot := not_before_lowerBound data.transitions (comp.less · sentry) (hi.symm ▸ ht)
  refine Int.not_lt.mp fun hlt => ?_
  rw [Comp.less_iff.mpr hlt] at hnot
  cases hnot

/-- No transition has come. -/
theorem position_front (hfront : data.transitions.head?.all (comp.less sentry ·) = true) :
    Position data comp (comp.key sentry) 0 := by
  refine ⟨Nat.zero_le _, fun j t hj => by omega, fun t ht => ?_⟩
  rw [← List.head?_eq_getElem?] at ht
  rw [ht] at hfront
  exact Comp.less_iff.mp hfront

/-- A transition comes just now. -/
theorem findLocaltime_at (hfront : ¬ data.transitions.head?.all (comp.less sentry ·) = true)
    (hi : lowerBound data.transitions (comp.less · sentry) = i)
    (ht : data.transitions[i]? = some t) (heq : comp.key sentry = comp.key t) :
    findLocaltime data sentry comp = data.typeAfter (i + 1) := by
  have hlt : i < data.transitions.length := (List.getElem?_eq_some_iff.mp ht).1
  rw [findLocaltime, if_neg hfront]
  simp only [hi]
  rw [if_pos (Nat.ne_of_lt hlt), Data.transitionAt_of ht, ok_bind, Comp.equal_eq,
    if_neg (by simpa using heq), Data.typeAfter_succ ht]

/-- No transition comes just now. The front is tested before, so there is one that has come. -/
theorem findLocaltime_before (hfront : ¬ data.transitions.head?.all (comp.less sentry ·) = true)
    (hi : lowerBound data.transitions (comp.less · sentry) = i)
    (hnone : ∀ t, data.transitions[i]? = some t → comp.key sentry < comp.key t) :
    findLocaltime data sentry comp = data.typeAfter i := by
  have hle : i ≤ data.transitions.length := hi ▸ (lowerBound_spec _ _).1
  have hpos : i ≠ 0 := by
    rintro rfl
    refine hfront ?_
    rw [List.head?_eq_getElem?]
    cases hhead : data.transitions[0]? with
    | none => rfl
    | some t => exact Comp.less_iff.mpr (hnone t hhead)
  obtain ⟨j, rfl⟩ : ∃ j, i = j + 1 := ⟨i - 1, by omega⟩
  rw [findLocaltime, if_neg hfront]
  simp only [hi]
  by_cases hend : j + 1 = data.transitions.length
  · rw [if_neg (not_not_intro hend), ← hend]
    rfl
  · have hlt : j + 1 < data.transitions.length := Nat.lt_of_le_of_ne hle hend
    have ht := List.getElem?_eq_getElem hlt
    rw [if_pos hend, Data.transitionAt_of ht, ok_bind, Comp.equal_eq,
      if_pos (by simpa using (hnone _ ht).ne), ensure_of _ hpos, ok_bind]
    rfl

end Search

/-- On any transitions the search finds the type after some of them. -/
theorem findLocaltime_typeAfter (data : Data) (sentry : Transition) (comp : Comp) :
    ∃ k, k ≤ data.transitions.length ∧ findLocaltime data sentry comp = data.typeAfter k ∧
      (Ascending data comp → Position data comp (comp.key sentry) k) := by
  by_cases hfront : data.transitions.head?.all (comp.less sentry ·) = true
  · refine ⟨0, Nat.zero_le _, ?_, fun _ => position_front hfront⟩
    rw [findLocaltime, if_pos hfront, Data.typeAfter]
  · obtain ⟨i, hi⟩ : ∃ i, lowerBound data.transitions (comp.less · sentry) = i := ⟨_, rfl⟩
    have hle : i ≤ data.transitions.length := hi ▸ (lowerBound_spec _ _).1
    by_cases hnow : ∃ t, data.transitions[i]? = some t ∧ comp.key sentry = comp.key t
    · obtain ⟨t, ht, heq⟩ := hnow
      have hlt : i < data.transitions.length := (List.getElem?_eq_some_iff.mp ht).1
      refine ⟨i + 1, hlt, findLocaltime_at hfront hi ht heq, fun hsorted => ⟨hlt, ?_, ?_⟩⟩
      · intro j u hj hu
        obtain rfl : i = j := Nat.succ.inj hj
        rw [ht] at hu
        obtain rfl := Option.some.inj hu
        exact heq.ge
      · intro u hu
        exact heq ▸ hsorted.lt ht hu (Nat.lt_succ_self i)
    · have hnone : ∀ t, data.transitions[i]? = some t → comp.key sentry < comp.key t :=
        fun t ht => lt_of_le_of_ne (key_le_at hi ht) fun heq => hnow ⟨t, ht, heq⟩
      refine ⟨i, hle, findLocaltime_before hfront hi hnone, fun _ => ⟨hle, ?_, hnone⟩⟩
      rintro j t rfl ht
      exact (key_lt_of_before hi ht).le

/-- On ascending transitions it is the type after those that have come. -/
theorem findLocaltime_of_position {data : Data} {comp : Comp} {k : ℕ}
    (hsorted : Ascending data comp) (sentry : Transition)
    (h : Position data comp (comp.key sentry) k) :
    findLocaltime data sentry comp = data.typeAfter k := by
  obtain ⟨k', -, heq, hpos⟩ := findLocaltime_typeAfter data sentry comp
  rw [heq, Position.unique hsorted h (hpos hsorted)]

end Muduo.Base.TimeZone
