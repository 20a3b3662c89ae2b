import Mathlib.Logic.Function.Basic
import Mathlib.Data.List.Basic

/-! The descriptors of a process. Resources are numbered in the order in which they are
created; a descriptor is a name for one of them, and may name another one after it has been
closed. The program under study closes its resources or hands them over. -/

namespace Muduo.Library

/-- `closed` and `handed` list the resources that the program has closed and handed over;
`stray` counts its attempts to do so with a descriptor that names nothing. -/
structure Descriptors (δ : Type) where
  names : δ → Option ℕ
  created : ℕ
  closed : List ℕ
  handed : List ℕ
  stray : ℕ

namespace Descriptors

variable {δ : Type}

def empty : Descriptors δ := ⟨fun _ => none, 0, [], [], 0⟩

/-- The resource belongs to another party from now on, under the same descriptor. -/
def hand (d : Descriptors δ) (fd : δ) : Descriptors δ :=
  match d.names fd with
  | some i => { d with handed := d.handed ++ [i] }
  | none => { d with stray := d.stray + 1 }

section Naming

variable [DecidableEq δ]

def create (d : Descriptors δ) (fd : δ) : Descriptors δ :=
  { d with names := Function.update d.names fd (some d.created), created := d.created + 1 }

def close (d : Descriptors δ) (fd : δ) : Descriptors δ :=
  match d.names fd with
  | some i => { d with names := Function.update d.names fd none, closed := d.closed ++ [i] }
  | none => { d with stray := d.stray + 1 }

/-- The other party closes what it was given. -/
def drop (d : Descriptors δ) (fd : δ) : Descriptors δ :=
  { d with names := Function.update d.names fd none }

@[simp] theorem close_handed (d : Descriptors δ) (fd : δ) : (d.close fd).handed = d.handed := by
  cases h : d.names fd <;> simp [close, h]

end Naming

/-- The program owns the resources `owned`, each under its descriptor. What was created is
owned, closed or handed over: one of them, and once. -/
structure Sound (d : Descriptors δ) (owned : List (δ × ℕ)) : Prop where
  fate : ∀ i, (owned.map Prod.snd).count i + d.closed.count i + d.handed.count i =
    if i < d.created then 1 else 0
  owned : ∀ p ∈ owned, d.names p.1 = some p.2
  named : ∀ fd i, d.names fd = some i → i < d.created
  unique : ∀ fd fd' i, d.names fd = some i → d.names fd' = some i → fd = fd'
  stray : d.stray = 0

variable {d : Descriptors δ} {owned : List (δ × ℕ)} {fd : δ} {i : ℕ}

theorem sound_empty : (empty : Descriptors δ).Sound [] where
  fate i := by simp [empty]
  owned p hp := by cases hp
  named fd i h := by cases h
  unique fd fd' i h := by cases h
  stray := rfl

/-- A resource that has been handed over is not owned. -/
theorem Sound.ne_of_handed (h : d.Sound owned) (hi : i ∈ d.handed) {p : δ × ℕ} (hp : p ∈ owned) :
    p.2 ≠ i := by
  rintro rfl
  have hfate := h.fate p.2
  have howned := List.count_pos_iff.mpr (List.mem_map_of_mem hp : p.2 ∈ owned.map Prod.snd)
  have hhanded := List.count_pos_iff.mpr hi
  split at hfate <;> omega

/-- What is owned besides `i` is not `i`. -/
theorem Sound.ne_of_mem (h : d.Sound ((fd, i) :: owned)) {p : δ × ℕ} (hp : p ∈ owned) :
    p.2 ≠ i := by
  rintro rfl
  have hfate := h.fate p.2
  have howned := List.count_pos_iff.mpr (List.mem_map_of_mem hp : p.2 ∈ owned.map Prod.snd)
  rw [List.map_cons, List.count_cons_self] at hfate
  split at hfate <;> omega

theorem Sound.hand (h : d.Sound ((fd, i) :: owned)) : (d.hand fd).Sound owned := by
  have hi : d.names fd = some i := h.owned _ List.mem_cons_self
  rw [Descriptors.hand, hi]
  refine ⟨fun j => ?_, fun p hp => h.owned p (List.mem_cons_of_mem _ hp), h.named, h.unique,
    h.stray⟩
  have hfate := h.fate j
  simp only [List.map_cons, List.count_cons, List.count_append, List.count_nil] at hfate ⊢
  omega

variable [DecidableEq δ]

/-- A descriptor that is taken away named no other resource. -/
theorem names_update_of_ne (hi : d.names fd = some i) {fd' : δ} {j : ℕ}
    (hj : d.names fd' = some j) (hne : j ≠ i) : Function.update d.names fd none fd' = some j := by
  rw [Function.update_of_ne, hj]
  rintro rfl
  exact hne (Option.some.inj (hj.symm.trans hi))

theorem names_of_update {fd' : δ} {j : ℕ}
    (h : Function.update d.names fd none fd' = some j) : d.names fd' = some j := by
  by_cases heq : fd' = fd
  · subst heq
    simp at h
  · rwa [Function.update_of_ne heq] at h

theorem Sound.create (h : d.Sound owned) (hfd : d.names fd = none) :
    (d.create fd).Sound ((fd, d.created) :: owned) where
  fate i := by
    have hfate := h.fate i
    show ((d.created :: owned.map Prod.snd).count i + d.closed.count i + d.handed.count i =
      if i < d.created + 1 then 1 else 0)
    rw [List.count_cons]
    by_cases hi : d.created = i
    · subst hi
      rw [if_neg (Nat.lt_irrefl _)] at hfate
      simp
      omega
    · rw [if_neg (by simpa using hi)]
      split at hfate <;> split <;> omega
  owned p hp := by
    rcases List.mem_cons.mp hp with rfl | hp
    · exact Function.update_self ..
    · have hname := h.owned p hp
      refine (Function.update_of_ne ?_ ..).trans hname
      rintro rfl
      rw [hfd] at hname
      cases hname
  named fd' i hi := by
    by_cases heq : fd' = fd
    · subst heq
      obtain rfl : d.created = i := by simpa [Descriptors.create] using hi
      exact Nat.lt_succ_self _
    · exact Nat.lt_succ_of_lt (h.named fd' i (by simpa [Descriptors.create, heq] using hi))
  unique f g i hf hg := by
    simp only [Descriptors.create, Function.update_apply] at hf hg
    split at hf <;> split at hg
    · next hf' hg' => rw [hf', hg']
    · obtain rfl := Option.some.inj hf
      exact absurd (h.named g d.created hg) (Nat.lt_irrefl _)
    · obtain rfl := Option.some.inj hg
      exact absurd (h.named f d.created hf) (Nat.lt_irrefl _)
    · exact h.unique f g i hf hg
  stray := h.stray

theorem Sound.close (h : d.Sound ((fd, i) :: owned)) : (d.close fd).Sound owned := by
  have hi : d.names fd = some i := h.owned _ List.mem_cons_self
  rw [Descriptors.close, hi]
  refine ⟨fun j => ?_, fun p hp => ?_, fun fd' j hj => h.named fd' j (names_of_update hj),
    fun f g j hf hg => h.unique f g j (names_of_update hf) (names_of_update hg), h.stray⟩
  · have hfate := h.fate j
    simp only [List.map_cons, List.count_cons, List.count_append, List.count_nil] at hfate ⊢
    omega
  · exact names_update_of_ne hi (h.owned p (List.mem_cons_of_mem _ hp)) (h.ne_of_mem hp)

theorem Sound.drop (h : d.Sound owned) (hi : d.names fd = some i) (hhanded : i ∈ d.handed) :
    (d.drop fd).Sound owned where
  fate := h.fate
  owned p hp := names_update_of_ne hi (h.owned p hp) (h.ne_of_handed hhanded hp)
  named fd' j hj := h.named fd' j (names_of_update hj)
  unique f g j hf hg := h.unique f g j (names_of_update hf) (names_of_update hg)
  stray := h.stray

end Descriptors

end Muduo.Library
