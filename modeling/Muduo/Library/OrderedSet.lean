import Mathlib.Data.Set.Card

/-! Ordered sets, as `std::set` keeps them: the elements in ascending order. -/

namespace Muduo.Library

universe u v

/-- The elements in ascending order, each once. -/
structure OrderedSet (α : Type u) [LinearOrder α] where
  elems : List α
  sorted : elems.Pairwise (· < ·)

namespace OrderedSet

variable {α : Type u} [LinearOrder α]

instance : Membership α (OrderedSet α) := ⟨fun s a => a ∈ s.elems⟩

instance (a : α) (s : OrderedSet α) : Decidable (a ∈ s) :=
  inferInstanceAs (Decidable (a ∈ s.elems))

def empty : OrderedSet α := ⟨[], .nil⟩

def size (s : OrderedSet α) : ℕ := s.elems.length

/-- The first element, if there is one. -/
def begin (s : OrderedSet α) : Option α := s.elems.head?

/-- The elements in front of `lower_bound(a)`. -/
def below (s : OrderedSet α) (a : α) : OrderedSet α := ⟨s.elems.filter (· < a), s.sorted.filter _⟩

/-- The elements from `lower_bound(a)` on. -/
def onward (s : OrderedSet α) (a : α) : OrderedSet α := ⟨s.elems.filter (a ≤ ·), s.sorted.filter _⟩

def erase (s : OrderedSet α) (a : α) : OrderedSet α := ⟨s.elems.filter (· ≠ a), s.sorted.filter _⟩

/-- An element that is present already is left in its place. -/
def insert (s : OrderedSet α) (a : α) : OrderedSet α where
  elems := s.elems.filter (· < a) ++ a :: s.elems.filter (a < ·)
  sorted := by
    refine List.pairwise_append.mpr ⟨s.sorted.filter _, ?_, ?_⟩
    · refine List.pairwise_cons.mpr ⟨fun b hb => ?_, s.sorted.filter _⟩
      simpa using (List.mem_filter.mp hb).2
    · intro b hb c hc
      have hba : b < a := by simpa using (List.mem_filter.mp hb).2
      rcases List.mem_cons.mp hc with rfl | hc
      · exact hba
      · exact hba.trans (by simpa using (List.mem_filter.mp hc).2)

section Membership

variable {s : OrderedSet α} {a b : α}

theorem mem_elems : a ∈ s.elems ↔ a ∈ s := Iff.rfl

@[simp] theorem not_mem_empty : a ∉ (empty : OrderedSet α) := List.not_mem_nil

@[simp] theorem mem_below : b ∈ s.below a ↔ b ∈ s ∧ b < a := by
  simp [below, ← mem_elems]

@[simp] theorem mem_onward : b ∈ s.onward a ↔ b ∈ s ∧ a ≤ b := by
  simp [onward, ← mem_elems]

@[simp] theorem mem_erase : b ∈ s.erase a ↔ b ∈ s ∧ b ≠ a := by
  simp [erase, ← mem_elems]

@[simp] theorem mem_insert : b ∈ s.insert a ↔ b = a ∨ b ∈ s := by
  simp only [insert, ← mem_elems, List.mem_append, List.mem_cons, List.mem_filter,
    decide_eq_true_eq]
  constructor
  · rintro (⟨hb, -⟩ | rfl | ⟨hb, -⟩)
    · exact .inr hb
    · exact .inl rfl
    · exact .inr hb
  · rintro (rfl | hb)
    · exact .inr (.inl rfl)
    · rcases lt_trichotomy b a with hlt | rfl | hgt
      · exact .inl ⟨hb, hlt⟩
      · exact .inr (.inl rfl)
      · exact .inr (.inr ⟨hb, hgt⟩)

theorem nodup (s : OrderedSet α) : s.elems.Nodup := s.sorted.imp fun h => h.ne

theorem begin_eq_none : s.begin = none ↔ ∀ a, a ∉ s := by
  rw [begin, List.head?_eq_none_iff, List.eq_nil_iff_forall_not_mem]
  rfl

theorem mem_of_begin (h : s.begin = some a) : a ∈ s := List.mem_of_head? h

theorem begin_le (h : s.begin = some a) (hb : b ∈ s) : a ≤ b := by
  obtain ⟨rest, hrest⟩ := List.head?_eq_some_iff.mp h
  have hsorted := s.sorted
  rw [hrest] at hsorted
  rw [← mem_elems, hrest] at hb
  rcases List.mem_cons.mp hb with rfl | hb
  · exact le_refl b
  · exact (List.rel_of_pairwise_cons hsorted hb).le

/-- The size of a set whose elements are named one to one by the members of `p`. -/
theorem size_eq_ncard {ι : Type v} {f : ι → α} (hf : Function.Injective f) {p : Set ι}
    (h : ∀ a, a ∈ s ↔ a ∈ f '' p) : s.size = p.ncard := by
  have himage : f '' p = (s.elems.toFinset : Set α) := by
    ext a
    rw [← h a, List.coe_toFinset]
    rfl
  rw [← Set.ncard_image_of_injective p hf, himage, Set.ncard_coe_finset,
    List.toFinset_card_of_nodup s.nodup, size]

end Membership

end OrderedSet

end Muduo.Library
