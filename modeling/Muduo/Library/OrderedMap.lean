import Mathlib.Data.List.Nodup

/-! Ordered maps, as `std::map` keeps them: the entries in the order of their keys. -/

namespace Muduo.Library

universe u v

/-- The entries in the order of their keys, each key once. -/
structure OrderedMap (α : Type u) (β : Type v) [LT α] where
  entries : List (α × β)
  sorted : entries.Pairwise fun e f => e.1 < f.1

namespace OrderedMap

variable {α : Type u} {β : Type v} [LT α]

def empty : OrderedMap α β := ⟨[], .nil⟩

def find [DecidableEq α] (m : OrderedMap α β) (key : α) : Option β :=
  (m.entries.find? fun e => e.1 = key).map Prod.snd

def erase [DecidableEq α] (m : OrderedMap α β) (key : α) : OrderedMap α β :=
  ⟨m.entries.filter fun e => e.1 ≠ key, m.sorted.filter _⟩

section Set

variable [DecidableLT α] [Trans (α := α) (· < ·) (· < ·) (· < ·)]

/-- A value under the same key is replaced. -/
def set (m : OrderedMap α β) (key : α) (value : β) : OrderedMap α β where
  entries := m.entries.filter (·.1 < key) ++ (key, value) :: m.entries.filter (key < ·.1)
  sorted := by
    refine List.pairwise_append.mpr ⟨m.sorted.filter _, ?_, ?_⟩
    · refine List.pairwise_cons.mpr ⟨fun e he => ?_, m.sorted.filter _⟩
      simpa using (List.mem_filter.mp he).2
    · intro e he f hf
      have hlt : e.1 < key := by simpa using (List.mem_filter.mp he).2
      rcases List.mem_cons.mp hf with rfl | hf
      · exact hlt
      · exact Trans.trans hlt (by simpa using (List.mem_filter.mp hf).2)

end Set

section Lookup

variable [Std.Irrefl (α := α) (· < ·)] {m : OrderedMap α β} {key key' : α} {value : β}

theorem nodup_keys (m : OrderedMap α β) : (m.entries.map Prod.fst).Nodup := by
  refine List.pairwise_map.mpr (m.sorted.imp fun {e f} hlt heq => ?_)
  rw [heq] at hlt
  exact Std.Irrefl.irrefl f.1 hlt

variable [DecidableEq α]

/-- Looking up a key finds its entry. -/
theorem find_eq_some : m.find key = some value ↔ (key, value) ∈ m.entries := by
  constructor
  · intro h
    obtain ⟨e, he, rfl⟩ := Option.map_eq_some_iff.mp h
    have hkey : e.1 = key := by simpa using List.find?_some he
    rw [← hkey]
    exact List.mem_of_find?_eq_some he
  · intro h
    cases he : m.entries.find? fun e => e.1 = key with
    | none => exact absurd (by simp) (List.find?_eq_none.mp he _ h)
    | some e =>
        have hkey : e.1 = key := by simpa using List.find?_some he
        have heq := List.inj_on_of_nodup_map m.nodup_keys (List.mem_of_find?_eq_some he) h hkey
        rw [find, he, heq]
        rfl

theorem find_erase : (m.erase key).find key' = if key' = key then none else m.find key' := by
  refine Option.ext fun v => ?_
  rw [find_eq_some]
  split
  next h => simp [erase, h]
  next h => simp [erase, h, find_eq_some]

variable [DecidableLT α] [Trans (α := α) (· < ·) (· < ·) (· < ·)]
  [Std.Trichotomous (α := α) (· < ·)]

theorem find_set :
    (m.set key value).find key' = if key' = key then some value else m.find key' := by
  refine Option.ext fun v => ?_
  rw [find_eq_some]
  simp only [set, List.mem_append, List.mem_cons, List.mem_filter, decide_eq_true_eq,
    Prod.mk.injEq]
  split
  next h =>
    subst h
    have hirrefl : ¬ key' < key' := Std.Irrefl.irrefl key'
    simp [hirrefl, eq_comm]
  next h =>
    rw [find_eq_some]
    constructor
    · rintro (⟨hv, -⟩ | ⟨hkey, -⟩ | ⟨hv, -⟩)
      · exact hv
      · exact absurd hkey h
      · exact hv
    · intro hv
      rcases Std.Trichotomous.rel_or_eq_or_rel_swap (r := (· < ·)) (a := key') (b := key) with
        hlt | heq | hgt
      · exact .inl ⟨hv, hlt⟩
      · exact absurd heq h
      · exact .inr (.inr ⟨hv, hgt⟩)

end Lookup

/-! ### Maps of maps -/

section Nested

universe w

variable {γ : Type w} [LT γ] [DecidableEq α] [DecidableEq γ] {m : OrderedMap α (OrderedMap γ β)}
  {a a' : α} {c c' : γ} {value : β}

/-- What stands under two keys. -/
def find₂ (m : OrderedMap α (OrderedMap γ β)) (a : α) (c : γ) : Option β :=
  (m.find a).bind (·.find c)

theorem find₂_empty : (empty : OrderedMap α (OrderedMap γ β)).find₂ a c = none := rfl

theorem find_getD_empty : ((m.find a).getD empty).find c = m.find₂ a c := by
  rw [find₂]
  cases m.find a with
  | none => rfl
  | some inner => rfl

variable [DecidableLT α] [Trans (α := α) (· < ·) (· < ·) (· < ·)]
  [Std.Irrefl (α := α) (· < ·)] [Std.Trichotomous (α := α) (· < ·)]
  [Std.Irrefl (α := γ) (· < ·)]

theorem find₂_set_erase :
    (m.set a (((m.find a).getD empty).erase c)).find₂ a' c' =
      if a' = a ∧ c' = c then none else m.find₂ a' c' := by
  rw [find₂, find_set]
  by_cases ha : a' = a
  · subst ha
    rw [if_pos rfl, Option.bind_some, find_erase, find_getD_empty]
    simp
  · rw [if_neg ha, if_neg fun h => ha h.1]
    rfl

variable [DecidableLT γ] [Trans (α := γ) (· < ·) (· < ·) (· < ·)]
  [Std.Trichotomous (α := γ) (· < ·)]

theorem find₂_set_set :
    (m.set a (((m.find a).getD empty).set c value)).find₂ a' c' =
      if a' = a ∧ c' = c then some value else m.find₂ a' c' := by
  rw [find₂, find_set]
  by_cases ha : a' = a
  · subst ha
    rw [if_pos rfl, Option.bind_some, find_set, find_getD_empty]
    simp
  · rw [if_neg ha, if_neg fun h => ha h.1]
    rfl

end Nested

end OrderedMap

end Muduo.Library
