import Mathlib.Data.List.Basic
import Mathlib.Data.List.DropRight
import Mathlib.Data.Nat.Notation

/-! File names and their lexical resolution: empty segments and `.` are dropped, and `..`
goes up by one segment. No file is looked at. -/

namespace Muduo.Library.Path

variable {α : Type*} [DecidableEq α] (sep dot : α)

def segments (p : List α) : List (List α) := p.splitOn sep

def isAbsolute (p : List α) : Bool := p.head? = some sep

/-- The root directory is above itself; a relative name may lead upwards for ever. -/
def up (absolute : Bool) (dirs : List (List α)) : List (List α) :=
  match dirs.getLast? with
  | none => if absolute then [] else [[dot, dot]]
  | some dir => if dir = [dot, dot] then dirs ++ [[dot, dot]] else dirs.dropLast

/-- The directory that is reached from `dirs` by one more segment. -/
def walk (absolute : Bool) (dirs : List (List α)) (segment : List α) : List (List α) :=
  if segment = [] ∨ segment = [dot] then dirs
  else if segment = [dot, dot] then up dot absolute dirs
  else dirs ++ [segment]

def resolve (p : List α) : List (List α) :=
  (segments sep p).foldl (walk dot (isAbsolute sep p)) []

/-- `p` names `root` or something below it. -/
def Inside (root p : List α) : Prop :=
  isAbsolute sep p = isAbsolute sep root ∧ resolve sep dot root <+: resolve sep dot p ∧
    [dot, dot] ∉ (resolve sep dot p).drop (resolve sep dot root).length

instance (root p : List α) : Decidable (Inside sep dot root p) :=
  inferInstanceAs (Decidable (_ ∧ _ ∧ _))

/-- One more segment behind a way that goes up some directories and then down through names. -/
def follow (way : ℕ × List (List α)) (segment : List α) : ℕ × List (List α) :=
  if segment = [] ∨ segment = [dot] then way
  else if segment = [dot, dot] then
    if way.2 = [] then (way.1 + 1, []) else (way.1, way.2.dropLast)
  else (way.1, way.2 ++ [segment])

/-- Segments in normal form: how far they go up from where they start, and through which names
they then go down. -/
def normalize (segs : List (List α)) : ℕ × List (List α) := segs.foldl (follow dot) (0, [])

/-- An absolute name that ends in a proper name, which is `name` below `parent`. -/
structure Directory (root parent name : List α) : Prop where
  eq : root = parent ++ sep :: name
  absolute : isAbsolute sep root = true
  clean : sep ∉ name
  proper : name ≠ [] ∧ name ≠ [dot] ∧ name ≠ [dot, dot]

/-- What follows the last separator. -/
def lastName (p : List α) : List α := (segments sep p).getLastD []

/-- What is appended to the name of a directory, read behind the last name of that directory and
in normal form, comes down through as many of the directory's last names as it has gone up, and
one more. -/
def Returns (root rest : List α) : Prop :=
  let way := normalize dot (segments sep (lastName sep root ++ rest))
  (resolve sep dot root).rtake (way.1 + 1) <+: way.2

instance (root rest : List α) : Decidable (Returns sep dot root rest) :=
  inferInstanceAs (Decidable (_ <+: _))

variable {sep dot}

/-! ### Resolution by the normal form -/

theorem up_of_not_mem {dirs : List (List α)} (h : [dot, dot] ∉ dirs) :
    up dot true dirs = dirs.dropLast := by
  unfold up
  cases hlast : dirs.getLast? with
  | none =>
      rw [List.getLast?_eq_none_iff.mp hlast]
      rfl
  | some dir =>
      have hne : dir ≠ [dot, dot] := fun heq => h (heq ▸ List.mem_of_getLast? hlast)
      exact if_neg hne

theorem not_mem_follow {way : ℕ × List (List α)} (h : [dot, dot] ∉ way.2) (segment : List α) :
    [dot, dot] ∉ (follow dot way segment).2 := by
  unfold follow
  split_ifs with hskip hup hnil
  · exact h
  · exact List.not_mem_nil
  · exact fun hmem => h (List.dropLast_subset _ hmem)
  · simpa [h] using Ne.symm hup

/-- Walking from `dirs` follows the way. -/
theorem walk_follow {dirs : List (List α)} (hdirs : [dot, dot] ∉ dirs)
    {way : ℕ × List (List α)} (hway : [dot, dot] ∉ way.2) (segment : List α) :
    walk dot true (dirs.take (dirs.length - way.1) ++ way.2) segment =
      dirs.take (dirs.length - (follow dot way segment).1) ++ (follow dot way segment).2 := by
  unfold walk follow
  split_ifs with hskip hup hnil
  · rfl
  · -- nothing is left of the way down, so the walk goes up from `dirs`
    rw [hnil, List.append_nil, List.append_nil,
      up_of_not_mem fun hmem => hdirs (List.mem_of_mem_take hmem), List.dropLast_eq_take,
      List.take_take, List.length_take]
    congr 1
    omega
  · have hmem : [dot, dot] ∉ dirs.take (dirs.length - way.1) ++ way.2 := by
      rw [List.mem_append, not_or]
      exact ⟨fun hmem => hdirs (List.mem_of_mem_take hmem), hway⟩
    rw [up_of_not_mem hmem, List.dropLast_append_of_ne_nil hnil]
  · exact List.append_assoc _ _ _

theorem foldl_walk_follow {dirs : List (List α)} (hdirs : [dot, dot] ∉ dirs)
    (segs : List (List α)) (way : ℕ × List (List α)) (hway : [dot, dot] ∉ way.2) :
    segs.foldl (walk dot true) (dirs.take (dirs.length - way.1) ++ way.2) =
      dirs.take (dirs.length - (segs.foldl (follow dot) way).1) ++
        (segs.foldl (follow dot) way).2 ∧ [dot, dot] ∉ (segs.foldl (follow dot) way).2 := by
  induction segs generalizing way with
  | nil => exact ⟨rfl, hway⟩
  | cons segment segs ih =>
      rw [List.foldl_cons, List.foldl_cons, walk_follow hdirs hway]
      exact ih _ (not_mem_follow hway segment)

theorem foldl_walk_eq {dirs : List (List α)} (hdirs : [dot, dot] ∉ dirs)
    (segs : List (List α)) :
    segs.foldl (walk dot true) dirs =
      dirs.take (dirs.length - (normalize dot segs).1) ++ (normalize dot segs).2 := by
  have h := (foldl_walk_follow hdirs segs (0, []) List.not_mem_nil).1
  rwa [Nat.sub_zero, List.take_length, List.append_nil] at h

theorem not_mem_foldl_walk {dirs : List (List α)} (hdirs : [dot, dot] ∉ dirs)
    (segs : List (List α)) : [dot, dot] ∉ segs.foldl (walk dot true) dirs := by
  have h := (foldl_walk_follow hdirs segs (0, []) List.not_mem_nil).2
  rw [foldl_walk_eq hdirs, List.mem_append, not_or]
  exact ⟨fun hmem => hdirs (List.mem_of_mem_take hmem), h⟩

/-! ### What stays inside a directory -/

theorem segments_append_cons (p q : List α) :
    segments sep (p ++ sep :: q) = segments sep p ++ segments sep q :=
  List.splitOn_append_cons_self _ _

theorem Directory.segments_eq {root parent name : List α} (h : Directory sep dot root parent name) :
    segments sep root = segments sep parent ++ [name] := by
  rw [h.eq, segments_append_cons, segments, segments, List.splitOn_eq_singleton h.clean]

theorem Directory.lastName_eq {root parent name : List α} (h : Directory sep dot root parent name) :
    lastName sep root = name := by
  rw [lastName, h.segments_eq, List.getLastD_concat]

theorem Directory.ne_nil {root parent name : List α} (h : Directory sep dot root parent name) :
    root ≠ [] := by
  rw [h.eq]
  exact List.append_ne_nil_of_right_ne_nil _ (List.cons_ne_nil _ _)

theorem isAbsolute_append {root : List α} (h : root ≠ []) (rest : List α) :
    isAbsolute sep (root ++ rest) = isAbsolute sep root := by
  rw [isAbsolute, isAbsolute, List.head?_append_of_ne_nil _ h]

/-- What is appended to an absolute name stays inside if the two are resolved to one that starts
with what the name is resolved to. -/
theorem inside_append_iff_extends {root rest : List α} (hne : root ≠ [])
    (habs : isAbsolute sep root = true) :
    Inside sep dot root (root ++ rest) ↔
      resolve sep dot root <+: resolve sep dot (root ++ rest) := by
  have happend : isAbsolute sep (root ++ rest) = isAbsolute sep root := isAbsolute_append hne rest
  have hclean : [dot, dot] ∉ resolve sep dot (root ++ rest) := by
    rw [resolve, happend, habs]
    exact not_mem_foldl_walk List.not_mem_nil _
  rw [Inside, and_iff_right happend, and_iff_left fun hmem => hclean (List.mem_of_mem_drop hmem)]

/-- What does not go up stays inside. -/
theorem Directory.inside_of_down {root parent name : List α}
    (h : Directory sep dot root parent name) {q : List α}
    (hq : (normalize dot (segments sep q)).1 = 0) : Inside sep dot root (root ++ sep :: q) := by
  refine (inside_append_iff_extends h.ne_nil h.absolute).mpr ?_
  have hdots : [dot, dot] ∉ resolve sep dot root := by
    rw [resolve, h.absolute]
    exact not_mem_foldl_walk List.not_mem_nil _
  have hfile : resolve sep dot (root ++ sep :: q) =
      (segments sep q).foldl (walk dot true) (resolve sep dot root) := by
    rw [resolve, isAbsolute_append h.ne_nil, h.absolute, segments_append_cons, List.foldl_append,
      resolve, h.absolute]
  rw [hfile, foldl_walk_eq hdots, hq, Nat.sub_zero, List.take_length]
  exact List.prefix_append _ _

/-- What is appended to the name of a directory stays inside it exactly if it comes back as far
as it leads out. -/
theorem inside_append_iff {root parent name : List α} (h : Directory sep dot root parent name)
    (rest : List α) : Inside sep dot root (root ++ rest) ↔ Returns sep dot root rest := by
  have hsegs : segments sep (root ++ rest) =
      segments sep parent ++ segments sep (name ++ rest) := by
    rw [h.eq, List.append_assoc, List.cons_append, segments_append_cons]
  generalize hdirs : (segments sep parent).foldl (walk dot true) [] = dirs
  have hdots : [dot, dot] ∉ dirs := hdirs ▸ not_mem_foldl_walk List.not_mem_nil _
  have hroot : resolve sep dot root = dirs ++ [name] := by
    rw [resolve, h.absolute, h.segments_eq, List.foldl_append, hdirs, List.foldl_cons,
      List.foldl_nil, walk, if_neg (not_or.mpr ⟨h.proper.1, h.proper.2.1⟩), if_neg h.proper.2.2]
  have hfile : resolve sep dot (root ++ rest) =
      (segments sep (name ++ rest)).foldl (walk dot true) dirs := by
    rw [resolve, isAbsolute_append h.ne_nil, h.absolute, hsegs, List.foldl_append, hdirs]
  rw [inside_append_iff_extends h.ne_nil h.absolute, Returns, h.lastName_eq, hroot, hfile,
    foldl_walk_eq hdots]
  generalize normalize dot (segments sep (name ++ rest)) = way
  -- both sides share the directories above the highest one that is reached
  have hsplit : dirs ++ [name] = dirs.take (dirs.length - way.1) ++
      (dirs ++ [name]).rtake (way.1 + 1) := by
    rw [List.rtake, List.length_append, List.length_singleton, Nat.add_sub_add_right,
      ← List.take_append_of_le_length (Nat.sub_le _ _), List.take_append_drop]
  conv_lhs => rw [hsplit]
  exact List.prefix_append_right_inj _

end Muduo.Library.Path
