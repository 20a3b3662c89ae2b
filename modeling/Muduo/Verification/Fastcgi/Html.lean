import Muduo.Net.Http.Fastcgi
import Mathlib.Algebra.Group.Nat.Even
import Mathlib.Data.List.DropRight
import Mathlib.Data.List.Induction

/-! Where the text behind the header lines starts. A carriage return inside a partial match sends
the automaton back to its first state, so whether the end of the header block is seen depends on
the carriage returns in front of it. -/

namespace Muduo.Net.FastCgi

open Library Util

/-- The end of the header block. -/
def blankLine : List UInt8 := [13, 10, 13, 10]

namespace Seen

def after (s : Seen) (xs : List UInt8) : Seen := xs.foldl next s

/-- The characters a state stands for. -/
def matched : Seen → List UInt8
  | nope => []
  | cr => [13]
  | crlf => [13, 10]
  | crlfcr => [13, 10, 13]
  | crlfcrlf => blankLine

@[simp] theorem after_nil (s : Seen) : s.after [] = s := rfl

@[simp] theorem after_cons (s : Seen) (b : UInt8) (xs : List UInt8) :
    s.after (b :: xs) = (s.next b).after xs := rfl

theorem after_append (s : Seen) (xs ys : List UInt8) : s.after (xs ++ ys) = (s.after xs).after ys :=
  List.foldl_append ..

/-- One character more of the pattern, or none at all. -/
theorem matched_next {s : Seen} (h : s ≠ crlfcrlf) (b : UInt8) :
    (s.next b).matched = s.matched ++ [b] ∨ s.next b = nope := by
  have hcases : ∀ {c : UInt8} {t : Seen}, t.matched = s.matched ++ [c] →
      (if b = c then t else nope).matched = s.matched ++ [b] ∨
        (if b = c then t else nope) = nope := by
    intro c t ht
    split
    · next hb =>
        subst hb
        exact .inl ht
    · exact .inr rfl
  cases s with
  | nope => exact hcases rfl
  | cr => exact hcases rfl
  | crlf => exact hcases rfl
  | crlfcr => exact hcases rfl
  | crlfcrlf => exact absurd rfl h

end Seen

/-- The state after the first characters, none of which completes the pattern before the last. -/
structure Tracks (xs : List UInt8) : Prop where
  suffix : (Seen.after .nope xs).matched <:+ xs
  parity : (Seen.after .nope xs = .cr ∨ Seen.after .nope xs = .crlfcr) ↔
    ¬ Even (xs.rtakeWhile (· = 13)).length

theorem tracks_nil : Tracks [] where
  suffix := List.nil_suffix
  parity := by simp [Seen.after]

theorem Tracks.snoc {xs : List UInt8} (h : Tracks xs) (hne : Seen.after .nope xs ≠ .crlfcrlf)
    (b : UInt8) : Tracks (xs ++ [b]) := by
  have hafter : Seen.after .nope (xs ++ [b]) = (Seen.after .nope xs).next b :=
    Seen.after_append ..
  refine ⟨?_, ?_⟩
  · rw [hafter]
    rcases Seen.matched_next hne b with hmatched | hnope
    · rw [hmatched]
      exact List.suffix_append_self_iff.mpr h.suffix
    · rw [hnope]
      exact List.nil_suffix
  · rw [hafter]
    have hparity := h.parity
    generalize Seen.after .nope xs = s at hparity hne
    by_cases hb : b = 13
    · -- A carriage return turns the two states into others, and back.
      subst hb
      rw [List.rtakeWhile_concat_pos _ _ _ (by simp), List.length_append, List.length_singleton,
        Nat.even_add_one, ← hparity]
      cases s <;> simp [Seen.next] at hne ⊢
    · rw [List.rtakeWhile_concat_neg _ _ _ (by simp [hb])]
      cases s <;> simp [Seen.next, hb] <;> split <;> simp

theorem search_concat_eq_none {xs : List UInt8} {b : UInt8}
    (h : search blankLine (xs ++ [b]) = none) : search blankLine xs = none := by
  cases hxs : search blankLine xs with
  | none => rfl
  | some i =>
      rw [search_append (by decide) hxs] at h
      cases h

theorem tracks_of_search_none {xs : List UInt8} (h : search blankLine xs = none) :
    Tracks xs ∧ Seen.after .nope xs ≠ .crlfcrlf := by
  induction xs using List.reverseRecOn with
  | nil => exact ⟨tracks_nil, by simp⟩
  | append_singleton xs b ih =>
      obtain ⟨htracks, hne⟩ := ih (search_concat_eq_none h)
      have hsnoc := htracks.snoc hne b
      refine ⟨hsnoc, fun hfull => ?_⟩
      have hmatched : (Seen.after .nope (xs ++ [b])).matched = blankLine := by
        rw [hfull]
        rfl
      have hfound := isSome_search_of_infix (hmatched ▸ hsnoc.suffix).isInfix
      rw [h] at hfound
      cases hfound

/-! ### The loop -/

/-- The loop goes on over characters that do not complete the pattern before the last. -/
theorem scan_append {s : Seen} {xs : List UInt8}
    (h : ∀ zs b, zs ++ [b] <+: xs → s.after zs ≠ .crlfcrlf) (i : ℕ) (ys : List UInt8) :
    scan s i (xs ++ ys) = scan (s.after xs) (i + xs.length) ys := by
  induction xs generalizing s i with
  | nil => rfl
  | cons b xs ih =>
      have hs : s ≠ .crlfcrlf := h [] b (List.cons_prefix_cons.mpr ⟨rfl, List.nil_prefix⟩)
      have hstep : scan s i (b :: xs ++ ys) = scan (s.next b) (i + 1) (xs ++ ys) := by
        cases s with
        | crlfcrlf => exact absurd rfl hs
        | _ => rfl
      rw [hstep, ih fun zs c hzs => ?_, Seen.after_cons, List.length_cons, Nat.add_right_comm,
        Nat.add_assoc]
      exact h (b :: zs) c (List.cons_prefix_cons.mpr ⟨rfl, hzs⟩)

/-- The result is a place that the loop comes to. -/
theorem le_of_scan {s : Seen} {i j : ℕ} {xs : List UInt8} (h : scan s i xs = some j) : i ≤ j := by
  induction xs generalizing s i with
  | nil => cases h
  | cons b xs ih =>
      cases s with
      | crlfcrlf => exact Nat.le_of_eq (Option.some.inj h)
      | _ => exact Nat.le_of_succ_le (ih h)

theorem lt_of_scan {s : Seen} (hs : s ≠ .crlfcrlf) {i j : ℕ} {xs : List UInt8}
    (h : scan s i xs = some j) : i < j := by
  cases xs with
  | nil => cases h
  | cons b xs =>
      cases s with
      | crlfcrlf => exact absurd rfl hs
      | _ => exact le_of_scan h

/-! ### The first blank line -/

section First

variable {text : List UInt8} {i : ℕ}

/-- Before the end of the first occurrence there is none. -/
theorem search_prefix_eq_none (h : search blankLine text = some i) {zs : List UInt8}
    (hzs : zs <+: text) (hlt : zs.length < i + 4) : search blankLine zs = none := by
  cases hsearch : search blankLine zs with
  | none => rfl
  | some j =>
      obtain ⟨rest, rfl⟩ := hzs
      rw [search_append (by decide) hsearch] at h
      have hle := add_length_le_of_search (by decide) hsearch
      obtain rfl := Option.some.inj h
      exact absurd hle (Nat.not_le.mpr hlt)

/-- How the automaton comes to the first occurrence: in its first state, or behind a carriage
return that it takes for the start of the pattern. -/
theorem after_take (h : search blankLine text = some i) :
    Seen.after .nope (text.take i) =
        .nope ∧ Even ((text.take i).rtakeWhile (· = 13)).length ∨
      Seen.after .nope (text.take i ++ blankLine) =
        .crlf ∧ ¬ Even ((text.take i).rtakeWhile (· = 13)).length := by
  have hle : i + 4 ≤ text.length := add_length_le_of_search (by decide) h
  have hlength : (text.take i).length = i := by
    rw [List.length_take]
    omega
  have hprefix : text.take i ++ blankLine <+: text :=
    ⟨text.drop (i + 4), by rw [List.append_assoc]; exact (eq_append_of_search h).symm⟩
  have hnone := search_prefix_eq_none h (List.take_prefix i text) (by omega)
  obtain ⟨⟨hsuffix, hparity⟩, hne⟩ := tracks_of_search_none hnone
  rw [Seen.after_append]
  generalize hstate : Seen.after .nope (text.take i) = state at hsuffix hparity hne
  cases state with
  | nope => exact .inl ⟨rfl, by simpa using hparity⟩
  | cr => exact .inr ⟨by decide, hparity.mp (.inl rfl)⟩
  | crlfcr => exact .inr ⟨by decide, hparity.mp (.inr rfl)⟩
  | crlfcrlf => exact absurd rfl hne
  | crlf =>
      -- The pattern would have occurred two characters earlier.
      have hshort : text.take i ++ [13, 10] <+: text :=
        (List.prefix_append_right_inj _ |>.mpr ⟨[13, 10], rfl⟩).trans hprefix
      have hnone' := search_prefix_eq_none h hshort (by
        rw [List.length_append, hlength, List.length_cons, List.length_singleton]
        omega)
      have hinfix : blankLine <:+: text.take i ++ [13, 10] :=
        (List.suffix_append_self_iff.mpr hsuffix).isInfix
      have hfound := isSome_search_of_infix hinfix
      rw [hnone'] at hfound
      cases hfound

theorem scan_first (h : search blankLine text = some i) :
    scan .nope 0 text =
      scan (Seen.after .nope (text.take i ++ blankLine)) (i + 4) (text.drop (i + 4)) := by
  have hle : i + 4 ≤ text.length := add_length_le_of_search (by decide) h
  have htext : text = (text.take i ++ blankLine) ++ text.drop (i + 4) := by
    rw [List.append_assoc]
    exact eq_append_of_search h
  have hlength : (text.take i ++ blankLine).length = i + 4 := by
    rw [List.length_append, List.length_take, Nat.min_eq_left (by omega)]
    rfl
  conv_lhs => rw [htext]
  rw [scan_append, hlength, Nat.zero_add]
  intro zs b hzs
  have hshort : zs.length < i + 4 := by
    have := hzs.length_le
    rw [hlength, List.length_append, List.length_singleton] at this
    omega
  have hprefix : zs <+: text := (List.prefix_append zs [b]).trans (hzs.trans ⟨_, htext.symm⟩)
  exact (tracks_of_search_none (search_prefix_eq_none h hprefix hshort)).2

end First

/-- The result is the place behind the first blank line if there is text behind it, and the start
of the content if there is no blank line. -/
def StartFound (p : List UInt8) : Prop :=
  (∀ i, search blankLine (cstr p) = some i → i + 4 < (cstr p).length →
    findStartHtml p = i + 4) ∧
  (search blankLine (cstr p) = none → findStartHtml p = 0)

/-- The carriage returns directly in front of the first blank line come in pairs. -/
def PairedReturns (p : List UInt8) : Prop :=
  ∀ i, search blankLine (cstr p) = some i → i + 4 < (cstr p).length →
    Even (((cstr p).take i).rtakeWhile (· = 13)).length

theorem findStartHtml_of_even {p : List UInt8} {i : ℕ} (h : search blankLine (cstr p) = some i)
    (hlt : i + 4 < (cstr p).length) (heven : Even (((cstr p).take i).rtakeWhile (· = 13)).length) :
    findStartHtml p = i + 4 := by
  have hstate : Seen.after .nope ((cstr p).take i) = .nope := by
    rcases after_take h with ⟨hnope, -⟩ | ⟨-, hodd⟩
    · exact hnope
    · exact absurd heven hodd
  have hfull : Seen.after .nope ((cstr p).take i ++ blankLine) = .crlfcrlf := by
    rw [Seen.after_append, hstate]
    decide
  rw [findStartHtml, scan_first h, hfull, List.drop_eq_getElem_cons hlt]
  rfl

theorem findStartHtml_of_odd {p : List UInt8} {i : ℕ} (h : search blankLine (cstr p) = some i)
    (hodd : ¬ Even (((cstr p).take i).rtakeWhile (· = 13)).length) : findStartHtml p ≠ i + 4 := by
  have hstate : Seen.after .nope ((cstr p).take i ++ blankLine) = .crlf := by
    rcases after_take h with ⟨-, heven⟩ | ⟨hcrlf, -⟩
    · exact absurd heven hodd
    · exact hcrlf
  rw [findStartHtml, scan_first h, hstate]
  cases hscan : scan .crlf (i + 4) ((cstr p).drop (i + 4)) with
  | none => exact (Nat.succ_ne_zero _).symm
  | some j => exact Nat.ne_of_gt (lt_of_scan (by decide) hscan)

/-- The first content is printed from behind the header block on. -/
theorem getHtmlFromContent_of_paired {c : FastCgi} {p : List UInt8} {i : ℕ} (hc : c.flag ≠ 1)
    (h : search blankLine (cstr p) = some i) (hlt : i + 4 < (cstr p).length)
    (hpaired : PairedReturns p) :
    getHtmlFromContent c p = ((cstr p).drop (i + 4), { c with flag := 1 }) := by
  rw [getHtmlFromContent, if_neg hc, findStartHtml_of_even h hlt (hpaired i h hlt)]

/-- The end of the header block is found exactly if the carriage returns in front of it come in
pairs. -/
theorem start_found_iff (p : List UInt8) : StartFound p ↔ PairedReturns p := by
  constructor
  · intro hfound i hi hlt
    by_contra hodd
    exact findStartHtml_of_odd hi hodd (hfound.1 i hi hlt)
  · intro hpaired
    refine ⟨fun i hi hlt => findStartHtml_of_even hi hlt (hpaired i hi hlt), fun hnone => ?_⟩
    have hnever : ∀ zs b, zs ++ [b] <+: cstr p → Seen.after .nope zs ≠ .crlfcrlf := by
      intro zs b hzs
      refine (tracks_of_search_none ?_).2
      cases hsearch : search blankLine zs with
      | none => rfl
      | some j =>
          obtain ⟨rest, hrest⟩ := (List.prefix_append zs [b]).trans hzs
          rw [← hrest, search_append (by decide) hsearch] at hnone
          cases hnone
    have hscan := scan_append hnever 0 []
    rw [List.append_nil] at hscan
    rw [findStartHtml, hscan]
    rfl

/-- A header line, and a carriage return too many in front of the blank line. -/
theorem blank_line_missed :
    search blankLine (cstr (ascii "X: y\r\r\n\r\n<html>")) = some 5 ∧
      findStartHtml (ascii "X: y\r\r\n\r\n<html>") = 0 ∧
      ¬ StartFound (ascii "X: y\r\r\n\r\n<html>") := by
  have hsearch : search blankLine (cstr (ascii "X: y\r\r\n\r\n<html>")) = some 5 := by decide
  have hstart : findStartHtml (ascii "X: y\r\r\n\r\n<html>") = 0 := by decide
  refine ⟨hsearch, hstart, fun hfound => ?_⟩
  have hplace := hfound.1 5 hsearch (by decide)
  rw [hstart] at hplace
  cases hplace

end Muduo.Net.FastCgi
