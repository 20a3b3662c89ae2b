import Mathlib.Data.List.Basic
import Mathlib.Data.Nat.Notation

/-! Texts written one after the other to a memory of a fixed size, each of them whole or not at
all. Every text asks for more room than it takes. -/

namespace Muduo.Library

variable {α : Type*}

/-- A text with the room that it asks for. -/
structure Piece (α : Type*) where
  text : List α
  need : ℕ
  lt : text.length < need

/-- What is written when there is room for `room` elements. -/
def written : ℕ → List (Piece α) → List α
  | _, [] => []
  | room, p :: ps =>
      if p.need ≤ room then p.text ++ written (room - p.text.length) ps else written room ps

theorem written_cons_of_le {room : ℕ} {p : Piece α} (h : p.need ≤ room) (ps : List (Piece α)) :
    written room (p :: ps) = p.text ++ written (room - p.text.length) ps := if_pos h

theorem written_cons_of_lt {room : ℕ} {p : Piece α} (h : room < p.need) (ps : List (Piece α)) :
    written room (p :: ps) = written room ps := if_neg (Nat.not_le.mpr h)

/-- Some room is always left. -/
theorem length_written_lt {room : ℕ} (h : 0 < room) (ps : List (Piece α)) :
    (written room ps).length < room := by
  induction ps generalizing room with
  | nil => exact h
  | cons p ps ih =>
      have hlt := p.lt
      by_cases hneed : p.need ≤ room
      · have hrest := @ih (room - p.text.length) (by omega)
        rw [written_cons_of_le hneed, List.length_append]
        omega
      · rw [written_cons_of_lt (Nat.not_le.mp hneed)]
        exact ih h

end Muduo.Library
