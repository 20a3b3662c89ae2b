import Muduo.Base.Logging
import Muduo.Library.Pieces
import Muduo.Verification.Logging.Numbers

/-! The ends of log records. Insertions that find no room are dropped one by one, so that the end
of the line can be dropped while what stands in front of it was taken. -/

namespace Muduo.Base

open Library Net

namespace LogStream

/-! ### Insertions -/

/-- A text is taken if there is room for one character more. -/
def textPiece (text : List UInt8) : Piece UInt8 := ⟨text, text.length + 1, Nat.lt_succ_self _⟩

theorem length_pointer_lt_size {p : ℕ} (h : p < 2 ^ 64) :
    (ascii "0x" ++ numeral 16 p).length < kMaxNumericSize := by
  rw [List.length_append]
  exact length_numeral_hex_lt h

def Insertion.piece : Insertion → Piece UInt8
  | .bool v => textPiece (if v then ascii "1" else ascii "0")
  | .integer v => ⟨intNumeral v.val, kMaxNumericSize, length_intNumeral_lt v⟩
  | .pointer v h => ⟨ascii "0x" ++ numeral 16 v, kMaxNumericSize, length_pointer_lt_size h⟩
  | .char v => textPiece [v]
  | .text v => textPiece v
  | .null => textPiece (ascii "(null)")

theorem append_takes (s : LogStream) (text : List UInt8) :
    Takes s (s.append text) (text.length + 1) text := by
  rw [Takes, append, FixedBuffer.append]
  by_cases h : text.length < s.buffer.avail
  · rw [dif_pos h, if_pos (Nat.succ_le_of_lt h)]
  · rw [dif_neg h, if_neg (fun hle => h (Nat.lt_of_succ_le hle)), List.append_nil]

theorem insert_takes (s : LogStream) (x : Insertion) :
    ∃ s', s.insert x = .ok s' ∧ Takes s s' x.piece.need x.piece.text := by
  cases x with
  | bool v => exact ⟨_, rfl, append_takes s _⟩
  | integer v => exact formatInteger_takes s v
  | pointer v h => exact formatPointer_takes s h
  | char v => exact ⟨_, rfl, append_takes s _⟩
  | text v => exact ⟨_, rfl, append_takes s _⟩
  | null => exact ⟨_, rfl, append_takes s _⟩

theorem avail_of_data {s s' : LogStream} {text : List UInt8}
    (h : s'.buffer.data = s.buffer.data ++ text) :
    s'.buffer.avail = s.buffer.avail - text.length := by
  rw [FixedBuffer.avail, FixedBuffer.length, h, List.length_append, Nat.sub_add_eq]
  rfl

/-- Insertions never fail, and what they write is what there is room for. -/
theorem insertAll_eq (s : LogStream) (xs : List Insertion) :
    ∃ s', s.insertAll xs = .ok s' ∧
      s'.buffer.data = s.buffer.data ++ written s.buffer.avail (xs.map Insertion.piece) := by
  induction xs generalizing s with
  | nil => exact ⟨s, rfl, (List.append_nil _).symm⟩
  | cons x xs ih =>
      obtain ⟨s₁, hinsert, htakes⟩ := insert_takes s x
      obtain ⟨s', hall, hdata⟩ := ih s₁
      refine ⟨s', ?_, ?_⟩
      · rw [insertAll, List.foldlM_cons, hinsert]
        exact hall
      · by_cases hroom : x.piece.need ≤ s.buffer.avail
        · rw [Takes, if_pos hroom] at htakes
          rw [List.map_cons, written_cons_of_le hroom, hdata, avail_of_data htakes, htakes,
            List.append_assoc]
        · rw [Takes, if_neg hroom] at htakes
          rw [List.map_cons, written_cons_of_lt (Nat.not_le.mp hroom), hdata, avail_of_data htakes,
            htakes, List.append_nil, List.length_nil, Nat.sub_zero]

theorem avail_pos_of_insertAll {s s' : LogStream} {xs : List Insertion}
    (hs : 0 < s.buffer.avail) (h : s.insertAll xs = .ok s') : 0 < s'.buffer.avail := by
  obtain ⟨t, ht, hdata⟩ := insertAll_eq s xs
  obtain rfl : t = s' := Except.ok.inj (ht.symm.trans h)
  rw [avail_of_data hdata]
  exact Nat.sub_pos_of_lt (length_written_lt hs _)

theorem avail_pos_append {s : LogStream} (hs : 0 < s.buffer.avail) (text : List UInt8) :
    0 < (s.append text).buffer.avail := by
  have hall : s.insertAll [.text text] = .ok (s.append text) := rfl
  exact avail_pos_of_insertAll hs hall

end LogStream

namespace Logger

open LogStream

/-! ### The end of the line -/

/-- With room for two characters a number and the end of the line leave the latter at the end. -/
theorem written_number_end (line : Value) {room : ℕ} (h : 2 ≤ room) :
    ∃ text, written room [(Insertion.integer line).piece, (Insertion.char 10).piece] =
      text ++ [10] := by
  have hline : (intNumeral line.val).length ≤ 21 := length_intNumeral_le (by decide) line.natAbs_lt
  have hend : ∀ {r : ℕ}, 2 ≤ r → written r [(Insertion.char 10).piece] = [10] := fun hr =>
    written_cons_of_le hr []
  by_cases hnumber : kMaxNumericSize ≤ room
  · refine ⟨intNumeral line.val, ?_⟩
    rw [written_cons_of_le hnumber, hend (Nat.le_sub_of_add_le ?_)]
    · rfl
    · rw [kMaxNumericSize] at hnumber
      change 2 + (intNumeral line.val).length ≤ room
      omega
  · exact ⟨[], by rw [written_cons_of_lt (Nat.not_le.mp hnumber), hend h]; rfl⟩

/-- The colon, the number and the end of the line. -/
def lineEnd (line : Value) : List (Piece UInt8) :=
  [.char 58, .integer line, .char 10].map Insertion.piece

theorem written_lineEnd_one (line : Value) : written 1 (lineEnd line) = [] := rfl

theorem written_lineEnd_two (line : Value) : written 2 (lineEnd line) = [58] := rfl

/-- The record ends with the line exactly if there is room for three characters; with room for
one the record stays as it was. -/
theorem ends_lineEnd_iff (line : Value) {room : ℕ} (hroom : 0 < room) (before : List UInt8) :
    (before ++ written room (lineEnd line)).getLast? = some 10 ↔
      3 ≤ room ∨ room = 1 ∧ before.getLast? = some 10 := by
  obtain rfl | rfl | h : room = 1 ∨ room = 2 ∨ 3 ≤ room := by omega
  · rw [written_lineEnd_one, List.append_nil]
    refine ⟨fun h => .inr ⟨rfl, h⟩, fun h => ?_⟩
    rcases h with h | ⟨-, h⟩
    · omega
    · exact h
  · rw [written_lineEnd_two, List.getLast?_concat]
    exact iff_of_false (by decide) (by omega)
  · have hcolon : (Insertion.char 58).piece.need ≤ room := Nat.le_of_succ_le h
    have hleft : 2 ≤ room - (Insertion.char 58).piece.text.length := Nat.le_sub_one_of_lt h
    obtain ⟨text, htext⟩ := written_number_end line hleft
    refine iff_of_true ?_ (.inl h)
    rw [lineEnd, List.map_cons, written_cons_of_le hcolon, List.map_cons, List.map_singleton, htext,
      ← List.append_assoc, ← List.append_assoc, List.getLast?_concat]

/-- What `finish` writes. -/
def trailer (name : List UInt8) (line : Value) : List (Piece UInt8) :=
  textPiece (ascii " - ") :: textPiece name :: lineEnd line

/-- The trailer finds room for the end of the line, or a character in front of which it stops is
one. -/
def Complete (room : ℕ) (before name : List UInt8) : Prop :=
  (room ∉ [1, 2, 4, 5] ∧ room ≠ name.length + 4 ∧ room ≠ name.length + 5 ∧
      ¬ (room = 3 ∧ name.length ∈ [1, 2])) ∨
    (room = 1 ∧ before.getLast? = some 10) ∨
    (name.getLast? = some 10 ∧ (room = name.length + 4 ∨ room = name.length + 1 ∧ room ≤ 3))

/-- The name, with what follows it. -/
theorem ends_name_iff (name : List UInt8) (line : Value) {room : ℕ} (hroom : 0 < room)
    (before : List UInt8) :
    (before ++ written room (textPiece name :: lineEnd line)).getLast? = some 10 ↔
      (if name.length < room then
        3 ≤ room - name.length ∨ room = name.length + 1 ∧ (before ++ name).getLast? = some 10
      else 3 ≤ room ∨ room = 1 ∧ before.getLast? = some 10) := by
  by_cases h : name.length < room
  · have hneed : (textPiece name).need ≤ room := h
    rw [if_pos h, written_cons_of_le hneed, ← List.append_assoc]
    refine (ends_lineEnd_iff line (Nat.sub_pos_of_lt h) (before ++ name)).trans ?_
    have heq : room - name.length = 1 ↔ room = name.length + 1 := by omega
    exact or_congr_right (and_congr_left fun _ => heq)
  · have hneed : room < (textPiece name).need := Nat.lt_succ_of_le (Nat.not_lt.mp h)
    rw [if_neg h, written_cons_of_lt hneed]
    exact ends_lineEnd_iff line hroom before

theorem getLast_append_iff (before name : List UInt8) :
    (before ++ name).getLast? = some 10 ↔
      name.getLast? = some 10 ∨ name.length = 0 ∧ before.getLast? = some 10 := by
  cases name using List.reverseRecOn with
  | nil => simp
  | append_singleton name b => simp [← List.append_assoc]

theorem ends_trailer_iff (name : List UInt8) (line : Value) {room : ℕ} (hroom : 0 < room)
    (before : List UInt8) :
    (before ++ written room (trailer name line)).getLast? = some 10 ↔
      Complete room before name := by
  have hname : name.getLast? = some 10 → 0 < name.length := by
    intro h
    exact List.length_pos_of_mem (List.mem_of_getLast? h)
  by_cases hdash : 4 ≤ room
  · have hneed : (textPiece (ascii " - ")).need ≤ room := hdash
    have hbefore : (before ++ ascii " - ").getLast? ≠ some 10 := by
      have hascii : (ascii " - ").getLast? = some 32 := rfl
      rw [List.getLast?_append, hascii]
      exact fun h => absurd (Option.some.inj h) (by decide)
    rw [trailer, written_cons_of_le hneed, ← List.append_assoc]
    refine (ends_name_iff name line (Nat.sub_pos_of_lt hdash) (before ++ ascii " - ")).trans ?_
    rw [getLast_append_iff (before ++ ascii " - ") name, Complete]
    simp only [hbefore, and_false, or_false, List.mem_cons, List.not_mem_nil]
    generalize (name.getLast? = some 10) = P at hname ⊢
    generalize (before.getLast? = some 10) = Q
    generalize name.length = n at hname ⊢
    clear hneed hbefore
    split <;> grind
  · have hneed : room < (textPiece (ascii " - ")).need := Nat.not_le.mp hdash
    rw [trailer, written_cons_of_lt hneed]
    refine (ends_name_iff name line hroom before).trans ?_
    rw [getLast_append_iff, Complete]
    simp only [List.mem_cons, List.not_mem_nil]
    generalize (name.getLast? = some 10) = P at hname ⊢
    generalize (before.getLast? = some 10) = Q
    generalize name.length = n at hname ⊢
    clear hneed
    split <;> grind

/-! ### Loggers -/

theorem inserts_eq (s : LogStream) (xs : List Insertion) :
    ∃ s', inserts s xs = .ok s' ∧ s.insertAll xs = .ok s' ∧
      s'.buffer.data = s.buffer.data ++ written s.buffer.avail (xs.map Insertion.piece) := by
  obtain ⟨s', hall, hdata⟩ := insertAll_eq s xs
  refine ⟨s', ?_, hall, hdata⟩
  rw [inserts, hall]
  rfl

theorem T_of_length {str : List UInt8} {len : ℕ} (h : str.length = len) : T str len = .ok str := by
  rw [T, ensure_of _ h]
  rfl

theorem T_name (level : LogLevel) : T level.name 6 = .ok level.name := by
  cases level <;> exact T_of_length rfl

/-- The text of the number is short enough for `t_tidString`. -/
theorem T_tidString (env : Environment) :
    T (env.tidString.take 31) env.tidString.length = .ok env.tidString := by
  have hlength : env.tidString.length ≤ 31 := by
    have hle : (intNumeral env.tid.val).length ≤ 21 :=
      length_intNumeral_le (by decide) env.tid.natAbs_lt
    have hspace : (ascii " ").length = 1 := rfl
    rw [Environment.tidString, spacePadded, padded, List.length_append, List.length_append,
      List.length_replicate, hspace]
    omega
  rw [List.take_of_length_le hlength]
  exact T_of_length rfl

/-- A logger between its constructor and its destructor. -/
structure Open (l : Logger) (file : SourceFile) (line : Value) : Prop where
  room : 0 < l.stream.buffer.avail
  basename : l.basename = file
  line : l.line = line

theorem avail_formatTime {g g' : Globals} {time : ℤ} {stream : LogStream}
    (h : formatTime g time .init = .ok (stream, g')) : 0 < stream.buffer.avail := by
  obtain ⟨g₁, -, h⟩ := of_bind h
  obtain ⟨-, h⟩ := of_ensure_bind h
  obtain ⟨tTime, -, h⟩ := of_bind h
  obtain ⟨us, -, h⟩ := of_bind h
  obtain ⟨rfl, -⟩ := Prod.mk.inj (Except.ok.inj h)
  exact avail_pos_append (avail_pos_append (by decide) _) _

section

variable {g g' : Globals} {time : ℤ} {stream : LogStream}
  (htime : formatTime g time .init = .ok (stream, g'))
include htime

theorem impl_open (env : Environment) (level : LogLevel) (savedErrno : Value) (file : SourceFile)
    (line : Value) :
    ∃ l, impl g env time level savedErrno file line = .ok (l, g') ∧ Open l file line := by
  have hroom : 0 < ((stream.append env.tidString).append level.name).buffer.avail :=
    avail_pos_append (avail_pos_append (avail_formatTime htime) _) _
  rw [impl, htime, ok_bind]
  dsimp only
  rw [T_tidString, ok_bind, T_name, ok_bind]
  split
  · obtain ⟨s', hinserts, hall, -⟩ := inserts_eq ((stream.append env.tidString).append level.name)
      [.text (env.strerror savedErrno.val), .text (ascii " (errno="), .integer savedErrno,
        .text (ascii ") ")]
    rw [hinserts, ok_bind]
    exact ⟨_, rfl, avail_pos_of_insertAll hroom hall, rfl, rfl⟩
  · exact ⟨_, rfl, hroom, rfl, rfl⟩

theorem ctor_open (env : Environment) (file : SourceFile) (line : Value) (form : Form) :
    ∃ l, ctor g env time file line form = .ok (l, g') ∧ Open l file line := by
  cases form with
  | plain => exact impl_open htime env _ _ _ _
  | leveled level => exact impl_open htime env _ _ _ _
  | function level func =>
      obtain ⟨l, himpl, hopen⟩ := impl_open htime env level (.zero .int) file line
      obtain ⟨s', hinserts, hall, -⟩ := inserts_eq l.stream [cString func, .char 32]
      rw [ctor, himpl, ok_bind]
      dsimp only
      rw [hinserts]
      exact ⟨_, rfl, avail_pos_of_insertAll hopen.room hall, hopen.basename, hopen.line⟩
  | system toAbort => exact impl_open htime env _ _ _ _

end

/-- The destructor returns, and the record it passes on ends as `Complete` says. -/
theorem Open.dtor {l : Logger} {file : SourceFile} {line : Value} (h : Open l file line) :
    ∃ record, l.dtor = .ok (record, decide (l.level = .fatal)) ∧
      (record.getLast? = some 10 ↔
        Complete l.stream.buffer.avail l.stream.buffer.data file.data) := by
  obtain ⟨s', hinserts, -, hdata⟩ := inserts_eq l.stream [.text (ascii " - "),
    .text l.basename.data, .char 58, .integer l.line, .char 10]
  refine ⟨s'.buffer.data, ?_, ?_⟩
  · rw [Logger.dtor, finish, hinserts]
    rfl
  · rw [hdata, ← h.basename]
    exact ends_trailer_iff l.basename.data l.line h.room l.stream.buffer.data

theorem Open.inserts {l : Logger} {file : SourceFile} {line : Value} (h : Open l file line)
    (xs : List Insertion) :
    ∃ s, Logger.inserts l.stream xs = .ok s ∧ Open { l with stream := s } file line ∧
      s.buffer.data =
        l.stream.buffer.data ++ written l.stream.buffer.avail (xs.map Insertion.piece) := by
  obtain ⟨s, hinserts, hall, hdata⟩ := inserts_eq l.stream xs
  exact ⟨s, hinserts, ⟨avail_pos_of_insertAll h.room hall, h.basename, h.line⟩, hdata⟩

/-- A logging statement returns once its time could be formatted. Whether its record is a line
depends on the room that the insertions leave and on the length of the file's name. -/
theorem record_line_iff (g g' : Globals) (env : Environment) (time : ℤ) (stream : LogStream)
    (htime : formatTime g time .init = .ok (stream, g')) (filename : List UInt8) (line : Value)
    (form : Form) (insertions : List Insertion) :
    ∃ l s record aborts,
      ctor g env time (.ofName filename) line form = .ok (l, g') ∧
      inserts l.stream insertions = .ok s ∧
      dtor { l with stream := s } = .ok (record, aborts) ∧
      (record.getLast? = some 10 ↔
        Complete s.buffer.avail s.buffer.data (SourceFile.ofName filename).data) := by
  obtain ⟨l, hctor, hopen⟩ := ctor_open htime env (.ofName filename) line form
  obtain ⟨s, hinserts, hopen, -⟩ := hopen.inserts insertions
  obtain ⟨record, hdtor, hiff⟩ := hopen.dtor
  exact ⟨l, s, record, _, hctor, hinserts, hdtor, hiff⟩

theorem one_bounds : IntType.int.min ≤ 1 ∧ 1 ≤ IntType.int.max := by decide

def one : Value := ⟨.int, 1, one_bounds.1, one_bounds.2⟩

def firstThread : Environment := ⟨one, .zero .int, fun _ => []⟩

/-- Two days after the epoch. -/
theorem record_line_iff_start :
    ∃ stream g', formatTime (.init ⟨none⟩) 172800000000 .init = .ok (stream, g') ∧
      ∃ l s record aborts,
        ctor (.init ⟨none⟩) firstThread 172800000000 (.ofName (ascii "src/main.cc")) one .plain =
          .ok (l, g') ∧
        inserts l.stream [.text (ascii "started"), .integer one] = .ok s ∧
        dtor { l with stream := s } = .ok (record, aborts) ∧
        (record.getLast? = some 10 ↔ Complete s.buffer.avail s.buffer.data
          (SourceFile.ofName (ascii "src/main.cc")).data) :=
  ⟨_, _, rfl, record_line_iff _ _ firstThread 172800000000 _ rfl (ascii "src/main.cc") one .plain
    [.text (ascii "started"), .integer one]⟩

/-- What `plain` puts in front of the first insertion takes 38 characters. A text of 3960 then
leaves room for the colon only. -/
theorem line_end_dropped :
    ∃ l g' s record aborts,
      ctor (.init ⟨none⟩) firstThread 172800000000 (.ofName (ascii "src/main.cc")) one .plain =
        .ok (l, g') ∧
      inserts l.stream [.text (List.replicate 3960 65)] = .ok s ∧
      dtor { l with stream := s } = .ok (record, aborts) ∧ record.getLast? ≠ some 10 := by
  have htime : formatTime (.init ⟨none⟩) 172800000000 .init = .ok (_, _) := rfl
  obtain ⟨l, hctor, hopen⟩ := ctor_open htime firstThread (.ofName (ascii "src/main.cc")) one .plain
  have hlength : (ctor (.init ⟨none⟩) firstThread 172800000000 (.ofName (ascii "src/main.cc")) one
      .plain).map (fun p => p.1.stream.buffer.data.length) = .ok 38 := rfl
  rw [hctor] at hlength
  have havail : l.stream.buffer.avail = 3962 :=
    congrArg (kSmallBuffer - ·) (Except.ok.inj hlength)
  obtain ⟨s, hinserts, hopen, hdata⟩ := hopen.inserts [.text (List.replicate 3960 65)]
  have htext : written l.stream.buffer.avail ([.text (List.replicate 3960 65)].map
      Insertion.piece) = List.replicate 3960 65 := by
    have hneed : (Insertion.text (List.replicate 3960 65)).piece.need ≤ l.stream.buffer.avail := by
      change (List.replicate 3960 65).length + 1 ≤ l.stream.buffer.avail
      rw [havail, List.length_replicate]
      decide
    rw [List.map_singleton, written_cons_of_le hneed]
    exact List.append_nil _
  rw [htext] at hdata
  have hroom : s.buffer.avail = 2 := by
    rw [avail_of_data hdata, havail, List.length_replicate]
  obtain ⟨record, hdtor, hiff⟩ := hopen.dtor
  refine ⟨l, _, s, record, _, hctor, hinserts, hdtor, fun hlast => ?_⟩
  have hcomplete := hiff.mp hlast
  have hname : (SourceFile.ofName (ascii "src/main.cc")).data = ascii "main.cc" := by decide
  rw [hroom, hname] at hcomplete
  rcases hcomplete with h | h | h
  · exact h.1 (by decide)
  · exact absurd h.1 (by decide)
  · exact absurd h.1 (by decide)

end Logger

end Muduo.Base
