import Muduo.Base.LogStream
import Muduo.Library.Numeral

/-! What `convert` and `convertHex` write: the canonical text of the number, within the room that
`formatInteger` and the insertion of a pointer ask for. -/

namespace Muduo.Base.LogStream

open Library Net

/-! ### The loop -/

/-- A store at the end of what has been written. -/
theorem store_append {written rest : List UInt8} (b : UInt8) (h : 0 < rest.length) :
    store (written ++ rest) written.length b = .ok ((written ++ [b]) ++ rest.tail) := by
  obtain ⟨x, rest, rfl⟩ := List.exists_cons_of_length_pos h
  have hlt : written.length < (written ++ x :: rest).length := by simp
  have hset : (written ++ x :: rest).set written.length b = (written ++ [b]) ++ rest := by simp
  rw [store, ensure_of _ hlt, ok_bind, hset]
  rfl

section

variable {base : ℕ} {digit : ℤ → Except Fault UInt8} {Admits : ℤ → Prop}

/-- A number that the digits can be looked up for loses its last digit in each round. -/
theorem convertLoop_eq (hbase : 1 < base) (hstep : ∀ i, Admits i → Admits (i.tdiv base))
    (hdigit : ∀ i, Admits i → digit (i.tmod base) = .ok (digitChar (i.natAbs % base)))
    {rounds : ℕ} {i : ℤ} (hrounds : i.natAbs < rounds) (hi : Admits i) {written rest : List UInt8}
    (hroom : (digitsOf base i.natAbs).length ≤ rest.length) :
    convertLoop base digit rounds i (written ++ rest) written.length =
      .ok ((written ++ (digitsOf base i.natAbs).map digitChar) ++
          rest.drop (digitsOf base i.natAbs).length,
        written.length + (digitsOf base i.natAbs).length) := by
  induction rounds generalizing i written rest with
  | zero => exact absurd hrounds (Nat.not_lt_zero _)
  | succ rounds ih =>
      have hdiv : (i.tdiv base).natAbs = i.natAbs / base := Int.natAbs_tdiv i base
      by_cases hlt : i.natAbs < base
      · -- The last round.
        have hzero : i.tdiv base = 0 := by
          rw [← Int.natAbs_eq_zero, hdiv, Nat.div_eq_of_lt hlt]
        rw [digitsOf_of_lt hlt] at hroom ⊢
        rw [convertLoop, hdigit i hi, ok_bind, store_append _ hroom, ok_bind,
          if_neg (not_not_intro hzero), Nat.mod_eq_of_lt hlt, List.map_singleton,
          List.length_singleton, List.drop_one]
        rfl
      · have hle : base ≤ i.natAbs := Nat.le_of_not_lt hlt
        have hne : i.tdiv base ≠ 0 := by
          rw [Ne, ← Int.natAbs_eq_zero, hdiv]
          exact (Nat.div_pos hle (Nat.zero_lt_of_lt hbase)).ne'
        have hless : i.natAbs / base < i.natAbs := Nat.div_lt_self (by omega) hbase
        rw [digitsOf_of_le hbase hle, List.length_cons] at hroom
        have hroom' : (digitsOf base (i.tdiv base).natAbs).length ≤ rest.tail.length := by
          rw [hdiv, List.length_tail]
          omega
        have hnext := @ih (i.tdiv base) (by omega) (hstep i hi)
          (written ++ [digitChar (i.natAbs % base)]) rest.tail hroom'
        rw [convertLoop, hdigit i hi, ok_bind, store_append _ (by omega), ok_bind, if_pos hne]
        rw [List.length_append, List.length_singleton, hdiv] at hnext
        rw [hnext, digitsOf_of_le hbase hle]
        simp only [List.map_cons, List.length_cons, List.append_assoc, List.singleton_append,
          List.drop_tail, Nat.add_assoc, Nat.add_comm 1]

/-- From the start of the memory. The characters stand in it in the order they are found in. -/
theorem convertLoop_start (hbase : 1 < base) (hstep : ∀ i, Admits i → Admits (i.tdiv base))
    (hdigit : ∀ i, Admits i → digit (i.tmod base) = .ok (digitChar (i.natAbs % base))) {i : ℤ}
    (hi : Admits i) {written buf : List UInt8} (hwritten : written.reverse = numeral base i.natAbs)
    (hroom : written.length ≤ buf.length) :
    convertLoop base digit (i.natAbs + 1) i buf 0 =
      .ok (written ++ buf.drop written.length, written.length) := by
  obtain rfl : written = (digitsOf base i.natAbs).map digitChar := List.reverse_injective hwritten
  rw [List.length_map] at hroom ⊢
  have hloop := @convertLoop_eq base digit Admits hbase hstep hdigit _ i (Nat.lt_succ_self _) hi []
    buf hroom
  rwa [List.nil_append, List.nil_append, List.length_nil, Nat.zero_add] at hloop

end

/-- The characters so far are turned around, and a `NUL` stands behind them. -/
theorem terminate_append {written rest : List UInt8} (h : 0 < rest.length) :
    terminate (written ++ rest) written.length =
      .ok (written.reverse ++ 0 :: rest.tail, written.length) := by
  rw [terminate, store_append 0 h, ok_bind, List.append_assoc, List.take_left, List.drop_left]
  rfl

/-! ### Digits in the tables -/

theorem zero_eq {d : ℤ} (h : d.natAbs < 10) : zero d = .ok (digitChar d.natAbs) := by
  have htable : ∀ n < 10,
      zero (n : ℕ) = .ok (digitChar n) ∧ zero (-(n : ℕ)) = .ok (digitChar n) := by
    decide
  rcases Int.natAbs_eq d with hd | hd
  · exact (congrArg zero hd).trans (htable _ h).1
  · exact (congrArg zero hd).trans (htable _ h).2

theorem lookup_digitsHex {n : ℕ} (h : n < 16) : lookup digitsHex n = .ok (digitChar n) := by
  revert n
  decide

/-! ### The two conversions -/

theorem convert_eq {buf : List UInt8} {v : ℤ} (hroom : (intNumeral v).length < buf.length) :
    convert buf v = .ok (intNumeral v ++ 0 :: buf.drop ((intNumeral v).length + 1),
      (intNumeral v).length) := by
  have hdigit : ∀ i : ℤ, True → zero (i.tmod (10 : ℕ)) = .ok (digitChar (i.natAbs % 10)) := by
    intro i _
    have hmod : (i.tmod (10 : ℕ)).natAbs = i.natAbs % 10 := Int.natAbs_tmod i 10
    rw [zero_eq (hmod ▸ Nat.mod_lt _ (by decide)), hmod]
  have hwritten : (numeral 10 v.natAbs).reverse.reverse = numeral 10 v.natAbs :=
    List.reverse_reverse _
  generalize (numeral 10 v.natAbs).reverse = written at hwritten
  rw [intNumeral, ← hwritten] at hroom ⊢
  have hle : written.length < buf.length := by
    split at hroom
    · rw [List.length_cons, List.length_reverse] at hroom
      omega
    · rwa [List.length_reverse] at hroom
  have hloop : convertLoop 10 zero (v.natAbs + 1) v buf 0 =
      .ok (written ++ buf.drop written.length, written.length) :=
    convertLoop_start (by decide) (fun _ _ => trivial) hdigit trivial hwritten (Nat.le_of_lt hle)
  rw [convert, hloop, ok_bind]
  dsimp only
  split
  · next hv =>
      rw [if_pos hv, List.length_cons, List.length_reverse] at hroom
      have hminus : 0 < (buf.drop written.length).tail.length := by
        rw [List.length_tail, List.length_drop]
        omega
      have hterminate := @terminate_append (written ++ [45]) (buf.drop written.length).tail hminus
      rw [List.length_append, List.length_singleton] at hterminate
      rw [store_append _ (by rw [List.length_drop]; omega), ok_bind, hterminate]
      simp [List.tail_drop]
  · rw [terminate_append (by rw [List.length_drop]; omega)]
    simp [List.tail_drop]

theorem convertHex_eq {buf : List UInt8} {v : ℕ} (hroom : (numeral 16 v).length < buf.length) :
    convertHex buf v = .ok (numeral 16 v ++ 0 :: buf.drop ((numeral 16 v).length + 1),
      (numeral 16 v).length) := by
  have hstep : ∀ i : ℤ, 0 ≤ i → 0 ≤ i.tdiv (16 : ℕ) := fun i hi =>
    Int.tdiv_nonneg hi (Int.natCast_nonneg 16)
  have hdigit : ∀ i : ℤ, 0 ≤ i →
      lookup digitsHex (i.tmod (16 : ℕ)) = .ok (digitChar (i.natAbs % 16)) := by
    intro i hi
    obtain ⟨n, rfl⟩ := Int.eq_ofNat_of_zero_le hi
    exact lookup_digitsHex (Nat.mod_lt n (by decide))
  have hwritten : (numeral 16 v).reverse.reverse = numeral 16 v := List.reverse_reverse _
  generalize (numeral 16 v).reverse = written at hwritten
  rw [← hwritten] at hroom ⊢
  rw [List.length_reverse] at hroom ⊢
  have hloop : convertLoop 16 (lookup digitsHex) (v + 1) v buf 0 =
      .ok (written ++ buf.drop written.length, written.length) :=
    convertLoop_start (by decide) hstep hdigit (Int.natCast_nonneg v) hwritten
      (Nat.le_of_lt hroom)
  rw [convertHex, hloop, ok_bind]
  dsimp only
  rw [terminate_append (by rw [List.length_drop]; omega), List.tail_drop]

/-! ### Room -/

theorem Value.natAbs_lt (v : Value) : v.val.natAbs < 10 ^ 20 := by
  obtain ⟨type, val, hmin, hmax⟩ := v
  cases type <;> simp only [IntType.min, IntType.max] at hmin hmax ⊢ <;> omega

/-- The sign, the digits and the `NUL`. -/
theorem length_intNumeral_lt (v : Value) : (intNumeral v.val).length + 1 ≤ kMaxNumericSize := by
  have hlength := length_intNumeral_le (by decide) v.natAbs_lt
  rw [kMaxNumericSize]
  omega

/-- `0x`, the digits and the `NUL`. -/
theorem length_numeral_hex_lt {p : ℕ} (h : p < 2 ^ 64) :
    2 + (numeral 16 p).length + 1 ≤ kMaxNumericSize := by
  have hpow : (2 : ℕ) ^ 64 = 16 ^ 16 := by decide
  have hlength : (numeral 16 p).length ≤ 16 :=
    length_numeral_le (by decide) (by decide) (hpow ▸ h)
  rw [kMaxNumericSize]
  omega

/-! ### Streams -/

/-- A text that asks for `need` characters is taken whole or not at all. -/
def Takes (s s' : LogStream) (need : ℕ) (text : List UInt8) : Prop :=
  s'.buffer.data = s.buffer.data ++ if need ≤ s.buffer.avail then text else []

theorem length_current (s : LogStream) : s.current.length = s.buffer.avail :=
  List.length_replicate

theorem add_eq {s : LogStream} {buf text : List UInt8} {len : ℕ} (htext : buf.take len = text)
    (h : text.length ≤ s.buffer.avail) :
    ∃ s', s.add buf len = .ok s' ∧ s'.buffer.data = s.buffer.data ++ text := by
  have hfits : (s.buffer.data ++ buf.take len).length ≤ kSmallBuffer := by
    have hdata := s.buffer.fits
    rw [FixedBuffer.avail, FixedBuffer.length] at h
    rw [htext, List.length_append]
    omega
  exact ⟨_, dif_pos hfits, congrArg _ htext⟩

theorem formatInteger_takes (s : LogStream) (v : Value) :
    ∃ s', s.formatInteger v.val = .ok s' ∧ Takes s s' kMaxNumericSize (intNumeral v.val) := by
  have hlength := length_intNumeral_lt v
  by_cases h : kMaxNumericSize ≤ s.buffer.avail
  · have hroom : (intNumeral v.val).length < s.current.length := by
      rw [length_current]
      omega
    have htake : (intNumeral v.val ++ 0 :: s.current.drop ((intNumeral v.val).length + 1)).take
        (intNumeral v.val).length = intNumeral v.val := List.take_left
    obtain ⟨s', hadd, hdata⟩ := add_eq htake (s := s) (by omega)
    refine ⟨s', ?_, ?_⟩
    · rw [formatInteger, if_pos h, convert_eq hroom, ok_bind]
      exact hadd
    · rw [Takes, if_pos h, hdata]
  · refine ⟨s, if_neg h, ?_⟩
    rw [Takes, if_neg h, List.append_nil]

theorem formatPointer_takes (s : LogStream) {p : ℕ} (hp : p < 2 ^ 64) :
    ∃ s', s.formatPointer p = .ok s' ∧ Takes s s' kMaxNumericSize (ascii "0x" ++ numeral 16 p) := by
  have hlength := length_numeral_hex_lt hp
  by_cases h : kMaxNumericSize ≤ s.buffer.avail
  · have hcurrent : kMaxNumericSize ≤ s.current.length := by rwa [length_current]
    rw [kMaxNumericSize] at hlength hcurrent
    have hzero : store s.current 0 48 = .ok (48 :: s.current.tail) :=
      @store_append [] s.current 48 (by omega)
    have hx : store (48 :: s.current.tail) 1 120 = .ok (48 :: 120 :: s.current.tail.tail) :=
      @store_append [48] s.current.tail 120 (by rw [List.length_tail]; omega)
    have hroom : (numeral 16 p).length < s.current.tail.tail.length := by
      rw [List.length_tail, List.length_tail]
      omega
    have htake : ([48, 120] ++
        (numeral 16 p ++ 0 :: s.current.tail.tail.drop ((numeral 16 p).length + 1))).take
        ((numeral 16 p).length + 2) = ascii "0x" ++ numeral 16 p :=
      congrArg (fun xs => 48 :: 120 :: xs) List.take_left
    obtain ⟨s', hadd, hdata⟩ := add_eq htake (s := s) (by
      rw [List.length_append, ← length_current]
      change 2 + (numeral 16 p).length ≤ s.current.length
      omega)
    refine ⟨s', ?_, ?_⟩
    · rw [formatPointer, if_pos h, hzero, ok_bind, hx, ok_bind]
      change (convertHex s.current.tail.tail p >>= fun r => s.add ([48, 120] ++ r.1) (r.2 + 2)) = _
      rw [convertHex_eq hroom, ok_bind]
      exact hadd
    · rw [Takes, if_pos h, hdata]
  · refine ⟨s, if_neg h, ?_⟩
    rw [Takes, if_neg h, List.append_nil]

/-- Texts of integers and of addresses are canonical, they fit what is asked for, and none is
written past the end of a stream. -/
theorem integers_exact (v : Value) (p : ℕ) (hp : p < 2 ^ 64) (buf : List UInt8)
    (hbuf : kMaxNumericSize ≤ buf.length) (s : LogStream) :
    (∃ text, convert buf v.val = .ok (text ++ 0 :: buf.drop (text.length + 1), text.length) ∧
      CanonicalInt text v.val ∧ text.length + 1 ≤ kMaxNumericSize ∧
      ∃ s', s.formatInteger v.val = .ok s' ∧ Takes s s' kMaxNumericSize text) ∧
    (∃ text, convertHex (buf.drop 2) p =
        .ok (text ++ 0 :: (buf.drop 2).drop (text.length + 1), text.length) ∧
      Canonical 16 text p ∧ 2 + text.length + 1 ≤ kMaxNumericSize ∧
      ∃ s', s.formatPointer p = .ok s' ∧ Takes s s' kMaxNumericSize (ascii "0x" ++ text)) := by
  have hint := length_intNumeral_lt v
  have hhex := length_numeral_hex_lt hp
  have hdrop : (numeral 16 p).length < (buf.drop 2).length := by
    rw [List.length_drop]
    omega
  exact ⟨⟨_, convert_eq (by omega), canonicalInt_intNumeral v.val, hint, formatInteger_takes s v⟩,
    ⟨_, convertHex_eq hdrop, canonical_numeral (by decide) (by decide) p, hhex,
      formatPointer_takes s hp⟩⟩

/-- The most negative `long`, and the highest address. -/
theorem integers_exact_extremes :
    (∃ text, convert (List.replicate 32 0) (-2 ^ 63) =
        .ok (text ++ 0 :: (List.replicate 32 0).drop (text.length + 1), text.length) ∧
      CanonicalInt text (-2 ^ 63) ∧ text.length + 1 ≤ kMaxNumericSize ∧
      ∃ s', init.formatInteger (-2 ^ 63) = .ok s' ∧ Takes init s' kMaxNumericSize text) ∧
    (∃ text, convertHex ((List.replicate 32 0).drop 2) (2 ^ 64 - 1) =
        .ok (text ++ 0 :: ((List.replicate 32 0).drop 2).drop (text.length + 1), text.length) ∧
      Canonical 16 text (2 ^ 64 - 1) ∧ 2 + text.length + 1 ≤ kMaxNumericSize ∧
      ∃ s', init.formatPointer (2 ^ 64 - 1) = .ok s' ∧
        Takes init s' kMaxNumericSize (ascii "0x" ++ text)) :=
  integers_exact ⟨.long, -2 ^ 63, Int.le_refl _, by decide⟩ (2 ^ 64 - 1) (by decide)
    (List.replicate 32 0) (Nat.le_of_eq List.length_replicate.symm) init

end Muduo.Base.LogStream
