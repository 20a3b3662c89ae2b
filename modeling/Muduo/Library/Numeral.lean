import Mathlib.Data.Nat.Digits.Defs
import Mathlib.Data.Nat.Notation

/-! Numbers as text in any base up to 36, with upper-case letters: how a text is read, and the one
text without leading zeros that is read as a number. -/

namespace Muduo.Library

/-! ### Reading -/

/-- A character of a decimal number. -/
def IsDigit (b : UInt8) : Prop := 48 ≤ b ∧ b ≤ 57

instance (b : UInt8) : Decidable (IsDigit b) := inferInstanceAs (Decidable (_ ∧ _))

/-- The character of a digit. -/
def digitChar (d : ℕ) : UInt8 := UInt8.ofNat (if d < 10 then 48 + d else 55 + d)

def digitValue (b : UInt8) : Option ℕ :=
  if 48 ≤ b ∧ b ≤ 57 then some (b.toNat - 48)
  else if 65 ≤ b ∧ b ≤ 90 then some (b.toNat - 55)
  else none

/-- One digit more. -/
def readDigit (base n : ℕ) (b : UInt8) : Option ℕ := do
  let d ← digitValue b
  if d < base then some (base * n + d) else none

/-- The number that a text without a sign stands for. -/
def parseNat (base : ℕ) (text : List UInt8) : Option ℕ :=
  if text = [] then none else text.foldlM (readDigit base) 0

/-- A decimal number with or without a sign. -/
def parseInt : List UInt8 → Option ℤ
  | [] => none
  | b :: rest =>
      if b = 45 then (parseNat 10 rest).map fun n => -(n : ℤ)
      else (parseNat 10 (b :: rest)).map fun n => (n : ℤ)

/-- A text that is read as `n` and has no leading zero. -/
structure Canonical (base : ℕ) (text : List UInt8) (n : ℕ) : Prop where
  parses : parseNat base text = some n
  no_leading_zero : text.head? = some 48 → text.length = 1

/-- A text that is read as `v`, with a sign exactly for negative numbers, and with digits that
have no leading zero. -/
structure CanonicalInt (text : List UInt8) (v : ℤ) : Prop where
  parses : parseInt text = some v
  sign : text.head? = some 45 ↔ v < 0
  no_leading_zero : ∀ digits, digits = text ∨ 45 :: digits = text →
    digits.head? = some 48 → digits.length = 1

/-! ### Writing -/

/-- The digits of a number, the least significant one first, and at least one. -/
def digitsOf (base n : ℕ) : List ℕ := if n = 0 then [0] else Nat.digits base n

/-- The digits as characters, the most significant one first. -/
def numeral (base n : ℕ) : List UInt8 := ((digitsOf base n).map digitChar).reverse

section

variable {base : ℕ}

theorem digitsOf_of_lt {n : ℕ} (h : n < base) : digitsOf base n = [n] := by
  rw [digitsOf]
  split
  · next hn => rw [hn]
  · next hn => exact Nat.digits_of_lt base n hn h

theorem digitsOf_of_le (hbase : 1 < base) {n : ℕ} (h : base ≤ n) :
    digitsOf base n = n % base :: digitsOf base (n / base) := by
  have hdiv : n / base ≠ 0 := (Nat.div_pos h (Nat.zero_lt_of_lt hbase)).ne'
  rw [digitsOf, digitsOf, if_neg (by omega), if_neg hdiv, Nat.digits_def' hbase (by omega)]

theorem numeral_of_lt {n : ℕ} (h : n < base) : numeral base n = [digitChar n] := by
  rw [numeral, digitsOf_of_lt h]
  rfl

theorem numeral_of_le (hbase : 1 < base) {n : ℕ} (h : base ≤ n) :
    numeral base n = numeral base (n / base) ++ [digitChar (n % base)] := by
  rw [numeral, digitsOf_of_le hbase h, List.map_cons, List.reverse_cons, numeral]

/-- Induction over the digits of a number. -/
theorem digits_induction (hbase : 1 < base) {P : ℕ → Prop} (hlt : ∀ n < base, P n)
    (hle : ∀ n, base ≤ n → P (n / base) → P n) (n : ℕ) : P n := by
  induction n using Nat.strong_induction_on with
  | _ n ih =>
      by_cases h : n < base
      · exact hlt n h
      · have hle' : base ≤ n := Nat.le_of_not_lt h
        exact hle n hle' (ih _ (Nat.div_lt_self (by omega) hbase))

theorem numeral_ne_nil (hbase : 1 < base) (n : ℕ) : numeral base n ≠ [] := by
  by_cases h : n < base
  · rw [numeral_of_lt h]
    exact List.cons_ne_nil _ _
  · rw [numeral_of_le hbase (Nat.le_of_not_lt h)]
    exact List.append_ne_nil_of_right_ne_nil _ (List.cons_ne_nil _ _)

theorem length_numeral_le (hbase : 1 < base) {n k : ℕ} (hk : 0 < k) (h : n < base ^ k) :
    (numeral base n).length ≤ k := by
  induction n using digits_induction hbase generalizing k with
  | hlt n hn =>
      rw [numeral_of_lt hn]
      exact hk
  | hle n hn ih =>
      obtain ⟨k, rfl⟩ := Nat.exists_eq_succ_of_ne_zero hk.ne'
      have hpos : 0 < k := by
        refine Nat.pos_of_ne_zero fun hzero => ?_
        rw [hzero, Nat.pow_one] at h
        exact absurd h (Nat.not_lt.mpr hn)
      have hdiv : n / base < base ^ k := Nat.div_lt_of_lt_mul (Nat.pow_succ' ▸ h)
      rw [numeral_of_le hbase hn, List.length_append]
      exact Nat.succ_le_succ (ih hpos hdiv)

/-! ### Reading what was written -/

theorem digitValue_digitChar {d : ℕ} (h : d < 36) : digitValue (digitChar d) = some d := by
  revert d
  decide

theorem digitChar_eq_zero {d : ℕ} (h : d < 36) (hzero : digitChar d = 48) : d = 0 := by
  have hvalue := digitValue_digitChar h
  rw [hzero] at hvalue
  exact (Option.some.inj hvalue).symm

theorem digitChar_ne_sign {d : ℕ} (h : d < 36) : digitChar d ≠ 45 := by
  intro hsign
  have hvalue := digitValue_digitChar h
  rw [hsign] at hvalue
  cases hvalue

theorem readDigit_digitChar {n d : ℕ} (hbase : base ≤ 36) (h : d < base) :
    readDigit base n (digitChar d) = some (base * n + d) := by
  rw [readDigit, digitValue_digitChar (Nat.lt_of_lt_of_le h hbase)]
  exact if_pos h

theorem head_numeral (hbase : 1 < base) (n : ℕ) :
    ∃ d < base, (numeral base n).head? = some (digitChar d) ∧ (d = 0 → n = 0) := by
  induction n using digits_induction hbase with
  | hlt n hn => exact ⟨n, hn, by rw [numeral_of_lt hn]; rfl, id⟩
  | hle n hn ih =>
      obtain ⟨d, hd, hhead, hzero⟩ := ih
      refine ⟨d, hd, ?_, fun h => ?_⟩
      · rw [numeral_of_le hbase hn, List.head?_append, hhead]
        rfl
      · exact absurd (hzero h) (Nat.div_pos hn (Nat.zero_lt_of_lt hbase)).ne'

/-- One digit more makes a number less than `base` times as large as the next one. -/
theorem readDigit_lt {m n : ℕ} {b : UInt8} (h : readDigit base m b = some n) :
    n < (m + 1) * base := by
  obtain ⟨d, -, hd⟩ := Option.bind_eq_some_iff.mp h
  obtain ⟨hlt, hn⟩ := Option.ite_none_right_eq_some.mp hd
  rw [← Option.some.inj hn, Nat.add_mul, Nat.one_mul, Nat.mul_comm m]
  exact Nat.add_lt_add_left hlt _

theorem foldlM_readDigit_lt {text : List UInt8} {m n : ℕ}
    (h : text.foldlM (readDigit base) m = some n) : n < (m + 1) * base ^ text.length := by
  induction text generalizing m with
  | nil =>
      obtain rfl : m = n := Option.some.inj h
      rw [List.length_nil, Nat.pow_zero]
      omega
  | cons b text ih =>
      obtain ⟨k, hk, hrest⟩ := Option.bind_eq_some_iff.mp h
      calc n < (k + 1) * base ^ text.length := ih hrest
        _ ≤ (m + 1) * base * base ^ text.length := Nat.mul_le_mul_right _ (readDigit_lt hk)
        _ = (m + 1) * base ^ (b :: text).length := by
          rw [List.length_cons, Nat.pow_succ', Nat.mul_assoc]

/-- No text of a number is shorter than its numeral. -/
theorem length_numeral_le_of_parseNat (hbase : 1 < base) {text : List UInt8} {n : ℕ}
    (h : parseNat base text = some n) : (numeral base n).length ≤ text.length := by
  obtain ⟨hne, hfold⟩ := Option.ite_none_left_eq_some.mp h
  have hlt := foldlM_readDigit_lt hfold
  rw [Nat.zero_add, Nat.one_mul] at hlt
  exact length_numeral_le hbase (List.length_pos_iff.mpr hne) hlt

variable (hbase : 1 < base) (hle : base ≤ 36)
include hbase hle

theorem foldlM_numeral (n : ℕ) : (numeral base n).foldlM (readDigit base) 0 = some n := by
  induction n using digits_induction hbase with
  | hlt n hn =>
      rw [numeral_of_lt hn, List.foldlM_cons, readDigit_digitChar hle hn, Nat.mul_zero,
        Nat.zero_add]
      rfl
  | hle n hn ih =>
      rw [numeral_of_le hbase hn, List.foldlM_append, ih]
      change (readDigit base (n / base) (digitChar (n % base))).bind some = some n
      rw [readDigit_digitChar hle (Nat.mod_lt n (Nat.zero_lt_of_lt hbase)), Nat.div_add_mod]
      rfl

theorem parseNat_numeral (n : ℕ) : parseNat base (numeral base n) = some n := by
  rw [parseNat, if_neg (numeral_ne_nil hbase n), foldlM_numeral hbase hle]

theorem canonical_numeral (n : ℕ) : Canonical base (numeral base n) n := by
  refine ⟨parseNat_numeral hbase hle n, fun hzero => ?_⟩
  obtain ⟨d, hd, hhead, hn⟩ := head_numeral hbase n
  rw [hhead] at hzero
  have hd0 := digitChar_eq_zero (Nat.lt_of_lt_of_le hd hle) (Option.some.inj hzero)
  rw [hn hd0, numeral_of_lt (Nat.zero_lt_of_lt hbase)]
  rfl

end

theorem parseNat_decimal (n : ℕ) : parseNat 10 (numeral 10 n) = some n :=
  parseNat_numeral (by decide) (by decide) n

theorem isDigit_of_mem_numeral {n : ℕ} {b : UInt8} (h : b ∈ numeral 10 n) : IsDigit b := by
  have hdigit : ∀ d < 10, IsDigit (digitChar d) := by decide
  have hbase : 1 < 10 := by decide
  induction n using digits_induction hbase with
  | hlt n hn =>
      rw [numeral_of_lt hn, List.mem_singleton] at h
      exact h ▸ hdigit n hn
  | hle n hn ih =>
      rw [numeral_of_le hbase hn, List.mem_append, List.mem_singleton] at h
      rcases h with h | rfl
      · exact ih h
      · exact hdigit _ (Nat.mod_lt n (by decide))

theorem not_mem_numeral {n : ℕ} {b : UInt8} (h : ¬ IsDigit b) : b ∉ numeral 10 n :=
  mt isDigit_of_mem_numeral h

/-- The text of an integer. -/
def intNumeral (v : ℤ) : List UInt8 :=
  if v < 0 then 45 :: numeral 10 v.natAbs else numeral 10 v.natAbs

theorem head_numeral_ne_sign (n : ℕ) : (numeral 10 n).head? ≠ some 45 := by
  have hbase : 1 < 10 := by decide
  obtain ⟨d, hd, hhead, -⟩ := head_numeral hbase n
  rw [hhead]
  exact fun h => digitChar_ne_sign (Nat.lt_trans hd (by decide)) (Option.some.inj h)

theorem parseInt_numeral (n : ℕ) : parseInt (numeral 10 n) = some (n : ℤ) := by
  have hparse := parseNat_decimal n
  have hsign := head_numeral_ne_sign n
  cases htext : numeral 10 n with
  | nil => exact absurd htext (numeral_ne_nil (by decide) n)
  | cons b rest =>
      rw [htext] at hparse hsign
      rw [parseInt, if_neg (fun h => hsign (congrArg some h)), hparse]
      rfl

theorem canonicalInt_intNumeral (v : ℤ) : CanonicalInt (intNumeral v) v := by
  have hcanonical : Canonical 10 (numeral 10 v.natAbs) v.natAbs :=
    canonical_numeral (by decide) (by decide) v.natAbs
  have hsign := head_numeral_ne_sign v.natAbs
  by_cases hv : v < 0
  · rw [intNumeral, if_pos hv]
    refine ⟨?_, iff_of_true rfl hv, ?_⟩
    · rw [parseInt, if_pos rfl, hcanonical.parses]
      exact congrArg some (Int.ofNat_natAbs_of_nonpos (Int.le_of_lt hv) ▸ Int.neg_neg v)
    · rintro digits (rfl | hdigits)
      · exact fun h => absurd (Option.some.inj h) (by decide)
      · exact (List.cons.inj hdigits).2 ▸ hcanonical.no_leading_zero
  · rw [intNumeral, if_neg hv]
    refine ⟨?_, iff_of_false hsign hv, ?_⟩
    · rw [parseInt_numeral, Int.natAbs_of_nonneg (Int.not_lt.mp hv)]
    · rintro digits (rfl | hdigits)
      · exact hcanonical.no_leading_zero
      · exact absurd (congrArg List.head? hdigits).symm hsign

theorem length_intNumeral_le {v : ℤ} {k : ℕ} (hk : 0 < k) (h : v.natAbs < 10 ^ k) :
    (intNumeral v).length ≤ k + 1 := by
  have hlength : (numeral 10 v.natAbs).length ≤ k := length_numeral_le (by decide) hk h
  rw [intNumeral]
  split
  · exact Nat.succ_le_succ hlength
  · exact Nat.le_succ_of_le hlength

end Muduo.Library
