import Mathlib.Algebra.Group.Nat.Defs
import Mathlib.Data.Int.Notation
import Mathlib.Data.Nat.Notation

/-! Two's complement values and big-endian byte strings of fixed-width words. -/

namespace Muduo.Library

/-- The two's complement value of the low `w` bits of `n`. -/
def signed (w n : ℕ) : ℤ :=
  if n % 2 ^ w < 2 ^ (w - 1) then (n % 2 ^ w : ℕ) else (n % 2 ^ w : ℕ) - (2 ^ w : ℕ)

theorem signed_of_lt {w n : ℕ} (h : n < 2 ^ (w - 1)) : signed w n = n := by
  have hle : 2 ^ (w - 1) ≤ 2 ^ w := Nat.pow_le_pow_right (by decide) (Nat.sub_le w 1)
  have hmod : n % 2 ^ w = n := Nat.mod_eq_of_lt (Nat.lt_of_lt_of_le h hle)
  rw [signed, hmod, if_pos h]

theorem signed_mod (w n : ℕ) : signed w (n % 2 ^ w) = signed w n := by
  rw [signed, Nat.mod_mod, ← signed]

/-- The word that represents `x` in two's complement. -/
def word (w : ℕ) (x : ℤ) : ℕ := (x % (2 ^ w : ℕ)).toNat

theorem word_of_nonneg {w : ℕ} {x : ℤ} (hx : 0 ≤ x) (hlt : x < (2 ^ w : ℕ)) :
    word w x = x.toNat := by
  rw [word, Int.emod_eq_of_lt hx hlt]

theorem word_signed (w n : ℕ) : word w (signed w n) = n % 2 ^ w := by
  have hlt : n % 2 ^ w < 2 ^ w := Nat.mod_lt _ (Nat.two_pow_pos w)
  have hword : ((n % 2 ^ w : ℕ) : ℤ) % (2 ^ w : ℕ) = (n % 2 ^ w : ℕ) :=
    Int.emod_eq_of_lt (Int.natCast_nonneg _) (Int.ofNat_lt.mpr hlt)
  unfold word signed
  split
  · rw [hword, Int.toNat_natCast]
  · rw [Int.sub_emod_right, hword, Int.toNat_natCast]

/-- Two's complement represents each value in its range. -/
theorem signed_word {k : ℕ} {x : ℤ} (hlow : -(2 ^ k : ℕ) ≤ x) (hhigh : x < (2 ^ k : ℕ)) :
    signed (k + 1) (word (k + 1) x) = x := by
  have hpow : 2 ^ (k + 1) = 2 * 2 ^ k := Nat.pow_succ'
  have hmod : word (k + 1) x < 2 ^ (k + 1) := by
    rw [word]
    omega
  rw [signed, Nat.mod_eq_of_lt hmod, Nat.add_sub_cancel, word, hpow]
  generalize 2 ^ k = p at *
  rcases Int.lt_or_le x 0 with hneg | hnonneg
  · have hx : x % ((2 * p : ℕ) : ℤ) = x + (2 * p : ℕ) := by
      rw [← Int.add_emod_right, Int.emod_eq_of_lt (by omega) (by omega)]
    rw [hx, if_neg (by omega)]
    omega
  · have hx : x % ((2 * p : ℕ) : ℤ) = x := Int.emod_eq_of_lt hnonneg (by omega)
    rw [hx, if_pos (by omega)]
    omega

/-- The value of a conversion to `int`. -/
def castInt (x : ℤ) : ℤ := signed 32 (word 32 x)

theorem castInt_natCast (n : ℕ) : castInt n = signed 32 n := by
  have hword : word 32 n = n % 2 ^ 32 := by
    rw [word, ← Int.natCast_emod, Int.toNat_natCast]
  rw [castInt, hword, signed_mod]

theorem castInt_of {x : ℤ} (hlow : -2147483648 ≤ x) (hhigh : x ≤ 2147483647) : castInt x = x :=
  signed_word (k := 31) hlow (Int.lt_add_one_of_le hhigh)

theorem castInt_of_lt {n : ℕ} (h : n < 2 ^ 31) : castInt n = n := by
  rw [castInt_natCast]
  exact signed_of_lt h

/-- The low `k` bytes of `n`, the most significant one first. -/
def toBytes : ℕ → ℕ → List UInt8
  | 0, _ => []
  | k + 1, n => toBytes k (n / 256) ++ [UInt8.ofNat n]

def ofBytes (bs : List UInt8) : ℕ := bs.foldl (fun n b => n * 256 + b.toNat) 0

@[simp] theorem length_toBytes (k n : ℕ) : (toBytes k n).length = k := by
  induction k generalizing n with
  | zero => rfl
  | succ k ih => rw [toBytes, List.length_append, ih, List.length_singleton]

theorem ofBytes_toBytes (k n : ℕ) : ofBytes (toBytes k n) = n % 256 ^ k := by
  induction k generalizing n with
  | zero => rw [Nat.pow_zero, Nat.mod_one, toBytes, ofBytes, List.foldl_nil]
  | succ k ih =>
      have hlow : (UInt8.ofNat n).toNat = n % 256 := UInt8.toNat_ofNat'
      calc ofBytes (toBytes (k + 1) n)
          = ofBytes (toBytes k (n / 256)) * 256 + (UInt8.ofNat n).toNat := by
            rw [toBytes, ofBytes, List.foldl_append, ← ofBytes, List.foldl_cons, List.foldl_nil]
        _ = n % 256 + 256 * (n / 256 % 256 ^ k) := by
            rw [ih, hlow, Nat.mul_comm, Nat.add_comm]
        _ = n % 256 ^ (k + 1) := by rw [← Nat.mod_mul, Nat.pow_succ, Nat.mul_comm]

/-- The signed 32-bit integer that is sent as these four bytes. -/
theorem signed_ofBytes_word (n : ℕ) :
    signed 32 (ofBytes (toBytes 4 (word 32 (signed 32 n)))) = signed 32 n := by
  rw [ofBytes_toBytes, word_signed, show (256 : ℕ) ^ 4 = 2 ^ 32 from rfl, Nat.mod_mod, signed_mod]

end Muduo.Library
