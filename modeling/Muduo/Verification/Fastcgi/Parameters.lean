import Muduo.Library.Codec
import Muduo.Net.Http.Fastcgi
import Muduo.Verification.Buffer.Layout

/-! Parameters as FastCGI encodes them: the bodies are uniquely decodable, and a record is right
as long as its body fits the array it is built in. -/

namespace Muduo.Net.FastCgi

open Library Util

/-- A name with its value. -/
abbrev Param : Type := List UInt8 × List UInt8

/-! ### The rule of FastCGI -/

/-- A byte below 128, or four bytes of which the first has its top bit set. -/
def decodeLength : List UInt8 → Option (ℕ × List UInt8)
  | [] => none
  | b :: rest =>
      if b.toNat < 128 then some (b.toNat, rest)
      else
        match rest with
        | b₂ :: b₁ :: b₀ :: rest =>
            some (b.toNat % 128 * 2 ^ 24 + b₂.toNat * 2 ^ 16 + b₁.toNat * 2 ^ 8 + b₀.toNat, rest)
        | _ => none

/-- The two lengths, the name and the value. -/
def decodeParam (xs : List UInt8) : Option (Param × List UInt8) := do
  let (nameLen, xs) ← decodeLength xs
  let (valueLen, xs) ← decodeLength xs
  if nameLen + valueLen ≤ xs.length then
    return ((xs.take nameLen, (xs.drop nameLen).take valueLen), xs.drop (nameLen + valueLen))
  else none

/-- How many bytes a length takes. -/
def lengthSize (n : ℕ) : ℕ := if n < 128 then 1 else 4

def bodySize (p : Param) : ℕ :=
  lengthSize p.1.length + lengthSize p.2.length + p.1.length + p.2.length

/-! ### Bytes and lengths -/

theorem toNat_byte (n : ℕ) : (byte n).toNat = n % 256 := by
  have hword : word 8 (n : ℤ) = n % 256 := by
    rw [word]
    omega
  rw [byte, hword, UInt8.toNat_ofNat', Nat.mod_mod]

theorem byte_shiftRight (n k : ℕ) : byte ((n : ℤ) >>> k) = byte ((n / 2 ^ k : ℕ) : ℤ) := by
  rw [Int.shiftRight_eq_div_pow, ← Int.natCast_ediv]

/-- The top bit on top of a number that does not use it. -/
theorem toNat_or_flag {b : UInt8} (h : b.toNat < 128) : (b ||| 0x80).toNat = b.toNat + 128 := by
  have hor : 2 ^ 7 * 1 + b.toNat = 2 ^ 7 * 1 ||| b.toNat := Nat.two_pow_add_eq_or_of_lt h 1
  rw [UInt8.toNat_or, Nat.or_comm]
  exact hor.symm.trans (Nat.add_comm _ _)

theorem length_lengthBytes (n : ℕ) : (lengthBytes n).length = lengthSize n := by
  rw [lengthBytes, lengthSize]
  split <;> split <;> first | rfl | omega

theorem decodeLength_lengthBytes {n : ℕ} (h : n < 2 ^ 31) (rest : List UInt8) :
    decodeLength (lengthBytes n ++ rest) = some (n, rest) := by
  by_cases hsmall : n < 128
  · have hlt : (byte n).toNat < 128 := by
      rw [toNat_byte]
      omega
    rw [lengthBytes, if_pos (by omega), List.singleton_append]
    simp only [decodeLength]
    rw [if_pos hlt, toNat_byte, Nat.mod_eq_of_lt (by omega)]
  · have htop : (byte ((n / 2 ^ 24 : ℕ) : ℤ)).toNat = n / 2 ^ 24 := by
      rw [toNat_byte]
      omega
    have hflag := toNat_or_flag (b := byte ((n / 2 ^ 24 : ℕ) : ℤ)) (by omega)
    rw [lengthBytes, if_neg (by omega), byte_shiftRight, byte_shiftRight, byte_shiftRight]
    simp only [List.cons_append, List.nil_append, decodeLength]
    rw [if_neg (by omega), hflag, htop, toNat_byte, toNat_byte, toNat_byte]
    congr 2
    omega

theorem cstr_of_clean {xs : List UInt8} (h : 0 ∉ xs) : cstr xs = xs := by
  rw [cstr, List.takeWhile_eq_self_iff]
  intro b hb
  exact decide_eq_true fun heq => h (heq ▸ hb)

/-! ### Bodies -/

/-- Strings as C has them, with lengths that an `int` holds. -/
structure Clean (p : Param) : Prop where
  name : 0 ∉ p.1
  value : 0 ∉ p.2
  name_lt : p.1.length < 2 ^ 31
  value_lt : p.2.length < 2 ^ 31

/-- The body for the lengths of the two strings. -/
def bodyOf (p : Param) : List UInt8 := nameValueBytes p.1 p.1.length p.2 p.2.length

theorem bodyOf_eq {p : Param} (hname : 0 ∉ p.1) (hvalue : 0 ∉ p.2) :
    bodyOf p = lengthBytes p.1.length ++ (lengthBytes p.2.length ++ (p.1 ++ p.2)) := by
  rw [bodyOf, nameValueBytes, cstr_of_clean hname, cstr_of_clean hvalue, List.append_assoc,
    List.append_assoc]

theorem length_bodyOf {p : Param} (hname : 0 ∉ p.1) (hvalue : 0 ∉ p.2) :
    (bodyOf p).length = bodySize p := by
  rw [bodyOf_eq hname hvalue]
  simp only [List.length_append, length_lengthBytes, bodySize, Nat.add_assoc]

theorem bodyOf_ne_nil (p : Param) : bodyOf p ≠ [] := by
  have hlength : lengthBytes p.1.length ≠ [] := by
    rw [lengthBytes]
    split <;> simp
  simp [bodyOf, nameValueBytes, hlength]

theorem readsBack_param : ReadsBack bodyOf decodeParam Clean := by
  intro p hp rest
  rw [bodyOf_eq hp.name hp.value]
  simp only [List.append_assoc, decodeParam, decodeLength_lengthBytes hp.name_lt,
    decodeLength_lengthBytes hp.value_lt, Option.bind_eq_bind, Option.bind_some]
  rw [if_pos (by simp only [List.length_append]; omega)]
  simp

/-- The body stands at the front of the memory, and `*bodyLen` is its length. -/
def Stores (p : Param) : Prop :=
  ∀ bodyBuff : List UInt8, (bodyOf p).length ≤ bodyBuff.length →
    makeNameValueBody p.1 p.1.length p.2 p.2.length bodyBuff =
      .ok (bodyOf p ++ bodyBuff.drop (bodyOf p).length, (bodyOf p).length)

theorem makeNameValueBody_of_le {name value bytes bodyBuff : List UInt8} {nameLen valueLen : ℤ}
    (hbytes : nameValueBytes name nameLen value valueLen = bytes)
    (h : bytes.length ≤ bodyBuff.length) :
    makeNameValueBody name nameLen value valueLen bodyBuff =
      .ok (bytes ++ bodyBuff.drop bytes.length, castInt bytes.length) := by
  have hcopy := copyInto_eq bytes 0 bodyBuff (by omega)
  rw [List.take_zero, List.nil_append, Nat.zero_add] at hcopy
  rw [makeNameValueBody, hbytes, ensure_of _ h, ok_bind, hcopy]
  rfl

theorem castInt_eq_iff (n : ℕ) : castInt n = n ↔ n < 2 ^ 31 := by
  refine ⟨fun h => ?_, castInt_of_lt⟩
  rw [castInt_natCast, signed] at h
  split at h <;> omega

theorem stores_iff {p : Param} (hp : Clean p) : Stores p ↔ bodySize p < 2 ^ 31 := by
  have hsize := castInt_eq_iff (bodyOf p).length
  rw [length_bodyOf hp.name hp.value] at hsize
  have hbytes : nameValueBytes p.1 p.1.length p.2 p.2.length = bodyOf p := rfl
  refine Iff.trans ?_ hsize
  constructor
  · intro hstores
    have hbody := hstores (bodyOf p) (Nat.le_refl _)
    rw [makeNameValueBody_of_le hbytes (Nat.le_refl _)] at hbody
    have hlength := (Prod.mk.inj (Except.ok.inj hbody)).2
    rw [length_bodyOf hp.name hp.value] at hlength
    exact hlength
  · intro hlength bodyBuff hle
    rw [makeNameValueBody_of_le hbytes hle, length_bodyOf hp.name hp.value, hlength]

/-- Bodies one after the other are decoded to the parameters they were made from; `*bodyLen` is
the length of a body exactly if an `int` holds it. -/
theorem params_decodable (params : List Param) (h : ∀ p ∈ params, Clean p) :
    decodeAll decodeParam (params.flatMap bodyOf) = some params ∧
      ∀ p ∈ params, (Stores p ↔ bodySize p < 2 ^ 31) :=
  ⟨decodeAll_flatMap readsBack_param bodyOf_ne_nil h, fun p hp => stores_iff (h p hp)⟩

theorem params_decodable_two :
    decodeAll decodeParam ([(ascii "A", List.replicate 128 66), ([], [67])].flatMap bodyOf) =
        some [(ascii "A", List.replicate 128 66), ([], [67])] ∧
      ∀ p ∈ [(ascii "A", List.replicate 128 66), ([], [67])],
        (Stores p ↔ bodySize p < 2 ^ 31) := by
  refine params_decodable _ fun p hp => ?_
  rcases List.mem_pair.mp hp with rfl | rfl
  · refine ⟨by decide, fun h => ?_, by decide, by simp⟩
    exact absurd (List.eq_of_mem_replicate h) (by decide)
  · exact ⟨by decide, by decide, by decide, by decide⟩

theorem not_stores_of_large {p : Param} (hp : Clean p) (h : 2 ^ 31 ≤ p.1.length + p.2.length) :
    ¬ Stores p := by
  rw [stores_iff hp, bodySize]
  omega

/-- A name and a value of `n` characters each. -/
def evenParam (n : ℕ) : Param := (List.replicate n 65, List.replicate n 66)

theorem evenParam_clean {n : ℕ} (hn : n < 2 ^ 31) : Clean (evenParam n) where
  name h := absurd (List.eq_of_mem_replicate h) (by decide)
  value h := absurd (List.eq_of_mem_replicate h) (by decide)
  name_lt := by rwa [evenParam, List.length_replicate]
  value_lt := by rwa [evenParam, List.length_replicate]

theorem not_stores_evenParam {n : ℕ} (hn : n < 2 ^ 31) (hlarge : 2 ^ 31 ≤ n + n) :
    ¬ Stores (evenParam n) := by
  refine not_stores_of_large (evenParam_clean hn) ?_
  rwa [evenParam, List.length_replicate, List.length_replicate]

theorem huge_body_length_lost : Clean (evenParam (2 ^ 30)) ∧ ¬ Stores (evenParam (2 ^ 30)) :=
  ⟨evenParam_clean (by decide), not_stores_evenParam (by decide) (by decide)⟩

/-! ### Records -/

/-- The length that the 16 bits of a header stand for. -/
def Header.contentLength (h : Header) : ℕ := h.contentLengthB1.toNat * 256 + h.contentLengthB0.toNat

theorem contentLength_makeHeader (type : UInt8) (requestId paddingLength : ℤ) (n : ℕ) :
    (makeHeader type requestId n paddingLength).contentLength = n % 65536 := by
  rw [Header.contentLength, makeHeader, byte_shiftRight, toNat_byte, toNat_byte]
  omega

/-- A header with the length of the body, and the body. -/
def IsRecord (p : Param) (record : List UInt8) : Prop :=
  ∃ header : Header, record = header.bytes ++ bodyOf p ∧ header.contentLength = (bodyOf p).length

/-- What `sendParams` stores in `bodyBuff`. -/
def sentBody (p : Param) : List UInt8 :=
  nameValueBytes p.1 (castInt (cstr p.1).length) p.2 (castInt (cstr p.2).length)

theorem sendParams_of_le {c : FastCgi} {write : List UInt8 → ℤ} {p : Param}
    (hwrite : ∀ record, write record = record.length) (h : (sentBody p).length ≤ paramsBuffLen) :
    sendParams c write p.1 p.2 =
      .ok ((makeHeader fcgiParams c.requestId (sentBody p).length 0).bytes ++ sentBody p) := by
  have hbytes : nameValueBytes p.1 (castInt (cstr p.1).length) p.2 (castInt (cstr p.2).length) =
      sentBody p := rfl
  have hle : (sentBody p).length ≤ (List.replicate paramsBuffLen (0 : UInt8)).length := by
    rwa [List.length_replicate]
  have hlength : castInt (sentBody p).length = (sentBody p).length := by
    have hlt : (sentBody p).length < 2049 := Nat.lt_succ_of_le h
    exact castInt_of_lt (Nat.lt_trans hlt (by decide))
  rw [sendParams, makeNameValueBody_of_le hbytes hle, ok_bind]
  simp only [hlength, Int.toNat_natCast, List.take_left]
  rw [ensure_of _ (hwrite _)]
  rfl

theorem sendParams_of_gt {c : FastCgi} {write : List UInt8 → ℤ} {p : Param}
    (h : paramsBuffLen < (sentBody p).length) :
    sendParams c write p.1 p.2 = .error .bodyBuff := by
  have hnot : ¬ (sentBody p).length ≤ (List.replicate paramsBuffLen (0 : UInt8)).length := by
    rw [List.length_replicate]
    exact Nat.not_le.mpr h
  rw [sendParams, makeNameValueBody]
  exact congrArg (· >>= _) (congrArg (· >>= _) (ensure_of_not _ hnot))

/-- The two lengths are converted to `int`, which changes nothing that matters here. -/
theorem length_sentBody_le_iff {p : Param} (hname : 0 ∉ p.1) (hvalue : 0 ∉ p.2) :
    (sentBody p).length ≤ paramsBuffLen ↔ bodySize p ≤ paramsBuffLen := by
  have hlengthBytes : ∀ n : ℕ, (lengthBytes (castInt n)).length = lengthSize n ∨
      paramsBuffLen < n := by
    intro n
    by_cases hn : n < 2 ^ 31
    · have hcast : castInt n = n := castInt_of_lt hn
      exact .inl (by rw [hcast, length_lengthBytes])
    · exact .inr (Nat.lt_of_lt_of_le (by decide) (Nat.not_lt.mp hn))
  have hsent : (sentBody p).length = (lengthBytes (castInt p.1.length)).length +
      (lengthBytes (castInt p.2.length)).length + p.1.length + p.2.length := by
    simp only [sentBody, nameValueBytes, cstr_of_clean hname, cstr_of_clean hvalue,
      List.length_append]
  rw [hsent, bodySize]
  rcases hlengthBytes p.1.length with h₁ | h₁
  · rcases hlengthBytes p.2.length with h₂ | h₂
    · rw [h₁, h₂]
    · omega
  · omega

/-- Where the body fits, it is the one for the lengths themselves. -/
theorem sentBody_eq {p : Param} (h : bodySize p ≤ paramsBuffLen) (hname : 0 ∉ p.1)
    (hvalue : 0 ∉ p.2) : sentBody p = bodyOf p := by
  have hcast : ∀ n : ℕ, n ≤ paramsBuffLen → castInt n = n := fun n hn =>
    castInt_of_lt (Nat.lt_of_le_of_lt hn (by decide))
  rw [bodySize] at h
  rw [sentBody, bodyOf, cstr_of_clean hname, cstr_of_clean hvalue, hcast _ (by omega),
    hcast _ (by omega)]

/-- The record is right exactly if its body fits `bodyBuff`. -/
theorem params_record_iff (c : FastCgi) (write : List UInt8 → ℤ)
    (hwrite : ∀ record, write record = record.length) (name value : List UInt8) (hname : 0 ∉ name)
    (hvalue : 0 ∉ value) :
    (∃ record, sendParams c write name value = .ok record ∧ IsRecord (name, value) record) ↔
      bodySize (name, value) ≤ paramsBuffLen := by
  have hiff := length_sentBody_le_iff (p := (name, value)) hname hvalue
  constructor
  · rintro ⟨record, hsend, -⟩
    by_contra hlarge
    have hfault : sendParams c write name value = .error .bodyBuff :=
      sendParams_of_gt (p := (name, value)) (Nat.not_le.mp (mt hiff.mp hlarge))
    rw [hfault] at hsend
    cases hsend
  · intro hfits
    have hbody := sentBody_eq hfits hname hvalue
    have hsend := sendParams_of_le (c := c) hwrite (hiff.mpr hfits)
    have hlt : (bodyOf (name, value)).length < 65536 := by
      rw [length_bodyOf hname hvalue]
      exact Nat.lt_of_le_of_lt hfits (by decide)
    refine ⟨_, hsend, makeHeader fcgiParams c.requestId (sentBody (name, value)).length 0, ?_, ?_⟩
    · rw [hbody]
    · rw [hbody, contentLength_makeHeader, Nat.mod_eq_of_lt hlt]

theorem params_record_iff_scriptName :
    (∃ record, sendParams ⟨1, 0⟩ (fun record => record.length) (ascii "SCRIPT_NAME")
        (ascii "/index.php") = .ok record ∧
      IsRecord (ascii "SCRIPT_NAME", ascii "/index.php") record) ↔
      bodySize (ascii "SCRIPT_NAME", ascii "/index.php") ≤ paramsBuffLen :=
  params_record_iff ⟨1, 0⟩ (fun record => record.length) (fun _ => rfl) (ascii "SCRIPT_NAME")
    (ascii "/index.php") (by decide) (by decide)

theorem long_value_overruns :
    0 ∉ ascii "Q" ∧ 0 ∉ List.replicate 2043 (65 : UInt8) ∧
      sendParams ⟨1, 0⟩ (fun record => record.length) (ascii "Q") (List.replicate 2043 65) =
        .error .bodyBuff := by
  have hvalue : 0 ∉ List.replicate 2043 (65 : UInt8) := fun h =>
    absurd (List.eq_of_mem_replicate h) (by decide)
  refine ⟨by decide, hvalue, sendParams_of_gt (p := (ascii "Q", List.replicate 2043 65)) ?_⟩
  refine Nat.not_le.mp (mt (length_sentBody_le_iff (by decide) hvalue).mp ?_)
  have hname : (ascii "Q").length = 1 := by decide
  simp only [bodySize, hname, List.length_replicate]
  decide

end Muduo.Net.FastCgi
